import Globacl.Core.Represents

/-!
# Loading a source of truth (`globacl-core/src/lib/source.rs`)

A start builds the source from a snapshot, a stream of operations and the mutations of the logs.
The loaders sort the mutations by slot, so the source holds the same history in another order:
only the order in each shard matters (`Represents.congr`).

* `shardLog_sortBy`: the sort keeps the order in each shard.
* `fromMutations_ok`: a complete log gives the source back.
* `fromSnapshotAndMutations_ok`: a snapshot of a prefix and the rest of the log give it back.
* `exists_fromSnapshotAndMutations_iff`: which operations and logs a snapshot can be loaded with.
-/

namespace Globacl

open Lib

instance : Std.TransCmp SourceOfTruth.compareBySlot :=
  (inferInstance : Std.TransCmp (compareLex (compareOn Mutation.shard)
    (compareLex (compareOn Mutation.seq) (compareOn Mutation.opId))))

theorem seq_le_of_compareBySlot {a b : Mutation} (h : SourceOfTruth.compareBySlot a b ≠ .gt)
    (hs : a.shard = b.shard) : a.seq ≤ b.seq := by
  by_contra hlt
  have hgt : compare a.seq b.seq = .gt := Nat.compare_eq_gt.mpr (by omega)
  exact h (by simp [SourceOfTruth.compareBySlot, hs, hgt])

/-- Whatever the order of the list, the loaders' sort brings the mutations of a shard to the order of
their sequence numbers. -/
theorem shardLog_sortBy_of_perm {l log : List Mutation} {s : Nat} (hp : (shardLog l s).Perm log)
    (h : log.Pairwise fun a b => a.seq < b.seq) :
    shardLog (sortBy SourceOfTruth.compareBySlot l) s = log := by
  have hperm : (shardLog (sortBy SourceOfTruth.compareBySlot l) s).Perm log :=
    ((sortBy_perm _ l).filter _).trans hp
  have hsorted : (shardLog (sortBy SourceOfTruth.compareBySlot l) s).Pairwise fun a b =>
      a.seq ≤ b.seq := by
    refine ((sortBy_pairwise SourceOfTruth.compareBySlot l).filter _).imp_of_mem
      fun ha hb hab => seq_le_of_compareBySlot hab ?_
    rw [(mem_shardLog.mp ha).2, (mem_shardLog.mp hb).2]
  refine @List.Perm.eq_of_pairwise _ (fun a b : Mutation => a.seq ≤ b.seq) _ _ ?_ hsorted
    (h.imp fun hab => Nat.le_of_lt hab) hperm
  -- the numbers in the shard are distinct
  have hne : log.Pairwise fun a b => a.seq ≠ b.seq := h.imp fun hab => Nat.ne_of_lt hab
  have : Std.Symm fun a b : Mutation => a.seq ≠ b.seq := ⟨fun _ _ hab => hab.symm⟩
  intro a b ha hb hab hba
  by_contra hn
  exact hne.forall (hperm.subset ha) hb hn (Nat.le_antisymm hab hba)

/-- The loaders' sort keeps the order in a shard whose mutations come by sequence number. -/
theorem shardLog_sortBy {l : List Mutation} {s : Nat}
    (h : (shardLog l s).Pairwise fun a b => a.seq < b.seq) :
    shardLog (sortBy SourceOfTruth.compareBySlot l) s = shardLog l s :=
  shardLog_sortBy_of_perm (List.Perm.refl _) h

namespace SourceOfTruth

theorem Holds.congr {n : Nat} {history history' : List Mutation} {st : SourceOfTruth}
    (h : Holds n history st) (hs : ∀ s, shardLog history' s = shardLog history s) :
    Holds n history' st where
  shardCount := h.shardCount
  valid := h.valid.congr hs
  watermark s := by rw [hs]; exact h.watermark s
  entries key := by
    rw [← entryAfter_shardLog (h.valid.congr hs).routed, hs, entryAfter_shardLog h.valid.routed]
    exact h.entries key
  rules key := by
    rw [← ruleAfter_shardLog (h.valid.congr hs).routed, hs, ruleAfter_shardLog h.valid.routed]
    exact h.rules key

/-- What a source represents depends only on the order in each shard. -/
theorem Represents.congr {n : Nat} {history history' : List Mutation} {st : SourceOfTruth}
    (h : Represents n history st) (hs : ∀ s, shardLog history' s = shardLog history s) :
    Represents n history' st where
  toHolds := h.toHolds.congr hs
  opIndex id m := by rw [h.opIndex, mem_of_shardLog_eq hs]

theorem Indexes.congr {ms ms' : List Mutation} {opIndex : HashMap String Mutation}
    (h : Indexes ms opIndex) (hs : ∀ m, m ∈ ms' ↔ m ∈ ms) : Indexes ms' opIndex := fun id m => by
  rw [h, hs]

/-- A complete log gives the source back, in whatever order. -/
theorem fromMutations_ok {shardCount : Nat} (sourceRegion : String) {history l : List Mutation}
    (hv : ValidHistory (max shardCount 1) history) (hid : DistinctOps history)
    (hl : ∀ s, (shardLog l s).Perm (shardLog history s)) :
    ∃ st, fromMutations shardCount sourceRegion l = .ok st ∧ (∀ s, st.compactedWatermark s = 0) ∧
      Retains (max shardCount 1) history st := by
  have hsort : ∀ s, shardLog (sortBy compareBySlot l) s = shardLog history s := fun s =>
    shardLog_sortBy_of_perm (hl s) (hv.pairwise_seq s)
  obtain ⟨st, hst, h, hi, hc, hms⟩ :=
    (holds_new shardCount sourceRegion).foldlM_applyLoadedMutation (l := sortBy compareBySlot l)
      (hv.congr hsort) indexes_nil (hid.mono fun m hm => (mem_of_shardLog_eq hsort).mp hm)
  have hc0 : ∀ s, st.compactedWatermark s = 0 := fun s => by
    rw [compactedWatermark, hc]
    exact (holds_new shardCount sourceRegion).watermark s
  refine ⟨st, hst, hc0, ?_⟩
  exact
    { toRepresents := ⟨h.congr fun s => (hsort s).symm,
        hi.congr fun m => (mem_of_shardLog_eq hsort).symm⟩
      compacted := fun s => by rw [hc0]; exact Nat.zero_le _
      retained := fun s => by rw [hc0, List.drop_zero, hms, ← hsort]; rfl }

/-! ## Snapshots -/

end SourceOfTruth

/-- A snapshot passes its checks if what it stores names shards that exist. -/
theorem Snapshot.validate_of_shards {snapshot : Snapshot}
    (hlen : snapshot.watermarks.length = snapshot.shardCount)
    (he : ∀ e ∈ snapshot.entries, e.shardId < snapshot.shardCount)
    (hr : ∀ r ∈ snapshot.rules, r.shardId < snapshot.shardCount) : snapshot.validate = .ok () := by
  unfold Snapshot.validate
  rw [if_neg (not_not.mpr hlen)]
  refine bind_eq_ok.mpr ⟨(), forIn_checks fun e hmem => if_neg (Nat.not_le.mpr (he e hmem)), ?_⟩
  exact bind_eq_ok.mpr ⟨(), forIn_checks fun r hmem => if_neg (Nat.not_le.mpr (hr r hmem)), rfl⟩

namespace SourceOfTruth

theorem Holds.validate_snapshot {n : Nat} {history : List Mutation} {st : SourceOfTruth}
    (h : Holds n history st) (ord : IterOrder) : (st.snapshot ord).validate = .ok () := by
  have hpos : 0 < n := h.shardCount ▸ st.shardCount_pos
  have hshard : ∀ m ∈ history, m.shard < st.shardCount := fun m hm => by
    rw [(h.valid.routed m hm).shard, h.shardCount]
    exact shardForHash_lt hpos
  refine Snapshot.validate_of_shards st.watermarks_length (fun e he => ?_) fun r hr => ?_
  · have hlook := st.entries_keyed.mem_values.mp he
    rw [h.entries] at hlook
    obtain ⟨m, hm, hw⟩ := exists_of_valueAt hlook
    have := hshard m hm
    unfold Mutation.entryWrite at hw
    split at hw
    · cases hw
    · simp only [Option.some.injEq, Prod.mk.injEq] at hw
      obtain ⟨-, hw⟩ := hw
      split at hw
      · cases hw
      · cases hw
        rw [(h.valid.routed m hm).entry]
        exact this
  · have hlook := st.rules_keyed.mem_values.mp hr
    rw [h.rules] at hlook
    obtain ⟨m, hm, hw⟩ := exists_of_valueAt hlook
    have := hshard m hm
    unfold Mutation.ruleWrite at hw
    rw [Option.map_eq_some_iff] at hw
    obtain ⟨rule, hrule, hw⟩ := hw
    simp only [Prod.mk.injEq] at hw
    obtain ⟨-, hw⟩ := hw
    split at hw
    · cases hw
    · cases hw
      rw [(h.valid.routed m hm).rule _ hrule]
      exact this

/-- A state built from a snapshot holds what the state of the snapshot held. -/
theorem Holds.ofSnapshot {n : Nat} {history : List Mutation} {st : SourceOfTruth}
    (h : Holds n history st) (ord : IterOrder) (sourceRegion : String) {compacted : List Nat}
    (hpos : 0 < n) (hlen : (st.snapshot ord).watermarks.length = n)
    (hcomp : compacted.length = n) :
    Holds n history (ofSnapshot n sourceRegion (st.snapshot ord) compacted hpos hlen hcomp) where
  shardCount := rfl
  valid := h.valid
  watermark s := h.watermark s
  entries key := (st.entries_keyed.collect_values (HashMap.values_perm ord .given _) key).trans
    (h.entries key)
  rules key := (st.rules_keyed.collect_values (HashMap.values_perm ord .given _) key).trans
    (h.rules key)

/-- A snapshot of a prefix, operations that are all among the history, and the rest of the log give
the source back, if together they name every mutation. -/
theorem fromSnapshotAndMutations_ok {n : Nat} (sourceRegion : String)
    {before history : List Mutation} {st₀ : SourceOfTruth} (h₀ : Holds n before st₀)
    (ord : IterOrder) (hv : ValidHistory n history) (hid : DistinctOps history)
    (hb : Behind before history) {ids tail : List Mutation} (hids : ids ⊆ history)
    (htail : ∀ s, (shardLog tail s).Perm ((shardLog history s).drop (shardLog before s).length))
    (hall : ∀ m ∈ history, m ∈ ids ∨ m ∈ tail) :
    ∃ st, fromSnapshotAndMutations n sourceRegion (st₀.snapshot ord) ids tail = .ok st ∧
      (∀ s, st.compactedWatermark s = (shardLog before s).length) ∧ Retains n history st := by
  have hpos : 0 < n := h₀.shardCount ▸ st₀.shardCount_pos
  have hlen : (st₀.snapshot ord).watermarks.length = n := st₀.watermarks_length.trans h₀.shardCount
  have hsub : tail ⊆ history := fun m hm => by
    have : m ∈ shardLog tail m.shard := mem_shardLog.mpr ⟨hm, rfl⟩
    exact (mem_shardLog.mp (List.mem_of_mem_drop ((htail _).subset this))).1
  have hsort : ∀ s, shardLog (sortBy compareBySlot tail) s =
      (shardLog history s).drop (shardLog before s).length := fun s =>
    shardLog_sortBy_of_perm (htail s) (hv.pairwise_seq s).drop
  have hcat : ∀ s, shardLog (before ++ sortBy compareBySlot tail) s = shardLog history s :=
    fun s => by
      obtain ⟨t, ht⟩ := hb s
      rw [shardLog_append, hsort, ← ht, List.drop_left]
  obtain ⟨opIndex, hk, hfold, hi⟩ := @foldlM_insertOpIndex ids _
    (ofSnapshot n sourceRegion (st₀.snapshot ord) _ hpos hlen hlen) indexes_nil
    (hid.mono hids)
  obtain ⟨st, hst, h, hi, hc, hms⟩ :=
    ((h₀.ofSnapshot ord sourceRegion hpos hlen hlen).of_alike
      (alike_reindex _ hk)).foldlM_applyLoadedMutation (l := sortBy compareBySlot tail)
      (hv.congr hcat) hi (hid.mono fun m hm => by
        rcases List.mem_append.mp hm with hm | hm
        · exact hids hm
        · exact hsub (mem_sortBy.mp hm))
  have hcompacted : ∀ s, st.compactedWatermark s = (shardLog before s).length := fun s => by
    rw [compactedWatermark, hc]
    exact h₀.watermark s
  refine ⟨st, ?_, hcompacted, ?_⟩
  · unfold fromSnapshotAndMutations
    have hn : (st₀.snapshot ord).shardCount = n := h₀.shardCount
    rw [if_neg (not_not.mpr hn), h₀.validate_snapshot ord]
    dsimp only
    rw [dif_pos ⟨hpos, hlen⟩, hfold]
    exact hst
  · have h := h.congr fun s => (hcat s).symm
    exact
      { toHolds := h
        opIndex := hi.congr fun m => by
          simp only [List.nil_append, List.mem_append, mem_sortBy]
          exact ⟨fun hm => hall m hm, fun hm => hm.elim (fun hm => hids hm) fun hm => hsub hm⟩
        compacted := fun s => by
          rw [hcompacted, h.watermark]
          exact hb.length_le s
        retained := fun s => by rw [hcompacted, ← hsort, hms]; rfl }

end SourceOfTruth

/-! ## Loading with a retained history -/

/-- Each shard of the list is numbered without gaps, from behind the number `e` of the shard. -/
def NumberedFrom (e : Nat → Nat) (l : List Mutation) : Prop :=
  ∀ s i m, (shardLog l s)[i]? = some m → m.seq = e s + i + 1

theorem numberedFrom_nil (e : Nat → Nat) : NumberedFrom e [] := fun s i m h => by simp at h

theorem shardLog_cons (m : Mutation) (l : List Mutation) (s : Nat) :
    shardLog (m :: l) s = if m.shard = s then m :: shardLog l s else shardLog l s := by
  simp [shardLog, List.filter_cons]

theorem numberedFrom_cons {e : Nat → Nat} {m : Mutation} {l : List Mutation} :
    NumberedFrom e (m :: l) ↔
      m.seq = e m.shard + 1 ∧ NumberedFrom (Function.update e m.shard m.seq) l := by
  constructor
  · intro h
    have hm : m.seq = e m.shard + 1 := h m.shard 0 m (by rw [shardLog_cons, if_pos rfl]; rfl)
    refine ⟨hm, fun s i m' hi => ?_⟩
    by_cases hs : m.shard = s
    · subst hs
      have := h m.shard (i + 1) m' (by rw [shardLog_cons, if_pos rfl]; exact hi)
      rw [Function.update_self]
      omega
    · rw [Function.update_of_ne (Ne.symm hs)]
      exact h s i m' (by rw [shardLog_cons, if_neg hs]; exact hi)
  · rintro ⟨hm, h⟩ s i m' hi
    rw [shardLog_cons] at hi
    split at hi
    · subst_vars
      cases i with
      | zero => cases hi; exact hm
      | succ i =>
        have := h m.shard i m' hi
        rw [Function.update_self] at this
        omega
    · rename_i hs
      have := h s i m' hi
      rwa [Function.update_of_ne (Ne.symm hs)] at this

theorem getD_zipWith_min {l l' : List Nat} (h : l.length = l'.length) (s : Nat) :
    (List.zipWith min l l').getD s 0 = min (l.getD s 0) (l'.getD s 0) := by
  simp only [List.getD_eq_getElem?_getD, List.getElem?_zipWith]
  by_cases hs : s < l.length
  · rw [List.getElem?_eq_getElem hs, List.getElem?_eq_getElem (by omega)]
    rfl
  · rw [List.getElem?_eq_none (by omega), List.getElem?_eq_none (by omega)]
    rfl

namespace SourceOfTruth

theorem getD_set_eq (l : List Nat) {i : Nat} (hi : i < l.length) (v : Nat) :
    (fun s => (l.set i v).getD s 0) = Function.update (fun s => l.getD s 0) i v := by
  funext s
  simp only [List.getD_eq_getElem?_getD]
  by_cases hs : s = i
  · subst hs
    rw [Function.update_self, List.getElem?_set_self hi]
    rfl
  · rw [Function.update_of_ne hs, List.getElem?_set_ne (Ne.symm hs)]

theorem Alike.watermark {st st' : SourceOfTruth} (h : Alike st st') (s : Nat) :
    st'.watermark s = st.watermark s := congrArg (fun l : List Nat => l.getD s 0) h.watermarks

theorem alike_insertOpIndex {st st' : SourceOfTruth} {m : Mutation}
    (h : st.insertOpIndex m = .ok st') : Alike st st' := by
  unfold insertOpIndex at h
  split at h
  · split at h
    · cases h; exact .refl _
    · cases h
  · cases h; exact ⟨rfl, rfl, rfl, rfl⟩

theorem alike_foldlM_insertOpIndex {l : List Mutation} {st st' : SourceOfTruth}
    (h : l.foldlM insertOpIndex st = .ok st') : Alike st st' :=
  foldlM_invariant (p := fun st' => Alike st st') (fun _ _ _ _ hs hf => hs.trans (alike_insertOpIndex hf))
    (.refl st) h

theorem checkReplayed_ok {st : SourceOfTruth} {e : List Nat} (h : checkReplayed st e = .ok ())
    (s : Nat) (hs : s < e.length) : st.watermark s ≤ e.getD s 0 := by
  unfold checkReplayed at h
  split at h
  · cases h
  · rename_i hfind
    have := List.find?_eq_none.mp hfind s (List.mem_range.mpr hs)
    rw [decide_eq_true_eq] at this
    omega

/-- The loop over the retained mutations succeeds only if they are numbered from behind the compacted
watermarks, and then it has counted them. -/
theorem foldlM_retainMutation_numbered {l : List Mutation} :
    ∀ {st st' : SourceOfTruth} {e e' : List Nat}, e.length = st.shardCount →
      l.foldlM retainMutation (st, e) = .ok (st', e') →
      NumberedFrom (e.getD · 0) l ∧ e'.length = e.length ∧
        (∀ s, e'.getD s 0 = e.getD s 0 + (shardLog l s).length) ∧
        ∀ s, st.watermark s ≤ st'.watermark s := by
  induction l with
  | nil =>
    intro st st' e e' _ h
    cases h
    exact ⟨numberedFrom_nil _, rfl, fun _ => rfl, fun _ => Nat.le_refl _⟩
  | cons m l ih =>
    intro st st' e e' hlen h
    rw [List.foldlM_cons, bind_eq_ok] at h
    obtain ⟨⟨st₁, e₁⟩, h₁, h⟩ := h
    unfold retainMutation at h₁
    dsimp only at h₁
    split at h₁
    · cases h₁
    split at h₁
    · cases h₁
    rename_i hshard hseq
    obtain ⟨hcount, hmono, rfl⟩ : st₁.shardCount = st.shardCount ∧
        (∀ s, st.watermark s ≤ st₁.watermark s) ∧ e₁ = e.set m.shard m.seq := by
      split at h₁
      · rw [bind_eq_ok] at h₁
        obtain ⟨st₂, h₂, h₁⟩ := h₁
        cases h₁
        have ha := alike_insertOpIndex h₂
        exact ⟨ha.shardCount, fun s => (ha.watermark s).ge, rfl⟩
      · simp only [applyLoadedMutation, bind_eq_ok] at h₁
        obtain ⟨_, ⟨st₂, h₂, st₃, h₃, h₄⟩, h₁⟩ := h₁
        obtain ⟨hlt, hseq', rfl⟩ := applyCommittedMutation_ok.mp h₂
        cases h₄
        cases h₁
        have ha := alike_insertOpIndex h₃
        refine ⟨ha.shardCount, fun s => ?_, rfl⟩
        have hw : (st₃.pushMutation m).watermark s = (st.advance m).watermark s := ha.watermark s
        rw [hw, advance_watermark st m hlt]
        split
        · subst_vars; omega
        · exact Nat.le_refl _
    have hlt : m.shard < e.length := by omega
    obtain ⟨hnum, hc, hall, hle⟩ := ih (by rw [List.length_set, hlen, hcount]) h
    rw [getD_set_eq e hlt] at hnum
    refine ⟨numberedFrom_cons.mpr ⟨not_not.mp hseq, hnum⟩, by rw [hc, List.length_set], fun s => ?_,
      fun s => (hmono s).trans (hle s)⟩
    have hset := congrFun (getD_set_eq e hlt m.seq) s
    rw [hall, hset, shardLog_cons]
    by_cases hs : m.shard = s
    · subst hs
      rw [Function.update_self, if_pos rfl, List.length_cons, not_not.mp hseq]
      omega
    · rw [Function.update_of_ne (Ne.symm hs), if_neg hs]

/-- The next retained mutation of a shard: the state indexes it if it has it already, else the mutation
brings it on in the history. -/
theorem Holds.retainMutation {n : Nat} {history reached ms : List Mutation} {m : Mutation}
    {st : SourceOfTruth} {e : List Nat} (hv : ValidHistory n history) (hm : m ∈ history)
    (h : Holds n reached st) (hb : Behind reached history) (hlen : e.length = n)
    (hle : ∀ s, e.getD s 0 ≤ st.watermark s) (hseq : m.seq = e.getD m.shard 0 + 1)
    (hi : Indexes ms st.opIndex) (hid : DistinctOps (ms ++ [m])) :
    ∃ reached' st', SourceOfTruth.retainMutation (st, e) m = .ok (st', e.set m.shard m.seq) ∧
      Holds n reached' st' ∧ Behind reached' history ∧
      (∀ s, (e.set m.shard m.seq).getD s 0 ≤ st'.watermark s) ∧
      st'.compactedWatermarks = st.compactedWatermarks ∧ st'.mutations = st.mutations ++ [m] ∧
      Indexes (ms ++ [m]) st'.opIndex := by
  have hlt : m.shard < st.shardCount := by
    rw [(hv.routed m hm).shard, h.shardCount]
    exact shardForHash_lt (h.shardCount ▸ st.shardCount_pos)
  have hcount := h.shardCount
  have hreach : ∀ st' : SourceOfTruth, (∀ s, st.watermark s ≤ st'.watermark s) →
      m.seq ≤ st'.watermark m.shard → ∀ s, (e.set m.shard m.seq).getD s 0 ≤ st'.watermark s := by
    intro st' hmono hreach s
    rw [congrFun (getD_set_eq e (i := m.shard) (by omega) m.seq) s]
    by_cases hs : s = m.shard
    · subst hs; rw [Function.update_self]; exact hreach
    · rw [Function.update_of_ne hs]; exact (hle s).trans (hmono s)
  unfold SourceOfTruth.retainMutation
  dsimp only
  rw [if_neg (Nat.not_le.mpr hlt), if_neg (not_not.mpr hseq)]
  by_cases hold : m.seq ≤ st.watermark m.shard
  · obtain ⟨opIndex, hk, hins, hi⟩ := insertOpIndex_ok hi hid
    rw [if_pos hold, hins]
    exact ⟨reached, (st.reindex opIndex hk).pushMutation m, rfl, h.of_alike ⟨rfl, rfl, rfl, rfl⟩, hb,
      hreach _ (fun s => Nat.le_refl _) hold, rfl, rfl, hi⟩
  · have hnext : m.seq = st.watermark m.shard + 1 := by
      have := hle m.shard
      omega
    have hb' : Behind (reached ++ [m]) history := hb.concat hv hm (by rw [hnext, h.watermark])
    obtain ⟨opIndex, hk, hins, hi⟩ := @insertOpIndex_ok _ (st.advance m) m hi hid
    have hw : ∀ s, (((st.advance m).reindex opIndex hk).pushMutation m).watermark s =
        if s = m.shard then m.seq else st.watermark s := advance_watermark st m hlt
    rw [if_neg hold]
    refine ⟨reached ++ [m], ((st.advance m).reindex opIndex hk).pushMutation m, ?_,
      (h.advance (hv.behind hb') hlt).of_alike ⟨rfl, rfl, rfl, rfl⟩, hb', hreach _ (fun s => ?_) ?_,
      rfl, rfl, hi⟩
    · simp only [SourceOfTruth.applyLoadedMutation, applyCommittedMutation_ok.mpr ⟨hlt, hnext, rfl⟩,
        bind, Except.bind, hins]
      rfl
    · rw [hw]
      split
      · subst_vars; omega
      · exact Nat.le_refl _
    · rw [hw, if_pos rfl]

/-- The loop over retained mutations that are numbered from behind the compacted watermarks. -/
theorem Holds.foldlM_retainMutation {n : Nat} {history l : List Mutation}
    (hv : ValidHistory n history) (hl : l ⊆ history) :
    ∀ {reached ms : List Mutation} {st : SourceOfTruth} {e : List Nat}, Holds n reached st →
      Behind reached history → e.length = n → (∀ s, e.getD s 0 ≤ st.watermark s) →
      NumberedFrom (e.getD · 0) l → Indexes ms st.opIndex → DistinctOps (ms ++ l) →
      ∃ reached' st' e', l.foldlM SourceOfTruth.retainMutation (st, e) = .ok (st', e') ∧
        Holds n reached' st' ∧ Behind reached' history ∧ (∀ s, e'.getD s 0 ≤ st'.watermark s) ∧
        st'.compactedWatermarks = st.compactedWatermarks ∧ st'.mutations = st.mutations ++ l ∧
        Indexes (ms ++ l) st'.opIndex := by
  induction l with
  | nil => exact fun {reached ms st e} h hb _ hle _ hi _ =>
      ⟨reached, st, e, rfl, h, hb, hle, rfl, (List.append_nil _).symm, by rwa [List.append_nil]⟩
  | cons m l ih =>
    intro reached ms st e h hb hlen hle hnum hi hid
    have hm : m ∈ history := hl List.mem_cons_self
    obtain ⟨hseq, hnum⟩ := numberedFrom_cons.mp hnum
    rw [List.append_cons] at hid
    have hlt : m.shard < e.length := by
      rw [(hv.routed m hm).shard, hlen]
      exact shardForHash_lt (h.shardCount ▸ st.shardCount_pos)
    rw [← getD_set_eq e hlt] at hnum
    obtain ⟨reached₁, st₁, hstep, h, hb, hle, hc, hms, hi⟩ :=
      h.retainMutation hv hm hb hlen hle hseq hi (hid.mono (List.subset_append_left _ l))
    obtain ⟨reached', st', e', hfold, h', hb', hle', hc', hms', hi'⟩ :=
      ih (fun m' hm' => hl (List.mem_cons_of_mem _ hm')) h hb (by rw [List.length_set]; exact hlen)
        hle hnum hi hid
    refine ⟨reached', st', e', by rw [List.foldlM_cons, hstep]; exact hfold, h', hb', hle',
      hc'.trans hc, ?_, by simpa using hi'⟩
    rw [hms', hms]
    exact List.append_assoc ..

/-- A loop of loads counts the mutations of each shard. -/
theorem foldlM_applyLoadedMutation_watermark {l : List Mutation} :
    ∀ {st st' : SourceOfTruth}, l.foldlM applyLoadedMutation st = .ok st' →
      ∀ s, st'.watermark s = st.watermark s + (shardLog l s).length := by
  induction l with
  | nil => intro st st' h s; cases h; rfl
  | cons m l ih =>
    intro st st' h s
    rw [List.foldlM_cons, bind_eq_ok] at h
    obtain ⟨st₁, h₁, h⟩ := h
    simp only [applyLoadedMutation, bind_eq_ok] at h₁
    obtain ⟨st₂, h₂, st₃, h₃, h₄⟩ := h₁
    obtain ⟨hlt, hseq, rfl⟩ := applyCommittedMutation_ok.mp h₂
    cases h₄
    have hstep : (st₃.pushMutation m).watermark s = (st.advance m).watermark s :=
      (alike_insertOpIndex h₃).watermark s
    rw [ih h, hstep, advance_watermark st m hlt, shardLog_cons]
    by_cases hs : m.shard = s
    · subst hs
      rw [if_pos rfl, if_pos rfl, List.length_cons, hseq]
      omega
    · rw [if_neg (Ne.symm hs), if_neg hs]

/-- The rest of a log behind a number is numbered from there. -/
theorem numberedFrom_of_drop {n : Nat} {history l : List Mutation} {f : Nat → Nat}
    (hv : ValidHistory n history) (hl : ∀ s, shardLog l s = (shardLog history s).drop (f s)) :
    NumberedFrom f l := fun s i m hi => by
  rw [hl, List.getElem?_drop] at hi
  exact hv.numbered s _ m hi

section Retained

variable {n : Nat} {history : List Mutation} {st₀ : SourceOfTruth} {ids retained : List Mutation}
  {compacted : List Nat} {f : Nat → Nat}

/-- A snapshot of a prefix and logs that begin right behind the compacted watermarks give the source
back, in whatever order they are, if the compacted watermarks are at or below the snapshot. -/
theorem fromSnapshotAndRetainedHistory_ok (sourceRegion : String) {before : List Mutation}
    (h₀ : Holds n before st₀) (ord : IterOrder) (hv : ValidHistory n history)
    (hid : DistinctOps history) (hb : Behind before history) (hids : ids ⊆ history)
    (hret : ∀ s, (shardLog retained s).Perm ((shardLog history s).drop (f s)))
    (hall : ∀ m ∈ history, m ∈ ids ∨ m ∈ retained) (hfle : ∀ s, f s ≤ (shardLog before s).length)
    (hlen : compacted.length = n) (hf : ∀ s, compacted.getD s 0 = f s) :
    ∃ st, fromSnapshotAndRetainedHistory n sourceRegion (st₀.snapshot ord) ids retained compacted =
      .ok st ∧ (∀ s, st.compactedWatermark s = f s) ∧ Retains n history st := by
  have hpos : 0 < n := h₀.shardCount ▸ st₀.shardCount_pos
  have hcount : (st₀.snapshot ord).shardCount = n := h₀.shardCount
  have hwlen : (st₀.snapshot ord).watermarks.length = n := st₀.watermarks_length.trans h₀.shardCount
  have hwm : ∀ s, (st₀.snapshot ord).watermarks.getD s 0 = (shardLog before s).length :=
    h₀.watermark
  have hfle' := fun s => (hfle s).trans (hb.length_le s)
  have hsub : retained ⊆ history := fun m hm => by
    have : m ∈ shardLog retained m.shard := mem_shardLog.mpr ⟨hm, rfl⟩
    exact (mem_shardLog.mp (List.mem_of_mem_drop ((hret _).subset this))).1
  have hsort : ∀ s, shardLog (sortBy compareBySlot retained) s = (shardLog history s).drop (f s) :=
    fun s => shardLog_sortBy_of_perm (hret s) (hv.pairwise_seq s).drop
  let st₁ := ofSnapshot n sourceRegion (st₀.snapshot ord) compacted hpos hwlen hlen
  have h₁ : Holds n before st₁ := h₀.ofSnapshot ord sourceRegion hpos hwlen hlen
  obtain ⟨opIndex, hk, hfold, hi⟩ := @foldlM_insertOpIndex ids _ st₁ indexes_nil
    (hid.mono hids)
  obtain ⟨reached, st, e, hloop, h, hb', hle, hc, hms, hi⟩ :=
    (h₁.of_alike (alike_reindex _ hk)).foldlM_retainMutation (l := sortBy compareBySlot retained) hv
      (fun m hm => hsub (mem_sortBy.mp hm)) hb hlen
      (fun s => by rw [hf]; exact (hfle s).trans (h₁.watermark s).ge)
      (by simpa only [hf] using numberedFrom_of_drop hv hsort) hi
      (hid.mono fun m hm => by
        rcases List.mem_append.mp hm with hm | hm
        · exact hids hm
        · exact hsub (mem_sortBy.mp hm))
  obtain ⟨-, -, hcounted, -⟩ := @foldlM_retainMutation_numbered _
    (st₁.reindex opIndex hk) _ compacted _ hlen hloop
  have hcompacted : ∀ s, st.compactedWatermark s = f s := fun s => by
    rw [compactedWatermark, hc]
    exact hf s
  -- the loop has counted each shard to its end
  have hend : ∀ s, e.getD s 0 = (shardLog history s).length := fun s => by
    have := hfle' s
    rw [hcounted, hf, hsort, List.length_drop]
    omega
  have h := @Holds.congr _ _ history _ h fun s => by
    have := hle s
    rw [hend, h.watermark] at this
    exact ((hb' s).eq_of_length_le this).symm
  refine ⟨st, ?_, hcompacted, ?_⟩
  · unfold fromSnapshotAndRetainedHistory
    rw [if_neg (not_not.mpr hcount), h₀.validate_snapshot ord]
    dsimp only
    rw [dif_neg (not_not.mpr hlen)]
    have hfind : (List.range n).find? (fun shardId => decide (compacted.getD shardId 0 >
        (st₀.snapshot ord).watermarks.getD shardId 0)) = none :=
      List.find?_eq_none.mpr fun s _ => by
        have := hfle s
        rw [decide_eq_true_eq, hf, hwm]
        omega
    have hcheck : checkReplayed st e = .ok () := by
      unfold checkReplayed
      rw [List.find?_eq_none.mpr fun s _ => ?_]
      rw [decide_eq_true_eq, hend, h.watermark]
      omega
    rw [hfind]
    dsimp only
    rw [dif_pos ⟨hpos, hwlen⟩]
    refine bind_eq_ok.mpr ⟨_, hfold, bind_eq_ok.mpr ⟨_, hloop, bind_eq_ok.mpr ⟨(), hcheck, rfl⟩⟩⟩
  · exact
      { toHolds := h
        opIndex := hi.congr fun m => by
          simp only [List.nil_append, List.mem_append, mem_sortBy]
          exact ⟨fun hm => hall m hm, fun hm => hm.elim (fun hm => hids hm) fun hm => hsub hm⟩
        compacted := fun s => by
          rw [hcompacted, h.watermark]
          exact hfle' s
        retained := fun s => by rw [hcompacted, ← hsort, hms]; rfl }

/-- Nothing else does. -/
theorem eq_of_fromSnapshotAndRetainedHistory {sourceRegion : String} {ord : IterOrder}
    {st : SourceOfTruth} (h₀ : Holds n history st₀)
    (h : fromSnapshotAndRetainedHistory n sourceRegion (st₀.snapshot ord) ids retained compacted =
      .ok st)
    (hret : ∀ s, shardLog retained s = (shardLog history s).drop (f s))
    (hfle : ∀ s, f s ≤ (shardLog history s).length)
    (hcle : ∀ s, compacted.getD s 0 ≤ (shardLog history s).length) (s : Nat) :
    compacted.getD s 0 = f s := by
  have hsort : ∀ s, shardLog (sortBy compareBySlot retained) s = (shardLog history s).drop (f s) :=
    fun s => by
      rw [shardLog_sortBy (by rw [hret]; exact (h₀.valid.pairwise_seq s).drop), hret]
  unfold fromSnapshotAndRetainedHistory at h
  split at h
  · cases h
  split at h
  · cases h
  split at h
  · cases h
  rename_i hlen
  split at h
  · cases h
  split at h
  · simp only [bind_eq_ok] at h
    obtain ⟨st₁, h₁, ⟨st₂, e⟩, h₂, ⟨⟩, hcheck, h₃⟩ := h
    cases h₃
    have hle₁ : ∀ s, (shardLog history s).length ≤ st₁.watermark s := fun s => by
      have hsame := alike_foldlM_insertOpIndex h₁
      exact (h₀.watermark s).ge.trans (hsame.watermark s).ge
    obtain ⟨hnum, hel, hcounted, hmono⟩ := foldlM_retainMutation_numbered
      ((not_not.mp hlen).trans (alike_foldlM_insertOpIndex h₁).shardCount.symm) h₂
    cases hT : shardLog (sortBy compareBySlot retained) s with
    | cons m l =>
      -- the first mutation of the shard carries the number behind both
      have hfirst : (shardLog (sortBy compareBySlot retained) s)[0]? = some m := by rw [hT]; rfl
      have hm : m.seq = compacted.getD s 0 + 0 + 1 := hnum s 0 m hfirst
      have hm' := numberedFrom_of_drop h₀.valid hsort s 0 m hfirst
      omega
    | nil =>
      have hf := hfle s
      have hc := hcle s
      have hend : (shardLog history s).length ≤ f s := by
        rw [hsort] at hT
        exact List.drop_eq_nil_iff.mp hT
      by_cases hs : s < e.length
      · have hreached : st₂.watermark s ≤ e.getD s 0 := checkReplayed_ok hcheck s hs
        have := (hle₁ s).trans (hmono s)
        have hcs := hcounted s
        rw [hT, List.length_nil] at hcs
        omega
      · have hnone : compacted.getD s 0 = 0 := by
          rw [List.getD_eq_getElem?_getD, List.getElem?_eq_none (by omega)]
          rfl
        have hpos : 0 < n := h₀.shardCount ▸ st₀.shardCount_pos
        have hout := h₀.valid.shardLog_eq_nil hpos (s := s) (by rw [← not_not.mp hlen]; omega)
        rw [hout, List.length_nil] at hf
        omega
  · cases h

end Retained

/-! ## Exactly what loads -/

section Exactly

variable {st st' : SourceOfTruth} {m : Mutation} {ms : List Mutation}

theorem Indexes.insertOpIndex (h : Indexes ms st.opIndex) (hok : st.insertOpIndex m = .ok st') :
    Indexes (ms ++ [m]) st'.opIndex := by
  unfold SourceOfTruth.insertOpIndex at hok
  split at hok
  · rename_i existing hl
    split at hok
    · cases hok
      rename_i heq
      subst heq
      refine h.congr fun m' => ?_
      rw [List.mem_append, List.mem_singleton]
      refine ⟨?_, Or.inl⟩
      rintro (hm' | rfl)
      · exact hm'
      · exact ((h _ _).mp hl).1
    · cases hok
  · cases hok
    exact h.insert (HashMap.not_mem_iff_lookup.mpr ‹_›)

theorem Indexes.foldlM_insertOpIndex {l : List Mutation} :
    ∀ {ms : List Mutation} {st st' : SourceOfTruth}, Indexes ms st.opIndex →
      l.foldlM SourceOfTruth.insertOpIndex st = .ok st' → Indexes (ms ++ l) st'.opIndex := by
  induction l with
  | nil =>
    intro ms st st' h hok
    cases hok
    rwa [List.append_nil]
  | cons m l ih =>
    intro ms st st' h hok
    rw [List.foldlM_cons, bind_eq_ok] at hok
    obtain ⟨st₁, h₁, hok⟩ := hok
    rw [List.append_cons]
    exact ih (h.insertOpIndex h₁) hok

/-- Operations are indexed exactly when no two that differ have one id. -/
theorem exists_foldlM_insertOpIndex_iff {l : List Mutation} (h : Indexes ms st.opIndex) :
    (∃ st', l.foldlM SourceOfTruth.insertOpIndex st = .ok st') ↔ DistinctOps (ms ++ l) := by
  constructor
  · rintro ⟨st', hok⟩
    exact (h.foldlM_insertOpIndex hok).distinctOps
  · intro hid
    obtain ⟨opIndex, hk, hok, -⟩ := SourceOfTruth.foldlM_insertOpIndex h hid
    exact ⟨_, hok⟩

/-- A mutation that is indexed is loaded exactly when it is the next one of its shard. -/
theorem applyLoadedMutation_indexed (h : st.opIndex.lookup m.opId = some m) :
    st.applyLoadedMutation m = .ok st' ↔
      m.shard < st.shardCount ∧ m.seq = st.watermark m.shard + 1 ∧
        st' = (st.advance m).pushMutation m := by
  have hkeep : (st.advance m).insertOpIndex m = .ok (st.advance m) := by
    unfold SourceOfTruth.insertOpIndex
    rw [show (st.advance m).opIndex.lookup m.opId = some m from h]
    exact if_pos rfl
  unfold applyLoadedMutation
  simp only [bind_eq_ok, applyCommittedMutation_ok]
  constructor
  · rintro ⟨st₁, ⟨hshard, hseq, rfl⟩, st₂, hins, hok⟩
    rw [hkeep] at hins
    cases hins
    cases hok
    exact ⟨hshard, hseq, rfl⟩
  · rintro ⟨hshard, hseq, rfl⟩
    exact ⟨_, ⟨hshard, hseq, rfl⟩, _, hkeep, rfl⟩

/-- Mutations that are indexed are loaded exactly when each shard goes on where the state is. -/
theorem exists_foldlM_applyLoadedMutation_iff {l : List Mutation} :
    ∀ {st : SourceOfTruth}, (∀ m ∈ l, st.opIndex.lookup m.opId = some m) →
      ((∃ st', l.foldlM applyLoadedMutation st = .ok st') ↔
        (∀ m ∈ l, m.shard < st.shardCount) ∧ NumberedFrom st.watermark l) := by
  induction l with
  | nil => exact fun _ => iff_of_true ⟨_, rfl⟩ ⟨by simp, numberedFrom_nil _⟩
  | cons m l ih =>
    intro st hl
    have hm := hl m List.mem_cons_self
    have hrest : (∃ st', l.foldlM applyLoadedMutation ((st.advance m).pushMutation m) = .ok st') ↔
        (∀ m' ∈ l, m'.shard < st.shardCount) ∧
          NumberedFrom ((st.advance m).pushMutation m).watermark l :=
      ih fun m' hm' => hl m' (List.mem_cons_of_mem _ hm')
    rw [numberedFrom_cons, List.forall_mem_cons]
    have hsplit : (∃ st', (m :: l).foldlM applyLoadedMutation st = .ok st') ↔
        (m.shard < st.shardCount ∧ m.seq = st.watermark m.shard + 1) ∧
          ∃ st', l.foldlM applyLoadedMutation ((st.advance m).pushMutation m) = .ok st' := by
      simp only [List.foldlM_cons, bind_eq_ok, applyLoadedMutation_indexed hm]
      constructor
      · rintro ⟨st', st₁, ⟨hshard, hseq, rfl⟩, hok⟩
        exact ⟨⟨hshard, hseq⟩, st', hok⟩
      · rintro ⟨⟨hshard, hseq⟩, st', hok⟩
        exact ⟨st', _, ⟨hshard, hseq, rfl⟩, hok⟩
    rw [hsplit, hrest]
    have hwm : m.shard < st.shardCount →
        ((st.advance m).pushMutation m).watermark = Function.update st.watermark m.shard m.seq :=
      fun hshard => getD_set_eq st.watermarks (hshard.trans_eq st.watermarks_length.symm) m.seq
    constructor
    · rintro ⟨⟨hshard, hseq⟩, hall, hnum⟩
      exact ⟨⟨hshard, hall⟩, hseq, hwm hshard ▸ hnum⟩
    · rintro ⟨⟨hshard, hall⟩, hseq, hnum⟩
      exact ⟨⟨hshard, hseq⟩, hall, (hwm hshard).symm ▸ hnum⟩

/-- The loaders' sort numbers the shards exactly when each holds the numbers behind `e`, each once. -/
theorem numberedFrom_sortBy_iff {e : Nat → Nat} {l : List Mutation} :
    NumberedFrom e (sortBy compareBySlot l) ↔
      ∀ s, ((shardLog l s).map Mutation.seq).Perm
        (List.range' (e s + 1) (shardLog l s).length) := by
  have hperm : ∀ s, (shardLog (sortBy compareBySlot l) s).Perm (shardLog l s) := fun s =>
    (sortBy_perm _ l).filter _
  have hlist : ∀ s, (∀ i m, (shardLog (sortBy compareBySlot l) s)[i]? = some m →
      m.seq = e s + i + 1) ↔ (shardLog (sortBy compareBySlot l) s).map Mutation.seq =
        List.range' (e s + 1) (shardLog l s).length := fun s => by
    rw [← (hperm s).length_eq]
    constructor
    · intro h
      refine List.ext_getElem? fun i => ?_
      rw [List.getElem?_map]
      cases hi : (shardLog (sortBy compareBySlot l) s)[i]? with
      | none =>
        have := List.getElem?_eq_none_iff.mp hi
        rw [List.getElem?_eq_none (by rw [List.length_range']; exact this)]
        rfl
      | some m =>
        have := (List.getElem?_eq_some_iff.mp hi).1
        rw [List.getElem?_range' this, Option.map_some, h i m hi]
        congr 1
        omega
    · intro h i m hi
      have hseq := congrArg (fun l : List Nat => l[i]?) h
      have hlt := (List.getElem?_eq_some_iff.mp hi).1
      rw [List.getElem?_map, hi, List.getElem?_range' hlt] at hseq
      have := Option.some.inj hseq
      omega
  refine forall_congr' fun s => (hlist s).trans ?_
  constructor
  · exact fun h => ((hperm s).map _).symm.trans (.of_eq h)
  · intro h
    refine @List.Perm.eq_of_pairwise _ (fun a b : Nat => a ≤ b) _ _
      (fun a b _ _ hab hba => Nat.le_antisymm hab hba) ?_ ?_ (((hperm s).map _).trans h)
    · refine List.pairwise_map.mpr ?_
      refine ((sortBy_pairwise compareBySlot l).filter _).imp_of_mem
        fun ha hb hab => seq_le_of_compareBySlot hab ?_
      rw [(mem_shardLog.mp ha).2, (mem_shardLog.mp hb).2]
    · exact List.Pairwise.imp Nat.le_of_lt List.pairwise_lt_range'

/-- A mutation that is loaded into a complete index leaves it complete. -/
theorem Indexes.applyLoadedMutation (h : Indexes ms st.opIndex) (hm : m ∈ ms)
    (hok : st.applyLoadedMutation m = .ok st') : Indexes ms st'.opIndex := by
  obtain ⟨-, -, rfl⟩ := (applyLoadedMutation_indexed ((h _ _).mpr ⟨hm, rfl⟩)).mp hok
  exact h

variable {n : Nat} {before ids tail : List Mutation} {st₀ : SourceOfTruth}

theorem fromSnapshotAndMutations_eq (sourceRegion : String) (h₀ : Holds n before st₀)
    (ord : IterOrder) :
    ∃ st₁, Holds n before st₁ ∧ st₁.opIndex = ∅ ∧ ∀ ids tail,
      fromSnapshotAndMutations n sourceRegion (st₀.snapshot ord) ids tail =
        ids.foldlM SourceOfTruth.insertOpIndex st₁ >>= fun st =>
          (sortBy compareBySlot tail).foldlM SourceOfTruth.applyLoadedMutation st := by
  have hpos : 0 < n := h₀.shardCount ▸ st₀.shardCount_pos
  have hlen : (st₀.snapshot ord).watermarks.length = n := st₀.watermarks_length.trans h₀.shardCount
  refine ⟨_, h₀.ofSnapshot ord sourceRegion hpos hlen hlen, rfl, fun ids tail => ?_⟩
  have hn : (st₀.snapshot ord).shardCount = n := h₀.shardCount
  unfold fromSnapshotAndMutations
  rw [if_neg (not_not.mpr hn), h₀.validate_snapshot ord]
  dsimp only
  rw [dif_pos ⟨hpos, hlen⟩]

/-- What a load from a snapshot gives, when the operations name the mutations of the tail. -/
theorem fromSnapshotAndMutations_loads {sourceRegion : String} {ord : IterOrder}
    (h₀ : Holds n before st₀) (hsub : tail ⊆ ids)
    (hok : fromSnapshotAndMutations n sourceRegion (st₀.snapshot ord) ids tail = .ok st) :
    Indexes ids st.opIndex ∧ ∀ s, st₀.watermark s ≤ st.watermark s := by
  obtain ⟨st₁, h₁, hempty, heq⟩ := fromSnapshotAndMutations_eq sourceRegion h₀ ord
  rw [heq, bind_eq_ok] at hok
  obtain ⟨st₂, h₂, hok⟩ := hok
  have hnil : Indexes [] st₁.opIndex := hempty ▸ indexes_nil
  have hindex : Indexes ids st₂.opIndex := hnil.foldlM_insertOpIndex h₂
  refine ⟨foldlM_invariant (p := fun st : SourceOfTruth => Indexes ids st.opIndex)
    (fun _ _ m hm h hl => h.applyLoadedMutation (hsub (mem_sortBy.mp hm)) hl) hindex hok,
    fun s => ?_⟩
  rw [foldlM_applyLoadedMutation_watermark hok, (alike_foldlM_insertOpIndex h₂).watermark,
    h₁.watermark, h₀.watermark]
  exact Nat.le_add_right _ _

/-- A load from a snapshot succeeds exactly when no two operations have one id and the tail of each
shard goes on behind the snapshot. -/
theorem exists_fromSnapshotAndMutations_iff (sourceRegion : String) (ord : IterOrder)
    (h₀ : Holds n before st₀) (hsub : tail ⊆ ids) :
    (∃ st, fromSnapshotAndMutations n sourceRegion (st₀.snapshot ord) ids tail = .ok st) ↔
      DistinctOps ids ∧ (∀ m ∈ tail, m.shard < n) ∧
        ∀ s, ((shardLog tail s).map Mutation.seq).Perm
          (List.range' (st₀.watermark s + 1) (shardLog tail s).length) := by
  obtain ⟨st₁, h₁, hempty, heq⟩ := fromSnapshotAndMutations_eq sourceRegion h₀ ord
  have hnil : Indexes [] st₁.opIndex := hempty ▸ indexes_nil
  have hfold : (∃ st₂, ids.foldlM SourceOfTruth.insertOpIndex st₁ = .ok st₂) ↔ DistinctOps ids :=
    exists_foldlM_insertOpIndex_iff hnil
  have htail : ∀ st₂, ids.foldlM SourceOfTruth.insertOpIndex st₁ = .ok st₂ →
      ((∃ st, (sortBy compareBySlot tail).foldlM SourceOfTruth.applyLoadedMutation st₂ = .ok st) ↔
        (∀ m ∈ tail, m.shard < n) ∧ ∀ s, ((shardLog tail s).map Mutation.seq).Perm
          (List.range' (st₀.watermark s + 1) (shardLog tail s).length)) := fun st₂ h₂ => by
    have hindex : Indexes ids st₂.opIndex := hnil.foldlM_insertOpIndex h₂
    have halike := alike_foldlM_insertOpIndex h₂
    have hwm : st₂.watermark = st₀.watermark := funext fun s => by
      rw [halike.watermark, h₁.watermark, h₀.watermark]
    rw [exists_foldlM_applyLoadedMutation_iff fun m hm =>
      (hindex _ _).mpr ⟨hsub (mem_sortBy.mp hm), rfl⟩, numberedFrom_sortBy_iff, hwm,
      halike.shardCount, h₁.shardCount]
    simp only [mem_sortBy]
  simp only [heq, bind_eq_ok]
  constructor
  · rintro ⟨st, st₂, h₂, hok⟩
    exact ⟨hfold.mp ⟨st₂, h₂⟩, (htail st₂ h₂).mp ⟨st, hok⟩⟩
  · rintro ⟨hid, hall⟩
    obtain ⟨st₂, h₂⟩ := hfold.mpr hid
    obtain ⟨st, hok⟩ := (htail st₂ h₂).mpr hall
    exact ⟨st, st₂, h₂, hok⟩

end Exactly

end SourceOfTruth

end Globacl
