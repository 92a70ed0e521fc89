import Globacl.Core.Rollback

/-!
# The history that a loaded source serves (`globacl-core/src/lib/source.rs`)

A reader who is above the compacted watermark gets the mutations of a shard without a hole, as long as
no restore takes the numbers of the shard past the largest one. Then they go on from `0`, behind mutations
that the source still holds.

* `Filled`: a list of mutations that carries the numbers of a shard from one to another.
* `Sound`: the invariant. `Sound.commits` and the lemmas around it: what each call makes of it.
* `Loading`: the loops of the loaders. The sort keeps them from passing the largest number.
* `HasRoom`, `serves_iff`: the main result.
-/

namespace Globacl

open Lib

/-! ## Numbers without a hole -/

/-- The mutations of the shard carry the numbers behind `c` up to `e`, in order. -/
structure Filled (ms : List Mutation) (s c e : Nat) : Prop where
  le : c ≤ e
  numbers : (shardLog ms s).map Mutation.seq = List.range' (c + 1) (e - c)

theorem filled_nil (s c : Nat) : Filled [] s c c := ⟨Nat.le_refl c, by rw [Nat.sub_self]; rfl⟩

theorem Filled.append {ms ms' : List Mutation} {s c e n : Nat} (h : Filled ms s c e)
    (h' : (shardLog ms' s).map Mutation.seq = List.range' (e + 1) n) :
    Filled (ms ++ ms') s c (e + n) := by
  have hle := h.le
  refine ⟨by omega, ?_⟩
  rw [shardLog_append, List.map_append, h.numbers, h', show e + n - c = (e - c) + n by omega,
    ← List.range'_append_1, show c + 1 + (e - c) = e + 1 by omega]

/-- The next mutation of the shard, or one of another shard. -/
theorem Filled.push {ms : List Mutation} {s c e : Nat} (h : Filled ms s c e) {m : Mutation}
    (hm : m.shard = s → m.seq = e + 1) :
    Filled (ms ++ [m]) s c (if s = m.shard then m.seq else e) := by
  by_cases hs : m.shard = s
  · rw [if_pos hs.symm, hm hs]
    exact h.append (by rw [shardLog_singleton, if_pos hs, List.map_singleton, hm hs]; rfl)
  · rw [if_neg (Ne.symm hs)]
    exact h.append (n := 0) (by rw [shardLog_singleton, if_neg hs]; rfl)

namespace LoadedSource

/-- The largest number. -/
def lastSeq : Nat := 2 ^ 64 - 1

/-- What holds of the numbers of a source: they are 64-bit numbers, and the mutations of each shard have
no hole between the compacted watermark and the watermark, unless all numbers are compacted. -/
structure Sound (st : LoadedSource) : Prop where
  watermark_lt : ∀ s, st.watermark s < 2 ^ 64
  seq_lt : ∀ m ∈ st.mutations, m.seq < 2 ^ 64
  filled : ∀ s, st.compactedWatermark s = lastSeq ∨
    Filled st.mutations s (st.compactedWatermark s) (st.watermark s)

section Calls

variable {st st' : LoadedSource} {ms : List Mutation}

theorem compactedWatermark_congr (h : st'.compactedWatermarks = st.compactedWatermarks) (s : Nat) :
    st'.compactedWatermark s = st.compactedWatermark s := by
  rw [compactedWatermark, h, compactedWatermark]

/-- Commits keep the invariant where the watermark has room for them. -/
theorem Sound.commits (h : Sound st) (hc : Commits st ms st')
    (hroom : ∀ s, 0 < (shardLog ms s).length →
      st.watermark s + (shardLog ms s).length < 2 ^ 64 ∨ st.compactedWatermark s = lastSeq) :
    Sound st' := by
  obtain ⟨-, -, hcomp, hms⟩ := hc.kept
  have hcomp := compactedWatermark_congr hcomp
  refine ⟨fun s => ?_, fun m hm => ?_, fun s => ?_⟩
  · rw [hc.watermark]
    rcases Nat.eq_zero_or_pos (shardLog ms s).length with hn | hn
    · rw [hn]
      exact h.watermark_lt s
    · rw [iterate_wrappingSucc hn]
      exact Nat.mod_lt _ (by decide)
  · rw [hms] at hm
    rcases List.mem_append.mp hm with hm | hm
    · exact h.seq_lt m hm
    · have hmem : m.seq ∈ (shardLog ms m.shard).map Mutation.seq :=
        List.mem_map_of_mem (mem_shardLog.mpr ⟨hm, rfl⟩)
      rw [hc.numbers] at hmem
      obtain ⟨i, -, hi⟩ := List.mem_map.mp hmem
      rw [← hi, Function.iterate_succ_apply']
      exact wrappingSucc_lt _
  · rw [hcomp]
    rcases h.filled s with hlast | hf
    · exact Or.inl hlast
    rcases Nat.eq_zero_or_pos (shardLog ms s).length with hn | hn
    · have hnone : (shardLog ms s).map Mutation.seq = List.range' (st.watermark s + 1) 0 := by
        rw [List.length_eq_zero_iff.mp hn]
        rfl
      rw [hms, hc.watermark, hn]
      exact Or.inr (hf.append hnone)
    · refine (hroom s hn).symm.imp_right fun hlt => ?_
      rw [hms, hc.watermark, iterate_wrappingSucc_of_lt hlt]
      exact hf.append (hc.numbers_of_lt hlt)

/-- A number above the watermark is the next one. -/
theorem Sound.record (h : Sound st) {m : Mutation} (hn : st.Next m)
    (hgt : st.watermark m.shard < m.seq) : Sound (st.record m) := by
  refine h.commits (.cons hn (.nil _)) fun s hs => Or.inl ?_
  rw [shardLog_singleton] at hs ⊢
  by_cases hm : m.shard = s
  · subst hm
    rw [hn.seq] at hgt
    have := wrappingSucc_of_gt hgt
    have := wrappingSucc_lt (st.watermark m.shard)
    rw [if_pos rfl, List.length_singleton]
    omega
  · rw [if_neg hm] at hs
    cases hs

theorem Sound.compact (h : Sound st) {watermarks : List Nat}
    (hc : st.compactMutationHistory watermarks = .ok st') : Sound st' := by
  obtain ⟨hle, compacted, -, hcomp, rfl⟩ := compactMutationHistory_ok hc
  refine ⟨h.watermark_lt, fun m hm => h.seq_lt m (List.mem_filter.mp hm).1, fun s => ?_⟩
  show compacted.getD s 0 = lastSeq ∨ Filled _ s (compacted.getD s 0) (st.watermark s)
  rw [hcomp]
  have hlt := h.watermark_lt s
  rcases h.filled s with hlast | hf
  · have := hle s
    rw [hlast]
    exact Or.inl (Nat.max_eq_left (by unfold lastSeq; omega))
  · have hfe := hf.le
    refine Or.inr ⟨Nat.max_le.mpr ⟨hfe, hle s⟩, ?_⟩
    have hfilter : ∀ l : List Mutation, (l.filter fun m => decide (m.seq > watermarks.getD s 0)).map
        Mutation.seq = (l.map Mutation.seq).filter fun i => decide (i > watermarks.getD s 0) :=
      fun l => by rw [List.filter_map]; rfl
    rw [shardLog_filter_seq st.mutations (watermarks.getD · 0), hfilter, hf.numbers,
      SourceOfTruth.filter_range']
    congr 1
    omega

end Calls

/-! ## The loaders -/

/-- The list has the order of the loaders' sort, as far as the numbers of a shard go. -/
def Ascending (l : List Mutation) : Prop := l.Pairwise fun a b => a.shard = b.shard → a.seq ≤ b.seq

theorem ascending_sortBy (l : List Mutation) :
    Ascending (sortBy SourceOfTruth.compareBySlot l) :=
  (sortBy_pairwise SourceOfTruth.compareBySlot l).imp fun hab hs => seq_le_of_compareBySlot hab hs

/-- The state of a loop of a loader that has come to the number `e` in each shard, and still has the
list `l` before it. -/
structure Loading (e : Nat → Nat) (l : List Mutation) (st : LoadedSource) : Prop where
  watermark_lt : ∀ s, st.watermark s < 2 ^ 64
  seq_lt : ∀ m ∈ st.mutations, m.seq < 2 ^ 64
  filled : ∀ s, st.compactedWatermark s = lastSeq ∨
    Filled st.mutations s (st.compactedWatermark s) (e s) ∧ e s ≤ st.watermark s ∧
      (e s = st.compactedWatermark s ∨ ∀ m ∈ l, m.shard = s → e s ≤ m.seq)

section Loading

variable {st st' : LoadedSource} {e : Nat → Nat} {m : Mutation} {l : List Mutation}

/-- Without mutations, a loop starts at the compacted watermarks. -/
theorem loading_start (hlt : ∀ s, st.watermark s < 2 ^ 64) (hms : st.mutations = [])
    (hle : ∀ s, st.compactedWatermark s ≤ st.watermark s) (l : List Mutation) :
    Loading st.compactedWatermark l st := by
  refine ⟨hlt, fun m hm => ?_, fun s => Or.inr ⟨?_, hle s, Or.inl rfl⟩⟩
  · rw [hms] at hm
    cases hm
  · rw [hms]
    exact filled_nil s _

/-- A step of a loop. The number after the largest one would stand before it in the sorted list. -/
theorem Loading.push (h : Loading e (m :: l) st) (ha : Ascending (m :: l))
    (hseq : m.seq = wrappingSucc (e m.shard))
    (hc : st'.compactedWatermarks = st.compactedWatermarks)
    (hms : st'.mutations = st.mutations ++ [m]) (hlt : ∀ s, st'.watermark s < 2 ^ 64)
    (hw : ∀ s, s ≠ m.shard → st'.watermark s = st.watermark s)
    (hle : m.seq ≤ st'.watermark m.shard) :
    Loading (Function.update e m.shard m.seq) l st' := by
  refine ⟨hlt, fun m' hm' => ?_, fun s => ?_⟩
  · rw [hms] at hm'
    rcases List.mem_append.mp hm' with hm' | hm'
    · exact h.seq_lt m' hm'
    · rw [List.mem_singleton.mp hm', hseq]
      exact wrappingSucc_lt _
  · rw [compactedWatermark_congr hc, hms]
    by_cases hlast : st.compactedWatermark s = lastSeq
    · exact Or.inl hlast
    obtain ⟨hf, hes, hnext⟩ := (h.filled s).resolve_left hlast
    by_cases hs : s = m.shard
    · subst hs
      have hbound := h.watermark_lt m.shard
      have hsucc : m.seq = e m.shard + 1 := by
        rw [hseq]
        refine wrappingSucc_of_lt ?_
        rcases hnext with heq | hahead
        · unfold lastSeq at hlast
          omega
        · have := hahead m List.mem_cons_self rfl
          rw [hseq] at this
          unfold wrappingSucc at this
          omega
      have hpush := hf.push fun _ => hsucc
      rw [if_pos rfl] at hpush
      rw [Function.update_self]
      exact Or.inr ⟨hpush, hle, Or.inr fun m' hm' hs =>
        List.rel_of_pairwise_cons ha hm' hs.symm⟩
    · have hpush := hf.push fun hms => absurd hms.symm hs
      rw [if_neg hs] at hpush
      rw [Function.update_of_ne hs, hw s hs]
      exact Or.inr ⟨hpush, hes, hnext.imp_right fun hahead m' hm' =>
        hahead m' (List.mem_cons_of_mem _ hm')⟩

theorem insertOpIndex_numbers (h : st.insertOpIndex m = .ok st') :
    st'.watermarks = st.watermarks ∧ st'.compactedWatermarks = st.compactedWatermarks ∧
      st'.mutations = st.mutations := by
  rcases insertOpIndex_ok h with rfl | rfl
  · exact ⟨rfl, rfl, rfl⟩
  · exact ⟨rfl, rfl, rfl⟩

theorem foldlM_insertOpIndex_numbers (h : l.foldlM insertOpIndex st = .ok st') :
    st'.watermarks = st.watermarks ∧ st'.compactedWatermarks = st.compactedWatermarks ∧
      st'.mutations = st.mutations :=
  foldlM_invariant (p := fun st₁ => st₁.watermarks = st.watermarks ∧
      st₁.compactedWatermarks = st.compactedWatermarks ∧ st₁.mutations = st.mutations)
    (fun _ _ _ _ hs hi => by
      obtain ⟨hw, hc, hms⟩ := insertOpIndex_numbers hi
      rwa [hw, hc, hms]) ⟨rfl, rfl, rfl⟩ h

theorem applyLoadedMutation_ok (h : st.applyLoadedMutation m = .ok st') :
    m.seq = wrappingSucc (st.watermark m.shard) ∧
      st'.compactedWatermarks = st.compactedWatermarks ∧ st'.mutations = st.mutations ++ [m] ∧
      ∀ s, st'.watermark s = if s = m.shard then m.seq else st.watermark s := by
  simp only [applyLoadedMutation, bind_eq_ok] at h
  obtain ⟨st₁, h₁, st₂, h₂, h⟩ := h
  cases h
  obtain ⟨-, hslot, hseq, rfl⟩ := applyCommittedMutation_iff.mp h₁
  obtain ⟨hw, hc, hms⟩ := insertOpIndex_numbers h₂
  refine ⟨hseq, hc, congrArg (· ++ [m]) hms, fun s => ?_⟩
  rw [← advance_watermark hslot, LoadedSource.watermark, LoadedSource.watermark]
  exact congrArg (List.getD · s 0) hw

theorem Loading.applyLoadedMutation (h : Loading st.watermark (m :: l) st)
    (ha : Ascending (m :: l)) (hm : st.applyLoadedMutation m = .ok st') :
    Loading st'.watermark l st' := by
  obtain ⟨hseq, hc, hms, hw⟩ := applyLoadedMutation_ok hm
  have hupdate : st'.watermark = Function.update st.watermark m.shard m.seq := by
    funext s
    rw [hw, Function.update_apply]
  rw [hupdate]
  refine h.push ha hseq hc hms (fun s => ?_) (fun s hs => (hw s).trans (if_neg hs)) ?_
  · rw [hw]
    split
    · rw [hseq]
      exact wrappingSucc_lt _
    · exact h.watermark_lt s
  · rw [hw, if_pos rfl]

theorem Loading.foldlM_applyLoadedMutation (h : Loading st.watermark l st) (ha : Ascending l)
    (hl : l.foldlM LoadedSource.applyLoadedMutation st = .ok st') : Loading st'.watermark [] st' := by
  induction l generalizing st with
  | nil =>
    cases hl
    exact h
  | cons m l ih =>
    rw [List.foldlM_cons, bind_eq_ok] at hl
    obtain ⟨st₁, h₁, hl⟩ := hl
    exact ih (h.applyLoadedMutation ha h₁) (List.Pairwise.of_cons ha) hl

/-- A loop that came to the watermarks. -/
theorem Loading.sound (h : Loading e l st)
    (he : ∀ s, e s ≤ st.watermark s → e s = st.watermark s) : Sound st := by
  refine ⟨h.watermark_lt, h.seq_lt, fun s => (h.filled s).imp_right fun ⟨hf, hle, _⟩ => ?_⟩
  rwa [he s hle] at hf

/-- A step of the loop over the retained mutations. -/
theorem Loading.retainMutation {n : Nat} {e e' : List Nat}
    (h : Loading (e.getD · 0) (m :: l) st) (ha : Ascending (m :: l))
    (hm : LoadedSource.retainMutation n (st, e) m = .ok (st', e')) :
    Loading (e'.getD · 0) l st' ∧ e'.length = e.length := by
  obtain ⟨hslot, hseq, rfl, hcase⟩ := retainMutation_ok hm
  refine ⟨?_, List.length_set⟩
  rw [SourceOfTruth.getD_set_eq e hslot m.seq]
  rcases hcase with ⟨-, hle, st₁, hi, rfl⟩ | hl
  · -- the snapshot has the mutation, which is kept for readers
    obtain ⟨hwat, hc, hms⟩ := insertOpIndex_numbers hi
    have hwat : ∀ s, (st₁.pushMutation m).watermark s = st.watermark s :=
      fun s => congrArg (List.getD · s 0) hwat
    exact h.push ha hseq hc (congrArg (· ++ [m]) hms)
      (fun s => by rw [hwat]; exact h.watermark_lt s) (fun s _ => hwat s) (by rw [hwat]; exact hle)
  · obtain ⟨hnext, hc, hms, hwat⟩ := applyLoadedMutation_ok hl
    refine h.push ha hseq hc hms (fun s => ?_) (fun s hs => (hwat s).trans (if_neg hs)) ?_
    · rw [hwat]
      split
      · rw [hnext]
        exact wrappingSucc_lt _
      · exact h.watermark_lt s
    · rw [hwat, if_pos rfl]

theorem Loading.foldlM_retainMutation {n : Nat} {e e' : List Nat}
    (h : Loading (e.getD · 0) l st) (ha : Ascending l)
    (hl : l.foldlM (LoadedSource.retainMutation n) (st, e) = .ok (st', e')) :
    Loading (e'.getD · 0) [] st' ∧ e'.length = e.length := by
  induction l generalizing st e with
  | nil =>
    cases hl
    exact ⟨h, rfl⟩
  | cons m l ih =>
    rw [List.foldlM_cons, bind_eq_ok] at hl
    obtain ⟨⟨st₁, e₁⟩, h₁, hl⟩ := hl
    obtain ⟨h, hlen⟩ := h.retainMutation ha h₁
    obtain ⟨h, hlen'⟩ := ih h (List.Pairwise.of_cons ha) hl
    exact ⟨h, hlen'.trans hlen⟩

end Loading

theorem getD_lt {l : List Nat} {k : Nat} (hk : 0 < k) (h : ∀ w ∈ l, w < k) (s : Nat) :
    l.getD s 0 < k := by
  rw [List.getD_eq_getElem?_getD]
  cases hs : l[s]? with
  | none => exact hk
  | some w => exact h w (List.mem_of_getElem? hs)

/-- Whatever a constructor accepts, the numbers of the source are sound. -/
theorem Constructed.sound {n : Nat} {st : LoadedSource} (h : Constructed n st) : Sound st := by
  cases h with
  | new sourceRegion =>
    have hlt : ∀ s, (LoadedSource.new n sourceRegion).watermark s < 2 ^ 64 := getD_lt (by decide)
      fun w hw => by rw [List.eq_of_mem_replicate hw]; decide
    exact (loading_start hlt rfl (fun s => Nat.le_refl _) []).sound fun s _ => rfl
  | @fromMutations sourceRegion mutations _ h =>
    have hlt : ∀ s, (LoadedSource.new n sourceRegion).watermark s < 2 ^ 64 := getD_lt (by decide)
      fun w hw => by rw [List.eq_of_mem_replicate hw]; decide
    have hstart : Loading (LoadedSource.new n sourceRegion).watermark
        (sortBy SourceOfTruth.compareBySlot mutations) (LoadedSource.new n sourceRegion) :=
      loading_start hlt rfl (fun s => Nat.le_refl _) _
    exact (hstart.foldlM_applyLoadedMutation (ascending_sortBy _) h).sound fun s _ => rfl
  | @fromSnapshotAndMutations sourceRegion snapshot ids mutations _ hw h =>
    unfold LoadedSource.fromSnapshotAndMutations at h
    split at h
    · cases h
    simp only [bind_eq_ok] at h
    obtain ⟨⟨⟩, -, st₁, h₁, h⟩ := h
    obtain ⟨hw₁, hc₁, hms₁⟩ := foldlM_insertOpIndex_numbers h₁
    have heq : st₁.compactedWatermark = st₁.watermark := by
      funext s
      rw [compactedWatermark, hc₁, LoadedSource.watermark, hw₁]
      rfl
    have hlt : ∀ s, st₁.watermark s < 2 ^ 64 := fun s => by
      rw [LoadedSource.watermark, hw₁]
      exact getD_lt (by decide) hw s
    have hstart := loading_start hlt hms₁ (fun s => by rw [heq])
      (sortBy SourceOfTruth.compareBySlot mutations)
    rw [heq] at hstart
    exact (hstart.foldlM_applyLoadedMutation (ascending_sortBy _) h).sound fun s _ => rfl
  | @fromSnapshotAndRetainedHistory sourceRegion snapshot ids retained compacted _ hw h =>
    have hsized := (Built.retainedHistory h).sized
    unfold LoadedSource.fromSnapshotAndRetainedHistory at h
    split at h
    · cases h
    simp only [bind_eq_ok] at h
    obtain ⟨-, -, h⟩ := h
    split at h
    · cases h
    rename_i hlen
    simp only [bind_eq_ok] at h
    obtain ⟨⟨⟩, hcheck, st₁, h₁, ⟨st₂, e⟩, h₂, ⟨⟩, hreplayed, h⟩ := h
    cases h
    obtain ⟨hw₁, hc₁, hms₁⟩ := foldlM_insertOpIndex_numbers h₁
    have hcomp : ∀ s, st₁.compactedWatermark s = compacted.getD s 0 := fun s => by
      rw [compactedWatermark, hc₁]
      rfl
    have hwat : ∀ s, st₁.watermark s = snapshot.watermarks.getD s 0 := fun s => by
      rw [LoadedSource.watermark, hw₁]
      rfl
    have hstart := loading_start (fun s => by rw [hwat]; exact getD_lt (by decide) hw s) hms₁
      (fun s => ?_) (sortBy SourceOfTruth.compareBySlot retained)
    · rw [show st₁.compactedWatermark = fun s => compacted.getD s 0 from funext hcomp] at hstart
      obtain ⟨hend, he⟩ := hstart.foldlM_retainMutation (ascending_sortBy _) h₂
      refine hend.sound fun s hle => Nat.le_antisymm hle ?_
      by_cases hs : s < e.length
      · have := (checkWatermarks_ok hreplayed hs).2
        rw [decide_eq_false_iff_not] at this
        exact Nat.le_of_not_lt this
      · rw [LoadedSource.watermark, List.getD_eq_getElem?_getD, List.getElem?_eq_none
          (by rw [hsized.watermarks]; omega)]
        exact Nat.zero_le _
    · rw [hcomp, hwat]
      by_cases hs : s < compacted.length
      · have := (checkWatermarks_ok hcheck hs).2
        rw [decide_eq_false_iff_not] at this
        exact Nat.le_of_not_lt this
      · rw [List.getD_eq_getElem?_getD, List.getElem?_eq_none (Nat.le_of_not_lt hs)]
        exact Nat.zero_le _

/-! ## Runs of calls -/

theorem Constructed.sized {n : Nat} (hn : 1 ≤ n) {st : LoadedSource} (h : Constructed n st) :
    Sized n st := by
  have hnew : ∀ sourceRegion, Sized n (LoadedSource.new n sourceRegion) := fun sourceRegion =>
    ⟨rfl, List.length_replicate.trans (Nat.max_eq_left hn),
      List.length_replicate.trans (Nat.max_eq_left hn)⟩
  cases h with
  | new sourceRegion => exact hnew sourceRegion
  | fromMutations h =>
    exact foldlM_invariant (fun _ _ _ _ hs hm => hs.applyLoadedMutation hm) (hnew _) h
  | fromSnapshotAndMutations _ h => exact (Built.snapshotAndMutations h).sized
  | fromSnapshotAndRetainedHistory _ h => exact (Built.retainedHistory h).sized

theorem Sized.commits {n : Nat} {st st' : LoadedSource} {ms : List Mutation} (h : Sized n st)
    (hc : Commits st ms st') : Sized n st' := by
  obtain ⟨hcount, hlen, hcomp, -⟩ := hc.kept
  exact ⟨hcount.trans h.shardCount, hlen.trans h.watermarks, by rw [hcomp]; exact h.compacted⟩

/-- What a run of calls keeps. -/
structure Steady (n : Nat) (st : LoadedSource) : Prop where
  keyed : Keyed st
  sized : Sized n st
  sound : Sound st

/-- A call has room for its numbers: a restore that is accepted takes no shard that it changes past the
largest number, unless all numbers of the shard are compacted. -/
def HasRoom (st : LoadedSource) : Call → Prop
  | .restoreSnapshot _ _ snapshot _ =>
    snapshot.shardCount = st.shardCount → snapshot.validate = .ok () →
      ∀ s, 0 < st.changes snapshot s →
        st.watermark s + st.changes snapshot s < 2 ^ 64 ∨ st.compactedWatermark s = lastSeq
  | _ => True

theorem Steady.call {n : Nat} {st : LoadedSource} (h : Steady n st) {c : Call}
    (hroom : st.HasRoom c) : Steady n (st.call c) := by
  refine ⟨h.keyed.call c, ?_, ?_⟩
  all_goals
    rcases st.call_cases c with hst | ⟨m, hn, hgt, hst⟩ |
      ⟨clock, ord, snapshot, opPrefix, r, rfl, hr, hst⟩ | ⟨watermarks, hst⟩ | ⟨epoch, hst⟩
  · rw [hst]
    exact h.sized
  · rw [hst]
    exact h.sized.commits (.cons hn (.nil _))
  · rw [hst]
    exact h.sized.commits (restoreSnapshot_commits h.keyed hr).1
  · obtain ⟨-, compacted, hlen, -, hst⟩ := compactMutationHistory_ok hst
    rw [hst]
    exact ⟨h.sized.shardCount, h.sized.watermarks, hlen.trans h.sized.compacted⟩
  · rw [hst]
    exact ⟨h.sized.shardCount, h.sized.watermarks, h.sized.compacted⟩
  · rw [hst]
    exact h.sound
  · rw [hst]
    exact h.sound.record hn hgt
  · rw [hst]
    obtain ⟨hc, hlen⟩ := restoreSnapshot_commits h.keyed hr
    obtain ⟨hcount, hvalid, -⟩ := (restoreSnapshot_iff h.keyed).mp hr
    refine h.sound.commits hc fun s hs => ?_
    rw [hlen] at hs ⊢
    exact hroom hcount hvalid s hs
  · exact h.sound.compact hst
  · rw [hst]
    exact ⟨h.sound.watermark_lt, h.sound.seq_lt, h.sound.filled⟩

/-- What the source serves to a reader who has the mutations of a shard up to a number: if they are not
compacted away, one mutation for each number from there to the watermark, in order. -/
def Serves (st : LoadedSource) : Prop :=
  ∀ shardId < st.shardCount, ∀ fromSeq, st.mutationHistoryCompacted shardId fromSeq = none →
    ∃ w, st.watermarks[shardId]? = some w ∧
      (st.mutationsForShard shardId fromSeq).map Mutation.seq =
        List.range' (fromSeq + 1) (w - fromSeq) ∧
      ∀ m ∈ st.mutationsForShard shardId fromSeq, m.shard = shardId

theorem mutationsForShard_eq (st : LoadedSource) (shardId fromSeq : Nat) :
    st.mutationsForShard shardId fromSeq =
      (shardLog st.mutations shardId).filter fun m => decide (m.seq > fromSeq) := by
  rw [mutationsForShard, shardLog, List.filter_filter]
  exact List.filter_congr fun m _ => Bool.and_comm _ _

theorem map_seq_mutationsForShard (st : LoadedSource) (shardId fromSeq : Nat) :
    (st.mutationsForShard shardId fromSeq).map Mutation.seq =
      ((shardLog st.mutations shardId).map Mutation.seq).filter fun i => decide (i > fromSeq) := by
  rw [mutationsForShard_eq, List.filter_map]
  rfl

theorem mutationHistoryCompacted_eq_none {st : LoadedSource} {s fromSeq : Nat}
    (hs : s < st.compactedWatermarks.length) :
    st.mutationHistoryCompacted s fromSeq = none ↔ st.compactedWatermark s ≤ fromSeq := by
  rw [mutationHistoryCompacted, compactedWatermark, List.getD_eq_getElem?_getD,
    List.getElem?_eq_getElem hs]
  simp

theorem Steady.serves {n : Nat} (hn : 1 ≤ n) {st : LoadedSource} (h : Steady n st) :
    st.Serves := by
  intro s hs fromSeq hcomp
  rw [h.sized.shardCount, Nat.max_eq_left hn] at hs
  have hslot : s < st.watermarks.length := by rwa [h.sized.watermarks]
  rw [mutationHistoryCompacted_eq_none (by rwa [h.sized.compacted])] at hcomp
  refine ⟨st.watermark s, ?_, ?_, fun m hm => ?_⟩
  · rw [LoadedSource.watermark, List.getD_eq_getElem?_getD, List.getElem?_eq_getElem hslot]
    rfl
  · have hlt := h.sound.watermark_lt s
    rw [map_seq_mutationsForShard]
    rcases h.sound.filled s with hlast | hf
    · -- no number is above the largest one
      unfold lastSeq at hlast
      rw [show st.watermark s - fromSeq = 0 by omega, List.range'_zero, List.filter_eq_nil_iff]
      intro i hi
      obtain ⟨m, hm, rfl⟩ := List.mem_map.mp hi
      have := h.sound.seq_lt m (mem_shardLog.mp hm).1
      rw [decide_eq_true_eq]
      omega
    · have := hf.le
      rw [hf.numbers, SourceOfTruth.filter_range', Nat.max_eq_right hcomp]
      congr 1
      omega
  · rw [mutationsForShard_eq] at hm
    exact (mem_shardLog.mp (List.mem_filter.mp hm).1).2

/-- Numbers that go on past the largest one hold it, and the number that they end at is not the number of
those above the one before it. -/
theorem not_range_of_wraps {c k : Nat} (hc : c < lastSeq) (hk : 2 ^ 64 ≤ c + k) :
    ((List.range k).map fun i => (c + 1 + i) % 2 ^ 64).filter (fun i => decide (i > lastSeq - 1)) ≠
      List.range' (lastSeq - 1 + 1) ((c + k) % 2 ^ 64 - (lastSeq - 1)) := by
  intro h
  have hlen := congrArg List.length h
  rw [List.filter_map, List.length_map, List.length_range'] at hlen
  unfold lastSeq at hc hlen
  -- the places of the largest number
  have hplace : ∀ i, i < k → (c + 1 + i) % 2 ^ 64 = 2 ^ 64 - 1 →
      i ∈ (List.range k).filter
        ((fun i => decide (i > 2 ^ 64 - 1 - 1)) ∘ fun i => (c + 1 + i) % 2 ^ 64) := fun i hi heq => by
    rw [List.mem_filter, List.mem_range, Function.comp, decide_eq_true_eq, heq]
    exact ⟨hi, by decide⟩
  have hfirst := hplace (2 ^ 64 - 2 - c) (by omega) (by omega)
  have hpos := List.length_pos_of_mem hfirst
  have hend : (c + k) % 2 ^ 64 = 2 ^ 64 - 1 := by
    have := Nat.mod_lt (c + k) (by decide : 0 < 2 ^ 64)
    omega
  have hsecond := hplace (2 ^ 64 - 2 - c + 2 ^ 64) (by omega) (by omega)
  have hnd : [2 ^ 64 - 2 - c, 2 ^ 64 - 2 - c + 2 ^ 64].Nodup := by
    rw [List.nodup_cons, List.mem_singleton]
    exact ⟨by omega, List.nodup_singleton _⟩
  have htwo := (List.subperm_of_subset hnd (List.cons_subset.mpr ⟨hfirst,
    List.cons_subset.mpr ⟨hsecond, List.nil_subset _⟩⟩)).length_le
  rw [hlen, hend] at htwo
  simp at htwo

/-- Where the history is served after a call, the call had room. -/
theorem Steady.hasRoom {n : Nat} (hn : 1 ≤ n) {st : LoadedSource} (h : Steady n st) {c : Call}
    (hs : (st.call c).Serves) : st.HasRoom c := by
  cases c with
  | restoreSnapshot clock ord snapshot opPrefix =>
    intro hcount hvalid s hpos
    by_contra hno
    rw [not_or, Nat.not_lt] at hno
    obtain ⟨hwraps, hlast⟩ := hno
    have hshard : ∀ t, 0 < st.changes snapshot t → t < n := fun t ht => by
      by_contra hle
      rw [changes_eq_zero h.keyed.shardCount_pos
        (by rw [h.sized.shardCount, Nat.max_eq_left hn]; omega)] at ht
      exact Nat.lt_irrefl 0 ht
    obtain ⟨r, hr⟩ := (@exists_restoreSnapshot_iff st snapshot clock ord opPrefix h.keyed hcount
      hvalid).mpr fun t ht => by rw [h.sized.watermarks]; exact hshard t ht
    have hcall : st.call (.restoreSnapshot clock ord snapshot opPrefix) = r.st := by
      rw [LoadedSource.call, hr]
      rfl
    rw [hcall] at hs
    obtain ⟨hc, hlen⟩ := restoreSnapshot_commits h.keyed hr
    obtain ⟨-, -, hcomp, hms⟩ := hc.kept
    have hsized := h.sized.commits hc
    have hf := (h.sound.filled s).resolve_left hlast
    have hle := hf.le
    have hlt := h.sound.watermark_lt s
    have hclt : st.compactedWatermark s < lastSeq := by unfold lastSeq at hlast ⊢; omega
    obtain ⟨w, hw, hseqs, -⟩ := hs s (by rw [hsized.shardCount, Nat.max_eq_left hn]; exact hshard s hpos)
      (lastSeq - 1) ((mutationHistoryCompacted_eq_none
        (by rw [hsized.compacted]; exact hshard s hpos)).mpr
          (by rw [compactedWatermark_congr hcomp]; omega))
    have hwat : w = (st.watermark s + st.changes snapshot s) % 2 ^ 64 := by
      have hget : r.st.watermark s = w := by
        rw [LoadedSource.watermark, List.getD_eq_getElem?_getD, hw, Option.getD_some]
      rw [← hget, hc.watermark, hlen, iterate_wrappingSucc hpos]
    -- the whole log, from the compacted watermark on
    have hnumbers : (shardLog r.st.mutations s).map Mutation.seq =
        (List.range (st.watermark s - st.compactedWatermark s + st.changes snapshot s)).map
          fun i => (st.compactedWatermark s + 1 + i) % 2 ^ 64 := by
      rw [hms, shardLog_append, List.map_append, hf.numbers, hc.numbers, hlen, List.range_add,
        List.map_append, List.range'_eq_map_range, List.map_map]
      refine congrArg₂ (· ++ ·) (List.map_congr_left fun i hi => ?_)
        (List.map_congr_left fun i _ => ?_)
      · have := List.mem_range.mp hi
        exact (Nat.mod_eq_of_lt (by omega)).symm
      · rw [iterate_wrappingSucc (Nat.succ_pos i), Function.comp]
        congr 1
        omega
    rw [map_seq_mutationsForShard, hnumbers, hwat, show st.watermark s + st.changes snapshot s =
      st.compactedWatermark s + (st.watermark s - st.compactedWatermark s + st.changes snapshot s) by
        omega] at hseqs
    exact not_range_of_wraps hclt (by omega) hseqs
  | _ => trivial

/-- A source serves its history without a hole all along a run of calls exactly when each restore of the
run has room for its numbers. -/
theorem serves_iff {n : Nat} (hn : 1 ≤ n) {st₀ : LoadedSource} (h₀ : Constructed n st₀)
    (calls : List Call) :
    (∀ k, ((calls.take k).foldl call st₀).Serves) ↔ Along call HasRoom st₀ calls := by
  have hsteady : Steady n st₀ := ⟨h₀.keyed, h₀.sized hn, h₀.sound⟩
  clear h₀
  induction calls generalizing st₀ with
  | nil =>
    refine iff_of_true (fun k => ?_) trivial
    rw [List.take_nil]
    exact hsteady.serves hn
  | cons c calls ih =>
    constructor
    · intro h
      have hroom := hsteady.hasRoom hn (h 1)
      exact ⟨hroom, (ih (hsteady.call hroom)).mp fun k => h (k + 1)⟩
    · rintro ⟨hroom, hrest⟩ k
      cases k with
      | zero => exact hsteady.serves hn
      | succ k => exact (ih (hsteady.call hroom)).mpr hrest k

/-! A source that committed two denials in its only shard, compacted the first of them and was rolled back
to an older snapshot. -/

namespace TwoDenials

def committed : List Call :=
  [.commit 100 (SourceOfTruth.denial "op-1"), .commit 100 (SourceOfTruth.denial "op-2"),
    .compactMutationHistory [1]]

def calls : List Call :=
  committed ++ [.restoreSnapshot (fun _ => 200) .given Older.snapshot "rollback"]

theorem hasRoom : (committed.foldl call (new 1 "eu")).HasRoom
    (.restoreSnapshot (fun _ => 200) .given Older.snapshot "rollback") := by
  have hcount : (committed.foldl call (new 1 "eu")).shardCount = 1 := by decide +kernel
  intro _ _ s hs
  have h0 : s = 0 := by
    by_contra hne
    have hpos : 0 < (committed.foldl call (new 1 "eu")).shardCount := hcount.symm ▸ Nat.one_pos
    rw [changes_eq_zero hpos (hcount.trans_le (Nat.pos_of_ne_zero hne))] at hs
    exact Nat.lt_irrefl 0 hs
  subst h0
  have hchanges : (committed.foldl call (new 1 "eu")).changes Older.snapshot 0 = 4 := by
    decide +kernel
  have hwat : (committed.foldl call (new 1 "eu")).watermark 0 = 2 := by decide +kernel
  rw [hchanges, hwat]
  exact Or.inl (by omega)

end TwoDenials

open TwoDenials in
theorem serves_iff_twoDenials : (calls.foldl call (new 1 "eu")).watermark 0 = 6 ∧
    ∀ k, ((calls.take k).foldl call (new 1 "eu")).Serves :=
  ⟨by decide +kernel, (serves_iff (Nat.le_refl 1) (.new "eu") calls).mpr
    (along_append.mpr ⟨⟨trivial, trivial, trivial, trivial⟩, hasRoom, trivial⟩)⟩

/-! A source at the largest number that still holds the mutation with it. -/

namespace LastNumber

def last : Mutation :=
  { opId := "op-1", commitId := ⟨0, 2 ^ 64 - 1, 1, "eu"⟩, entry := Older.denied "ann", rule := none,
    deliveryPriority := .p0, committedAtUnix := 0 }

def retained : LoadedSource :=
  ((ofSnapshot 1 "eu" snapshot [2 ^ 64 - 2]).indexOp last).pushMutation last

theorem constructed : Constructed 1 retained := by
  have h : fromSnapshotAndRetainedHistory 1 "eu" snapshot [] [last] [2 ^ 64 - 2] = .ok retained := rfl
  exact .fromSnapshotAndRetainedHistory (by decide) h

def calls : List Call := [.restoreSnapshot (fun _ => 0) .given empty "rollback"]

def rolledBack : LoadedSource := calls.foldl call retained

end LastNumber

open LastNumber in
/-- After the restore the watermark is `0`, and a reader before the largest number gets the mutation with
it. -/
theorem not_serves :
    ¬∀ (n : Nat) (st₀ : LoadedSource), 1 ≤ n → Constructed n st₀ → ∀ calls : List Call,
      (calls.foldl call st₀).Serves := by
  intro h
  have hserves : rolledBack.Serves := h 1 retained (Nat.le_refl 1) constructed calls
  have hcount : 0 < rolledBack.shardCount := by decide +kernel
  have hcomp : rolledBack.mutationHistoryCompacted 0 (lastSeq - 1) = none := by decide +kernel
  have hzero : rolledBack.watermarks[0]? = some 0 := by decide +kernel
  have hlast : (rolledBack.mutationsForShard 0 (lastSeq - 1)).map Mutation.seq = [lastSeq] := by
    decide +kernel
  obtain ⟨w, hw, hseqs, -⟩ := hserves 0 hcount (lastSeq - 1) hcomp
  rw [hzero] at hw
  cases hw
  rw [hlast, Nat.zero_sub] at hseqs
  cases hseqs

end LoadedSource

end Globacl
