import Globacl.Core.Hash
import Globacl.Lib.Writes

/-!
# What a history of mutations means

The abstract account of a source of truth: the list of all mutations that it committed. The
entries, the rules and the watermarks are functions of this list, and what one key holds depends
only on the mutations of the key's shard.

* `ValidHistory`: mutations are routed to the shard of what they write, and each shard is numbered
  from `1` without gaps.
* `entryAfter_shardLog`, `ruleAfter_shardLog`: a key depends only on the log of its shard.
* `ValidHistory.filter_drop`: to leave out the mutations up to a number is to drop a prefix.
* `Behind`: a history that is a prefix of another in each shard.
-/

namespace Globacl

open Lib

/-- What a mutation does to the entries: `none` for a mutation of a rule, and a write of nothing
for a deletion. -/
def Mutation.entryWrite (m : Mutation) : Option (AclKey × Option DenyEntry) :=
  if m.rule.isSome then none
  else some (m.entry.aclKey, if m.entry.action = .delete then none else some m.entry)

/-- What a mutation does to the rules. -/
def Mutation.ruleWrite (m : Mutation) : Option (RuleKey × Option RuleEntry) :=
  m.rule.map fun rule => (rule.ruleKey, if rule.action = .delete then none else some rule)

/-- The hash that routes a mutation to its shard. -/
def Mutation.targetHash (m : Mutation) : UInt64 :=
  match m.rule with
  | some rule => rule.ruleHash
  | none => m.entry.keyHash

/-- A mutation is routed to the shard of its hash, and what it stores names this shard. -/
structure Mutation.Routed (shardCount : Nat) (m : Mutation) : Prop where
  shard : m.shard = shardForHash m.targetHash shardCount
  entry : m.entry.shardId = m.shard
  rule : ∀ rule, m.rule = some rule → rule.shardId = m.shard

/-- The mutations of one shard. -/
def shardLog (history : List Mutation) (shardId : Nat) : List Mutation :=
  history.filter fun m => m.shard = shardId

/-- The entry under a key after a history. -/
def entryAfter (history : List Mutation) (key : AclKey) : Option DenyEntry :=
  valueAt Mutation.entryWrite history key

/-- The rule under a key after a history. -/
def ruleAfter (history : List Mutation) (key : RuleKey) : Option RuleEntry :=
  valueAt Mutation.ruleWrite history key

/-- Mutations are routed by hash, and each shard is numbered from `1` without gaps. -/
structure ValidHistory (shardCount : Nat) (history : List Mutation) : Prop where
  routed : ∀ m ∈ history, m.Routed shardCount
  numbered : ∀ s i m, (shardLog history s)[i]? = some m → m.seq = i + 1

@[simp] theorem shardLog_nil (s : Nat) : shardLog [] s = [] := rfl

@[simp] theorem shardLog_append (h h' : List Mutation) (s : Nat) :
    shardLog (h ++ h') s = shardLog h s ++ shardLog h' s := List.filter_append ..

@[simp] theorem shardLog_singleton (m : Mutation) (s : Nat) :
    shardLog [m] s = if m.shard = s then [m] else [] := by
  simp [shardLog, List.filter_singleton]

theorem mem_shardLog {history : List Mutation} {s : Nat} {m : Mutation} :
    m ∈ shardLog history s ↔ m ∈ history ∧ m.shard = s := by
  simp [shardLog]

theorem Mutation.targetHash_of_entryWrite {m : Mutation} {key : AclKey} {v : Option DenyEntry}
    (h : m.entryWrite = some (key, v)) : m.targetHash = key.keyHash := by
  unfold Mutation.entryWrite at h
  split at h
  · cases h
  · rename_i hr
    cases h
    cases hrule : m.rule with
    | some rule => simp [hrule] at hr
    | none => simp [Mutation.targetHash, hrule, DenyEntry.aclKey]

theorem Mutation.targetHash_of_ruleWrite {m : Mutation} {key : RuleKey} {v : Option RuleEntry}
    (h : m.ruleWrite = some (key, v)) : m.targetHash = key.ruleHash := by
  unfold Mutation.ruleWrite at h
  rw [Option.map_eq_some_iff] at h
  obtain ⟨rule, hrule, heq⟩ := h
  cases heq
  simp [Mutation.targetHash, hrule, RuleEntry.ruleKey]

theorem shardLog_concat (history : List Mutation) (m : Mutation) (s : Nat) :
    shardLog (history ++ [m]) s = shardLog history s ++ if m.shard = s then [m] else [] := by
  rw [shardLog_append, shardLog_singleton]

/-- A history grows by mutations that are routed and next in their shard. -/
theorem validHistory_concat {n : Nat} {history : List Mutation} {m : Mutation} :
    ValidHistory n (history ++ [m]) ↔ ValidHistory n history ∧ m.Routed n ∧ m.seq = (shardLog history m.shard).length + 1 := by
  constructor
  · rintro ⟨hr, hn⟩
    refine ⟨⟨fun m' hm' => hr m' (List.mem_append_left _ hm'), fun s i m' hi => hn s i m' ?_⟩,
      hr m (List.mem_append_right _ (List.mem_singleton_self m)), hn m.shard _ m ?_⟩
    · rw [shardLog_concat, List.getElem?_append_left (List.getElem?_eq_some_iff.mp hi).1, hi]
    · rw [shardLog_concat, if_pos rfl, List.getElem?_concat_length]
  · rintro ⟨⟨hr, hn⟩, hrm, hseq⟩
    refine ⟨fun m' hm' => ?_, fun s i m' hi => ?_⟩
    · rcases List.mem_append.mp hm' with hm' | hm'
      · exact hr m' hm'
      · rw [List.mem_singleton.mp hm']; exact hrm
    · rw [shardLog_concat] at hi
      split at hi
      · subst_vars
        rw [List.getElem?_append] at hi
        split at hi
        · exact hn _ i m' hi
        · rw [List.getElem?_singleton] at hi
          split at hi
          · cases hi
            omega
          · cases hi
      · rw [List.append_nil] at hi
        exact hn s i m' hi

/-- A prefix of a history is a history. -/
theorem ValidHistory.of_append {n : Nat} {history l : List Mutation}
    (h : ValidHistory n (history ++ l)) : ValidHistory n history where
  routed m hm := h.routed m (List.mem_append_left _ hm)
  numbered s i m hi := h.numbered s i m (by
    rw [shardLog_append, List.getElem?_append_left (List.getElem?_eq_some_iff.mp hi).1, hi])

/-- Two histories with the same shard logs have the same mutations. -/
theorem mem_of_shardLog_eq {history history' : List Mutation}
    (h : ∀ s, shardLog history' s = shardLog history s) {m : Mutation} :
    m ∈ history' ↔ m ∈ history := by
  have hmem : ∀ l, m ∈ l ↔ m ∈ shardLog l m.shard := fun l => by simp [mem_shardLog]
  rw [hmem, hmem history, h]

/-- Only the order in each shard matters. -/
theorem ValidHistory.congr {n : Nat} {history history' : List Mutation}
    (hv : ValidHistory n history) (h : ∀ s, shardLog history' s = shardLog history s) :
    ValidHistory n history' where
  routed m hm := hv.routed m ((mem_of_shardLog_eq h).mp hm)
  numbered s i m hi := hv.numbered s i m (by rw [← h]; exact hi)

/-- Two mutations of a history at one slot are the same. -/
theorem ValidHistory.eq_of_slot {n : Nat} {history : List Mutation} (h : ValidHistory n history)
    {m m' : Mutation} (hm : m ∈ history) (hm' : m' ∈ history) (hs : m.shard = m'.shard)
    (hq : m.seq = m'.seq) : m = m' := by
  obtain ⟨i, hi⟩ := List.mem_iff_getElem?.mp (mem_shardLog.mpr ⟨hm, rfl⟩)
  obtain ⟨j, hj⟩ := List.mem_iff_getElem?.mp (mem_shardLog.mpr ⟨hm', hs.symm⟩)
  have h1 := h.numbered _ _ _ hi
  have h2 := h.numbered _ _ _ hj
  have hij : i = j := by omega
  subst hij
  exact Option.some.inj (hi.symm.trans hj)

/-- The mutation of a history at a slot is found by its number. -/
theorem ValidHistory.getElem?_seq {n : Nat} {history : List Mutation} (h : ValidHistory n history)
    {m : Mutation} (hm : m ∈ history) : (shardLog history m.shard)[m.seq - 1]? = some m := by
  obtain ⟨i, hi⟩ := List.mem_iff_getElem?.mp (mem_shardLog.mpr ⟨hm, rfl⟩)
  rw [h.numbered _ _ _ hi, Nat.add_sub_cancel, hi]

/-- Two histories of the same lengths are the same if one has nothing that the other has not. -/
theorem ValidHistory.shardLog_eq_of_subset {n : Nat} {history history' : List Mutation}
    (h : ValidHistory n history) (h' : ValidHistory n history') (hsub : history' ⊆ history)
    (hlen : ∀ s, (shardLog history' s).length = (shardLog history s).length) (s : Nat) :
    shardLog history' s = shardLog history s := by
  refine List.ext_getElem (hlen s) fun i hi hi' => ?_
  have hget := List.getElem?_eq_getElem hi
  obtain ⟨hmem, hs⟩ := mem_shardLog.mp (List.getElem_mem hi)
  have hfind := h.getElem?_seq (hsub hmem)
  rw [hs, h'.numbered s i _ hget, Nat.add_sub_cancel, List.getElem?_eq_getElem hi'] at hfind
  exact (Option.some.inj hfind).symm

/-- A history has no mutation twice. -/
theorem ValidHistory.nodup {n : Nat} {history : List Mutation} (h : ValidHistory n history) :
    history.Nodup := by
  induction history using List.reverseRecOn with
  | nil => exact List.nodup_nil
  | append_singleton history m ih =>
    obtain ⟨hv, -, hseq⟩ := validHistory_concat.mp h
    refine List.nodup_append.mpr ⟨ih hv, List.nodup_singleton m, fun m₁ hm₁ m₂ hm₂ heq => ?_⟩
    rw [List.mem_singleton.mp hm₂] at heq
    subst heq
    have hlt := (List.getElem?_eq_some_iff.mp (hv.getElem?_seq hm₁)).1
    omega

/-- A prefix of the log of one shard is a history. -/
theorem ValidHistory.take_shardLog {n : Nat} {history : List Mutation}
    (h : ValidHistory n history) (s w : Nat) : ValidHistory n ((shardLog history s).take w) where
  routed m hm := h.routed m (mem_shardLog.mp (List.mem_of_mem_take hm)).1
  numbered s' i m hi := by
    by_cases hs : s' = s
    · subst hs
      have hself : shardLog ((shardLog history s').take w) s' = (shardLog history s').take w :=
        List.filter_eq_self.mpr fun m hm => by
          rw [decide_eq_true_eq]
          exact (mem_shardLog.mp (List.mem_of_mem_take hm)).2
      rw [hself, List.getElem?_take] at hi
      split at hi
      · exact h.numbered s' i m hi
      · cases hi
    · have hnil : shardLog ((shardLog history s).take w) s' = [] :=
        List.filter_eq_nil_iff.mpr fun m hm => by
          rw [decide_eq_true_eq, (mem_shardLog.mp (List.mem_of_mem_take hm)).2]
          exact Ne.symm hs
      rw [hnil] at hi
      cases hi

/-- To cut each shard at a number of its own. -/
theorem shardLog_filter_seq (l : List Mutation) (w : Nat → Nat) (s : Nat) :
    shardLog (l.filter fun m => decide (m.seq > w m.shard)) s =
      (shardLog l s).filter fun m => decide (m.seq > w s) := by
  rw [shardLog, shardLog, List.filter_filter, List.filter_filter]
  refine List.filter_congr fun m _ => ?_
  by_cases hs : m.shard = s
  · subst hs; rw [Bool.and_comm]
  · simp [hs]

theorem ValidHistory.filter_seq {n : Nat} {history : List Mutation}
    (h : ValidHistory n history) (s k : Nat) :
    ((shardLog history s).filter fun m => decide (m.seq > k)) = (shardLog history s).drop k := by
  have htake : ((shardLog history s).take k).filter (fun m => decide (m.seq > k)) = [] :=
    List.filter_eq_nil_iff.mpr fun m hm => by
      obtain ⟨i, hi⟩ := List.mem_iff_getElem?.mp hm
      rw [List.getElem?_take] at hi
      split at hi
      · rw [decide_eq_true_eq, h.numbered s i m hi]
        omega
      · cases hi
  have hdrop : ((shardLog history s).drop k).filter (fun m => decide (m.seq > k)) =
      (shardLog history s).drop k := List.filter_eq_self.mpr fun m hm => by
    obtain ⟨i, hi⟩ := List.mem_iff_getElem?.mp hm
    rw [List.getElem?_drop] at hi
    rw [decide_eq_true_eq, h.numbered s _ m hi]
    omega
  conv_lhs => rw [← List.take_append_drop k (shardLog history s)]
  rw [List.filter_append, htake, hdrop, List.nil_append]

/-- To cut a log twice is to cut it at the later place. -/
theorem ValidHistory.filter_drop {n : Nat} {history : List Mutation}
    (h : ValidHistory n history) (s f k : Nat) :
    (((shardLog history s).drop f).filter fun m => decide (m.seq > k)) =
      (shardLog history s).drop (max f k) := by
  rw [← h.filter_seq s f, List.filter_filter, ← h.filter_seq s (max f k)]
  refine List.filter_congr fun m _ => ?_
  rw [← Bool.decide_and, decide_eq_decide]
  omega

/-- A shard log is ordered by sequence number. -/
theorem ValidHistory.pairwise_seq {n : Nat} {history : List Mutation}
    (h : ValidHistory n history) (s : Nat) :
    (shardLog history s).Pairwise fun a b => a.seq < b.seq := by
  refine List.pairwise_iff_getElem.mpr fun i j hi hj hij => ?_
  rw [h.numbered s i _ (List.getElem?_eq_getElem hi), h.numbered s j _ (List.getElem?_eq_getElem hj)]
  omega

/-- There is nothing beyond the last shard. -/
theorem ValidHistory.shardLog_eq_nil {n : Nat} {history : List Mutation}
    (h : ValidHistory n history) (hn : 0 < n) {s : Nat} (hs : n ≤ s) : shardLog history s = [] :=
  List.filter_eq_nil_iff.mpr fun m hm => by
    have : shardForHash m.targetHash n < n := shardForHash_lt hn
    rw [← (h.routed m hm).shard] at this
    rw [decide_eq_true_eq]
    omega

/-- The entry under a key is decided by the mutations of the key's shard. -/
theorem entryAfter_shardLog {n : Nat} {history : List Mutation}
    (h : ∀ m ∈ history, m.Routed n) (key : AclKey) :
    entryAfter (shardLog history (shardForHash key.keyHash n)) key = entryAfter history key :=
  valueAt_filter fun m hm v hv => by
    rw [decide_eq_true_eq, (h m hm).shard, Mutation.targetHash_of_entryWrite hv]

theorem ruleAfter_shardLog {n : Nat} {history : List Mutation}
    (h : ∀ m ∈ history, m.Routed n) (key : RuleKey) :
    ruleAfter (shardLog history (shardForHash key.ruleHash n)) key = ruleAfter history key :=
  valueAt_filter fun m hm v hv => by
    rw [decide_eq_true_eq, (h m hm).shard, Mutation.targetHash_of_ruleWrite hv]

/-- A history leaves no deletion behind as a value. -/
theorem ruleAfter_ne_delete {history : List Mutation} {key : RuleKey} {r : RuleEntry}
    (h : ruleAfter history key = some r) : r.action ≠ .delete := by
  obtain ⟨m, -, hm⟩ := exists_of_valueAt h
  unfold Mutation.ruleWrite at hm
  rw [Option.map_eq_some_iff] at hm
  obtain ⟨rule, -, heq⟩ := hm
  by_cases hd : rule.action = .delete
  · simp [hd] at heq
  · simp only [hd, if_false, Prod.mk.injEq, Option.some.injEq] at heq
    rw [← heq.2]
    exact hd

/-! ## Prefixes -/

/-- Each shard of `history'` is a prefix of the shard in `history`. -/
def Behind (history' history : List Mutation) : Prop :=
  ∀ s, shardLog history' s <+: shardLog history s

theorem Behind.refl (history : List Mutation) : Behind history history := fun _ => List.prefix_rfl

theorem Behind.trans {h h' h'' : List Mutation} (h₁ : Behind h h') (h₂ : Behind h' h'') :
    Behind h h'' := fun s => (h₁ s).trans (h₂ s)

theorem behind_append (history l : List Mutation) : Behind history (history ++ l) := fun s => by
  rw [shardLog_append]
  exact List.prefix_append _ _

theorem Behind.subset {history history' : List Mutation} (h : Behind history' history) :
    history' ⊆ history := fun m hm =>
  (mem_shardLog.mp ((h m.shard).subset (mem_shardLog.mpr ⟨hm, rfl⟩))).1

theorem Behind.length_le {history history' : List Mutation} (h : Behind history' history) (s : Nat) :
    (shardLog history' s).length ≤ (shardLog history s).length := (h s).length_le

/-- A mutation of the longer history is in the shorter one if its number is. -/
theorem Behind.mem {n : Nat} {history history' : List Mutation} (h : Behind history' history)
    (hv : ValidHistory n history) {m : Mutation} (hm : m ∈ history)
    (hle : m.seq ≤ (shardLog history' m.shard).length) : m ∈ history' := by
  have hget := hv.getElem?_seq hm
  obtain ⟨i, hi⟩ := List.mem_iff_getElem?.mp (mem_shardLog.mpr ⟨hm, rfl⟩)
  have hseq := hv.numbered _ _ _ hi
  obtain ⟨t, ht⟩ := h m.shard
  rw [← ht, List.getElem?_append_left (by omega)] at hget
  exact (mem_shardLog.mp (List.mem_of_getElem? hget)).1

theorem ValidHistory.behind {n : Nat} {history history' : List Mutation}
    (hv : ValidHistory n history) (h : Behind history' history) : ValidHistory n history' where
  routed m hm := hv.routed m (h.subset hm)
  numbered s i m hi := by
    obtain ⟨t, ht⟩ := h s
    refine hv.numbered s i m ?_
    rw [← ht, List.getElem?_append_left (List.getElem?_eq_some_iff.mp hi).1, hi]

/-- The next mutation of the longer history extends the shorter one. -/
theorem Behind.concat {n : Nat} {history history' : List Mutation} (h : Behind history' history)
    (hv : ValidHistory n history) {m : Mutation} (hm : m ∈ history)
    (hseq : m.seq = (shardLog history' m.shard).length + 1) : Behind (history' ++ [m]) history :=
  fun s => by
    rw [shardLog_concat]
    split
    · subst_vars
      obtain ⟨t, ht⟩ := h m.shard
      have hget := hv.getElem?_seq hm
      rw [← ht, hseq, Nat.add_sub_cancel, List.getElem?_append_right (Nat.le_refl _),
        Nat.sub_self] at hget
      cases t with
      | nil => cases hget
      | cons a t =>
        cases hget
        exact ⟨t, by rw [← ht, List.append_assoc]; rfl⟩
    · rw [List.append_nil]
      exact h s

end Globacl
