import Globacl.Lib.HashMap
import Mathlib.Order.Bounds.Basic

/-!
# Keeping the latest value of each key

A store keeps one value for each key, the one of the highest rank. It is filled in two ways: a value
that is offered is dropped if it is older than the kept one or equal to it, and a value that is
replayed is stored unless it is older. The offered values that are not dropped are a journal.

* `offer_same_replay`: the two ways agree up to the order of the map.
* `Latest`: the map keeps, for each key of a list of values, one of them of the highest rank.
* `Latest.rank_eq`: which rank is kept depends on neither the order nor the repetitions of the list.
-/

namespace Lib

namespace KeepLatest

variable {K V : Type} [DecidableEq K] (key : V → K) (rank : V → Nat)

/-- A value is stored unless the kept one is of higher rank. -/
def replay (m : HashMap K V) (v : V) : HashMap K V :=
  if ((m.lookup (key v)).map fun kept => decide (rank kept ≤ rank v)).getD true then
    m.insert (key v) v
  else m

variable {key rank}

theorem replay_of_lt {m : HashMap K V} {v kept : V} (h : m.lookup (key v) = some kept)
    (hlt : rank v < rank kept) : replay key rank m v = m := by
  unfold replay
  rw [h, Option.map_some, Option.getD_some, if_neg]
  rw [decide_eq_true_eq]
  omega

theorem replay_of_le {m : HashMap K V} {v : V}
    (h : ∀ kept, m.lookup (key v) = some kept → rank kept ≤ rank v) :
    replay key rank m v = m.insert (key v) v := by
  unfold replay
  cases hkept : m.lookup (key v) with
  | none => rfl
  | some kept => exact if_pos (decide_eq_true (h kept hkept))

/-- Maps with the same lookups are filled alike. -/
theorem replay_same {m m' : HashMap K V} (h : m.Same m') (v : V) :
    (replay key rank m v).Same (replay key rank m' v) := by
  unfold replay
  rw [h (key v)]
  split
  · exact h.insert (key v) v
  · exact h

/-! ## What is kept -/

/-- For each key of the values, the map keeps one of them, and none of them is of higher rank. -/
structure Latest (key : V → K) (rank : V → Nat) (vs : List V) (m : HashMap K V) : Prop where
  kept : ∀ k v, m.lookup k = some v → v ∈ vs ∧ key v = k
  covers : ∀ v ∈ vs, ∃ kept, m.lookup (key v) = some kept ∧ rank v ≤ rank kept

theorem Latest.empty : Latest key rank [] ∅ where
  kept k v hv := by cases hv
  covers v hv := by cases hv

theorem Latest.same {vs : List V} {m m' : HashMap K V} (h : Latest key rank vs m)
    (hm : m.Same m') : Latest key rank vs m' where
  kept k v hv := h.kept k v ((hm k).trans hv)
  covers v hv := by
    obtain ⟨kept, hkept, hle⟩ := h.covers v hv
    exact ⟨kept, (hm (key v)).symm.trans hkept, hle⟩

/-- The rank that is kept for a key is the highest of the values with that key. -/
theorem Latest.isGreatest {vs : List V} {m : HashMap K V} (h : Latest key rank vs m) {k : K} {v : V}
    (hv : m.lookup k = some v) : IsGreatest {r | ∃ w ∈ vs, key w = k ∧ rank w = r} (rank v) := by
  refine ⟨⟨v, (h.kept k v hv).1, (h.kept k v hv).2, rfl⟩, ?_⟩
  rintro _ ⟨w, hw, rfl, rfl⟩
  obtain ⟨kept, hkept, hle⟩ := h.covers w hw
  rw [hv] at hkept
  cases hkept
  exact hle

/-- Two maps for lists with the same values keep the same ranks. -/
theorem Latest.rank_eq {vs vs' : List V} {m m' : HashMap K V} (h : Latest key rank vs m)
    (h' : Latest key rank vs' m') (hvs : ∀ v, v ∈ vs ↔ v ∈ vs') (k : K) :
    (m.lookup k).map rank = (m'.lookup k).map rank := by
  have hset : {r | ∃ w ∈ vs, key w = k ∧ rank w = r} = {r | ∃ w ∈ vs', key w = k ∧ rank w = r} := by
    simp only [hvs]
  have hnone : ∀ {vs vs' : List V} {m m' : HashMap K V}, Latest key rank vs m →
      Latest key rank vs' m' → (∀ v, v ∈ vs' → v ∈ vs) → m.lookup k = none →
      m'.lookup k = none := by
    intro vs vs' m m' h h' hsub hk
    cases hk' : m'.lookup k with
    | none => rfl
    | some v =>
      obtain ⟨hv, rfl⟩ := h'.kept k v hk'
      obtain ⟨kept, hkept, -⟩ := h.covers v (hsub v hv)
      rw [hk] at hkept
      cases hkept
  cases hk : m.lookup k with
  | none => rw [hnone h h' (fun v => (hvs v).mpr) hk]
  | some v =>
    cases hk' : m'.lookup k with
    | none =>
      rw [hnone h' h (fun v => (hvs v).mp) hk'] at hk
      cases hk
    | some v' =>
      have hv := h.isGreatest hk
      rw [hset] at hv
      exact congrArg some (hv.unique (h'.isGreatest hk'))

/-! ## Offered values -/

variable [DecidableEq V]

variable (key rank) in
/-- Whether an offered value is dropped. -/
def drops (m : HashMap K V) (v : V) : Bool :=
  (m.lookup (key v)).any fun kept => decide (rank kept > rank v ∨ kept = v)

variable (key rank) in
/-- A value is stored unless it is dropped. -/
def offer (m : HashMap K V) (v : V) : HashMap K V :=
  if drops key rank m v then m else m.insert (key v) v

theorem drops_iff {m : HashMap K V} {v : V} :
    drops key rank m v = true ↔
      ∃ kept, m.lookup (key v) = some kept ∧ (rank v < rank kept ∨ kept = v) := by
  unfold drops
  cases m.lookup (key v) with
  | none => simp
  | some kept => simp

theorem offer_same_replay (m : HashMap K V) (v : V) :
    (offer key rank m v).Same (replay key rank m v) := by
  unfold offer
  split
  · rename_i hdrops
    obtain ⟨kept, hkept, hlt | rfl⟩ := drops_iff.mp hdrops
    · rw [replay_of_lt hkept hlt]
      exact HashMap.Same.refl m
    · -- the kept value is stored once more
      have hle : ∀ kept', m.lookup (key kept) = some kept' → rank kept' ≤ rank kept := by
        intro kept' hkept'
        rw [hkept] at hkept'
        cases hkept'
        exact Nat.le_refl _
      rw [replay_of_le hle]
      intro k
      rw [HashMap.lookup_insert_eq]
      split
      · subst_vars
        exact hkept
      · rfl
  · rename_i hdrops
    rw [replay_of_le]
    · exact HashMap.Same.refl _
    · intro kept hkept
      by_contra hlt
      exact hdrops (drops_iff.mpr ⟨kept, hkept, Or.inl (by omega)⟩)

theorem Latest.offer {vs : List V} {m : HashMap K V} (h : Latest key rank vs m) (v : V) :
    Latest key rank (vs ++ [v]) (offer key rank m v) := by
  unfold KeepLatest.offer
  split
  · rename_i hdrops
    obtain ⟨kept, hkept, hle⟩ := drops_iff.mp hdrops
    refine ⟨fun k w hw => ?_, fun w hw => ?_⟩
    · exact ⟨List.mem_append_left [v] (h.kept k w hw).1, (h.kept k w hw).2⟩
    · rcases List.mem_append.mp hw with hw | hw
      · exact h.covers w hw
      · rw [List.mem_singleton.mp hw]
        refine ⟨kept, hkept, ?_⟩
        rcases hle with hlt | rfl
        · exact Nat.le_of_lt hlt
        · exact Nat.le_refl _
  · rename_i hdrops
    refine ⟨fun k w hw => ?_, fun w hw => ?_⟩
    · rw [HashMap.lookup_insert_eq] at hw
      split at hw
      · cases hw
        exact ⟨List.mem_append_right vs (List.mem_singleton_self v), (‹k = key v›).symm⟩
      · exact ⟨List.mem_append_left [v] (h.kept k w hw).1, (h.kept k w hw).2⟩
    · by_cases hkey : key w = key v
      · refine ⟨v, by rw [hkey]; exact AList.lookup_insert m, ?_⟩
        rcases List.mem_append.mp hw with hw | hw
        · obtain ⟨kept, hkept, hle⟩ := h.covers w hw
          rw [hkey] at hkept
          by_contra hlt
          exact hdrops (drops_iff.mpr ⟨kept, hkept, Or.inl (by omega)⟩)
        · rw [List.mem_singleton.mp hw]
      · rw [HashMap.lookup_insert_eq, if_neg hkey]
        rcases List.mem_append.mp hw with hw | hw
        · exact h.covers w hw
        · exact absurd (congrArg key (List.mem_singleton.mp hw)) hkey

theorem Latest.replay {vs : List V} {m : HashMap K V} (h : Latest key rank vs m) (v : V) :
    Latest key rank (vs ++ [v]) (replay key rank m v) :=
  (h.offer v).same (offer_same_replay m v)

/-- Replaying a list keeps the latest of its values. -/
theorem Latest.foldl_replay {vs : List V} {m : HashMap K V} (h : Latest key rank vs m) (ws : List V) :
    Latest key rank (vs ++ ws) (ws.foldl (KeepLatest.replay key rank) m) := by
  induction ws generalizing vs m with
  | nil => rwa [List.append_nil]
  | cons w ws ih =>
    have hrest := ih (h.replay w)
    rwa [List.append_assoc, List.singleton_append] at hrest

/-- What a key has after an offer: the offered value, or what it had. -/
theorem eq_or_lookup_of_offer {m : HashMap K V} {v w : V} {k : K}
    (h : (offer key rank m v).lookup k = some w) : k = key v ∧ w = v ∨ m.lookup k = some w := by
  unfold offer at h
  split at h
  · exact Or.inr h
  · rw [HashMap.lookup_insert_eq] at h
    split at h
    · cases h
      exact Or.inl ⟨‹k = key v›, rfl⟩
    · exact Or.inr h

/-- The rank of a key does not go down. -/
theorem le_rank_offer {m : HashMap K V} (v : V) {k : K} {kept : V} (h : m.lookup k = some kept) :
    ∃ kept', (offer key rank m v).lookup k = some kept' ∧ rank kept ≤ rank kept' := by
  unfold offer
  split
  · exact ⟨kept, h, Nat.le_refl _⟩
  · rename_i hdrops
    rw [HashMap.lookup_insert_eq]
    split
    · subst_vars
      refine ⟨v, rfl, ?_⟩
      by_contra hlt
      exact hdrops (drops_iff.mpr ⟨kept, h, Or.inl (by omega)⟩)
    · exact ⟨kept, h, Nat.le_refl _⟩

end KeepLatest

end Lib
