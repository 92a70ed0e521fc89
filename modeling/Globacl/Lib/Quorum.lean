import Mathlib.Data.List.Perm.Subperm

/-!
# Quorums

Two properties that hold together of more members than a list has meet in one of its members.
-/

namespace Lib

variable {α : Type} {l : List α} {p q : α → Prop} [DecidablePred p] [DecidablePred q]

/-- Two majorities have a member in common. -/
theorem quorums_meet (h : l.length < l.countP p + l.countP q) : ∃ a ∈ l, p a ∧ q a := by
  induction l with
  | nil => simp at h
  | cons a l ih =>
    by_cases hp : p a <;> by_cases hq : q a
    · exact ⟨a, List.mem_cons_self, hp, hq⟩
    all_goals
      simp only [List.countP_cons, hp, hq, decide_true, decide_false, if_true,
        Bool.false_eq_true, if_false, List.length_cons] at h
      obtain ⟨b, hb, hpq⟩ := ih (by omega)
      exact ⟨b, List.mem_cons_of_mem _ hb, hpq⟩

/-- Distinct members of a list with a property are no more than those that it has. -/
theorem length_le_countP {members : List α} (hnodup : members.Nodup)
    (h : ∀ a ∈ members, a ∈ l ∧ p a) : members.length ≤ l.countP p := by
  have hsub : members ⊆ l.filter p := fun a ha =>
    List.mem_filter.mpr ⟨(h a ha).1, decide_eq_true (h a ha).2⟩
  rw [List.countP_eq_length_filter]
  exact (hnodup.subperm hsub).length_le

end Lib
