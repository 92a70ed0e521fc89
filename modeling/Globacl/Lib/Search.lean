import Mathlib.Data.List.Sort

/-!
# Sorting and searching by a comparison

A comparison `cmp : α → α → Ordering` sorts a list (`sortBy`, stable), and a comparison of the
elements with a key searches a sorted list (`binarySearchBy`).

* `sortBy_perm`, `sortBy_pairwise`: a sort permutes the list and orders it.
* `filter_sortBy_eq_iff`: when a sort leaves a part of the list in its order.
* `binarySearchBy_eq_some`: on a list that is strictly sorted, the search finds the element that
  compares equal to the key if there is one, and nothing otherwise.
-/

namespace Lib

variable {α : Type}

/-- The reverse of a comparison. -/
theorem transCmp_flip {cmp : α → α → Ordering} [Std.TransCmp cmp] :
    Std.TransCmp fun a b => cmp b a where
  eq_swap := Std.OrientedCmp.eq_swap
  isLE_trans h1 h2 := Std.TransCmp.isLE_trans h2 h1

/-- A stable sort by a comparison. -/
def sortBy (cmp : α → α → Ordering) (l : List α) : List α :=
  l.insertionSort fun a b => cmp a b ≠ .gt

theorem sortBy_perm (cmp : α → α → Ordering) (l : List α) : (sortBy cmp l).Perm l :=
  List.perm_insertionSort _ l

theorem mem_sortBy {cmp : α → α → Ordering} {l : List α} {a : α} : a ∈ sortBy cmp l ↔ a ∈ l :=
  (sortBy_perm cmp l).mem_iff

theorem sortBy_pairwise (cmp : α → α → Ordering) [Std.TransCmp cmp] (l : List α) :
    (sortBy cmp l).Pairwise fun a b => cmp a b ≠ .gt := by
  have : Std.Total fun a b : α => cmp a b ≠ .gt := ⟨fun a b => by
    have h : cmp a b = (cmp b a).swap := Std.OrientedCmp.eq_swap
    cases hba : cmp b a <;> simp_all⟩
  have : IsTrans α fun a b => cmp a b ≠ .gt := ⟨fun a b c hab hbc => by
    exact Ordering.isLE_iff_ne_gt.mp (Std.TransCmp.isLE_trans
      (Ordering.isLE_iff_ne_gt.mpr hab) (Ordering.isLE_iff_ne_gt.mpr hbc))⟩
  exact List.pairwise_insertionSort _ l

/-- A sorted list whose elements do not compare equal is strictly sorted. -/
theorem pairwise_lt_of_ne_eq {cmp : α → α → Ordering} {l : List α}
    (h : l.Pairwise fun a b => cmp a b ≠ .gt) (hne : l.Pairwise fun a b => cmp a b ≠ .eq) :
    l.Pairwise fun a b => cmp a b = .lt := by
  refine (h.and hne).imp fun {a b} hab => ?_
  obtain ⟨h1, h2⟩ := hab
  cases hc : cmp a b <;> simp_all

/-- A sort keeps the order of a part of the list exactly if the part is sorted. -/
theorem filter_sortBy_eq_iff {cmp : α → α → Ordering} [Std.TransCmp cmp] {l : List α}
    {p : α → Bool} :
    (sortBy cmp l).filter p = l.filter p ↔ (l.filter p).Pairwise fun a b => cmp a b ≠ .gt := by
  constructor
  · intro h
    rw [← h]
    exact (sortBy_pairwise cmp l).filter p
  · intro h
    have hsub : (l.filter p).Sublist (sortBy cmp l) :=
      List.sublist_insertionSort h List.filter_sublist
    have hpart := hsub.filter p
    rw [List.filter_filter] at hpart
    simp only [Bool.and_self] at hpart
    exact (hpart.eq_of_length ((sortBy_perm cmp l).filter p).length_eq.symm).symm

/-! ## Binary search -/

/-- The loop of a binary search in the window from `lo` to `hi`, for at most `fuel` halvings. -/
def binarySearchLoop (f : α → Ordering) (l : List α) : Nat → Nat → Nat → Option α
  | 0, _, _ => none
  | fuel + 1, lo, hi =>
    if lo < hi then
      let mid := lo + (hi - lo) / 2
      match l[mid]? with
      | none => none
      | some a =>
        match f a with
        | .eq => some a
        | .lt => binarySearchLoop f l fuel (mid + 1) hi
        | .gt => binarySearchLoop f l fuel lo mid
    else none

/-- An element `a` of the sorted list `l` with `f a = .eq`. -/
def binarySearchBy (f : α → Ordering) (l : List α) : Option α :=
  binarySearchLoop f l l.length 0 l.length

theorem binarySearchLoop_sound {f : α → Ordering} {l : List α} {a : α} :
    ∀ {fuel lo hi}, binarySearchLoop f l fuel lo hi = some a → a ∈ l ∧ f a = .eq := by
  intro fuel
  induction fuel with
  | zero => intro lo hi h; cases h
  | succ fuel ih =>
    intro lo hi h
    unfold binarySearchLoop at h
    split at h
    · simp only at h
      split at h
      · cases h
      · rename_i b hb
        split at h
        · cases h
          exact ⟨List.mem_of_getElem? hb, ‹_›⟩
        · exact ih h
        · exact ih h
    · cases h

/-- `f` agrees with the order of the list: it is `lt` up to some place, then `eq`, then `gt`. -/
def Monotone (f : α → Ordering) (l : List α) : Prop :=
  l.Pairwise fun a b => (f b = .lt → f a = .lt) ∧ (f a = .gt → f b = .gt) ∧
    (f a = .eq → f b = .gt) ∧ (f b = .eq → f a = .lt)

/-- In a strictly sorted list, the comparison with any `x` agrees with the order. -/
theorem monotone_of_pairwise_lt {cmp : α → α → Ordering} [Std.TransCmp cmp] {l : List α}
    (h : l.Pairwise fun a b => cmp a b = .lt) (x : α) : Monotone (fun a => cmp a x) l := by
  refine h.imp fun {a b} hab => ⟨fun hb => Std.TransCmp.lt_trans hab hb, fun ha => ?_,
    fun ha => ?_, fun hb => Std.TransCmp.lt_of_lt_of_eq hab hb⟩
  · have hxa : cmp x a = .lt := Std.OrientedCmp.lt_of_gt ha
    exact Std.OrientedCmp.gt_of_lt (Std.TransCmp.lt_trans hxa hab)
  · have hxa : cmp x a = .eq := Std.OrientedCmp.eq_symm ha
    exact Std.OrientedCmp.gt_of_lt (Std.TransCmp.lt_of_eq_of_lt hxa hab)

theorem binarySearchLoop_complete {f : α → Ordering} {l : List α} (hm : Monotone f l) {i : Nat}
    {a : α} (ha : l[i]? = some a) (hf : f a = .eq) :
    ∀ {fuel lo hi}, hi - lo ≤ fuel → lo ≤ i → i < hi → hi ≤ l.length →
      binarySearchLoop f l fuel lo hi = some a := by
  obtain ⟨hil, hai⟩ := List.getElem?_eq_some_iff.mp ha
  subst hai
  have hpair := List.pairwise_iff_getElem.mp hm
  intro fuel
  induction fuel with
  | zero => intro lo hi h1 h2 h3 h4; omega
  | succ fuel ih =>
    intro lo hi h1 h2 h3 h4
    have hmid : lo + (hi - lo) / 2 < l.length := by omega
    unfold binarySearchLoop
    rw [if_pos (by omega)]
    simp only [List.getElem?_eq_getElem hmid]
    rcases Nat.lt_trichotomy (lo + (hi - lo) / 2) i with hlt | heq | hgt
    · have := (hpair _ _ hmid hil hlt).2.2.2 hf
      rw [this]
      exact ih (by omega) (by omega) h3 h4
    · simp only [heq, hf]
    · have := (hpair _ _ hil hmid hgt).2.2.1 hf
      rw [this]
      exact ih (by omega) h2 hgt (by omega)

/-- A binary search of a list on which the comparison with the key is monotone finds the element
that compares equal. -/
theorem binarySearchBy_eq_some {f : α → Ordering} {l : List α} (hm : Monotone f l) {a : α} :
    binarySearchBy f l = some a ↔ a ∈ l ∧ f a = .eq := by
  constructor
  · exact binarySearchLoop_sound
  · rintro ⟨hmem, hf⟩
    obtain ⟨i, hi⟩ := List.mem_iff_getElem?.mp hmem
    obtain ⟨hil, -⟩ := List.getElem?_eq_some_iff.mp hi
    exact binarySearchLoop_complete hm hi hf (by omega) (Nat.zero_le i) hil (Nat.le_refl _)

end Lib
