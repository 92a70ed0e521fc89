import Globacl.Lib.HashMap
import Globacl.Lib.Search
import Mathlib.Data.List.Rotate

/-!
# The best of a list

A loop keeps the best candidate that it has seen: an element replaces the kept one when it
compares strictly less. Elements that satisfy `skip` are passed over.

* `bestOf_keepBest`: the loop ends with nothing if every element is passed over, and else with an
  element to which none is preferred.
* `keepBest_order_iff`: what a loop over a map's values finds is the same in every iteration order
  exactly when the elements that may win are not told apart.
-/

namespace Lib

variable {α : Type} {cmp : α → α → Ordering} {skip : α → Bool}

/-- One step of the loop. -/
def keepBetter (cmp : α → α → Ordering) (skip : α → Bool) (best : Option α) (a : α) : Option α :=
  if skip a then best
  else
    match best with
    | some current => if cmp a current = .lt then some a else some current
    | none => some a

/-- The loop over `l` from `best`. -/
def keepBest (cmp : α → α → Ordering) (skip : α → Bool) (best : Option α) (l : List α) : Option α :=
  l.foldl (keepBetter cmp skip) best

/-- `b` is a candidate of `p`, and no candidate of `p` is preferred to it. -/
def IsBest (cmp : α → α → Ordering) (p : α → Prop) (b : α) : Prop :=
  p b ∧ ∀ a, p a → cmp a b ≠ .lt

/-- What a loop over the candidates `p` may end with. -/
structure BestOf (cmp : α → α → Ordering) (p : α → Prop) (best : Option α) : Prop where
  isBest : ∀ b, best = some b → IsBest cmp p b
  not_candidate : best = none → ∀ a, ¬p a

theorem BestOf.congr {p q : α → Prop} (h : ∀ a, p a ↔ q a) {best : Option α}
    (hb : BestOf cmp p best) : BestOf cmp q best := by
  have : p = q := funext fun a => propext (h a)
  rwa [← this]

theorem IsBest.bestOf {p : α → Prop} {b : α} (h : IsBest cmp p b) : BestOf cmp p (some b) :=
  ⟨fun _ hb => Option.some.inj hb ▸ h, fun h => by cases h⟩

theorem cmp_self_ne_lt [Std.ReflCmp cmp] (a : α) : cmp a a ≠ .lt := by
  have h : cmp a a = .eq := Std.ReflCmp.compare_self
  simp [h]

theorem BestOf.keepBetter [Std.TransCmp cmp] {p : α → Prop} {best : Option α}
    (hb : BestOf cmp p best) (a : α) :
    BestOf cmp (fun b => p b ∨ (b = a ∧ skip a = false)) (keepBetter cmp skip best a) := by
  unfold Lib.keepBetter
  cases hs : skip a with
  | true => exact hb.congr fun b => by simp
  | false =>
    rw [if_neg (by simp)]
    cases best with
    | none =>
      refine IsBest.bestOf ⟨Or.inr ⟨rfl, rfl⟩, ?_⟩
      rintro b (hpb | ⟨rfl, -⟩)
      · exact absurd hpb (hb.not_candidate rfl b)
      · exact cmp_self_ne_lt b
    | some current =>
      obtain ⟨hp, hmin⟩ := hb.isBest current rfl
      dsimp only
      split
      · rename_i hlt
        refine IsBest.bestOf ⟨Or.inr ⟨rfl, rfl⟩, ?_⟩
        rintro b (hpb | ⟨rfl, -⟩)
        · exact fun hba => hmin b hpb (Std.TransCmp.lt_trans hba hlt)
        · exact cmp_self_ne_lt b
      · rename_i hlt
        refine IsBest.bestOf ⟨Or.inl hp, ?_⟩
        rintro b (hpb | ⟨rfl, -⟩)
        · exact hmin b hpb
        · exact hlt

/-- The loop keeps the best of what it started from and of the elements that it does not pass
over. -/
theorem BestOf.keepBest [Std.TransCmp cmp] {p : α → Prop} {best : Option α}
    (hb : BestOf cmp p best) (l : List α) :
    BestOf cmp (fun b => p b ∨ (b ∈ l ∧ skip b = false)) (keepBest cmp skip best l) := by
  induction l generalizing p best with
  | nil => exact hb.congr fun b => by simp
  | cons a l ih =>
    refine (ih (hb.keepBetter a)).congr fun b => ?_
    rw [List.mem_cons, or_assoc]
    refine or_congr_right ⟨?_, ?_⟩
    · rintro (⟨rfl, hs⟩ | ⟨hl, hs⟩)
      · exact ⟨Or.inl rfl, hs⟩
      · exact ⟨Or.inr hl, hs⟩
    · rintro ⟨rfl | hl, hs⟩
      · exact Or.inl ⟨rfl, hs⟩
      · exact Or.inr ⟨hl, hs⟩

theorem bestOf_none : BestOf cmp (fun _ : α => False) none :=
  ⟨fun _ h => (by cases h), fun _ _ h => h⟩

/-- The loop from nothing. -/
theorem bestOf_keepBest [Std.TransCmp cmp] (l : List α) :
    BestOf cmp (fun b => b ∈ l ∧ skip b = false) (keepBest cmp skip none l) :=
  (bestOf_none.keepBest l).congr fun b => by simp

/-! ## The order of the elements -/

/-- The loop from an element to which no element is preferred. -/
theorem keepBest_eq_self {b : α} {l : List α} (h : ∀ a ∈ l, skip a = false → cmp a b ≠ .lt) :
    keepBest cmp skip (some b) l = some b := by
  induction l with
  | nil => rfl
  | cons a l ih =>
    have hstep : keepBetter cmp skip (some b) a = some b := by
      unfold keepBetter
      cases hs : skip a with
      | true => rfl
      | false =>
        rw [if_neg (by simp)]
        exact if_neg (h a List.mem_cons_self hs)
    rw [keepBest, List.foldl_cons, hstep]
    exact ih fun a ha => h a (List.mem_cons_of_mem _ ha)

/-- From two elements that compare equal, the loop finds the same element or keeps both. -/
theorem keepBest_of_eq [Std.TransCmp cmp] {b b' : α} (heq : cmp b b' = .eq) (l : List α) :
    keepBest cmp skip (some b) l = keepBest cmp skip (some b') l ∨
      ∀ a ∈ l, skip a = false → cmp a b ≠ .lt ∧ cmp a b' ≠ .lt := by
  induction l with
  | nil => exact Or.inr fun _ h => by cases h
  | cons a l ih =>
    have hlt : cmp a b = .lt ↔ cmp a b' = .lt :=
      ⟨fun h => Std.TransCmp.lt_of_lt_of_eq h heq,
        fun h => Std.TransCmp.lt_of_lt_of_eq h (Std.OrientedCmp.eq_symm heq)⟩
    simp only [keepBest, List.foldl_cons] at ih ⊢
    cases hs : skip a with
    | true =>
      simp only [keepBetter, hs, if_true]
      refine ih.imp_right fun hall c hc hsc => ?_
      rcases List.mem_cons.mp hc with rfl | hc
      · rw [hs] at hsc
        cases hsc
      · exact hall c hc hsc
    | false =>
      by_cases ha : cmp a b = .lt
      · left
        simp [keepBetter, hs, ha, hlt.mp ha]
      · have ha' : cmp a b' ≠ .lt := fun h => ha (hlt.mpr h)
        simp only [keepBetter, hs, Bool.false_eq_true, if_false, ha, ha']
        refine ih.imp_right fun hall c hc hsc => ?_
        rcases List.mem_cons.mp hc with rfl | hc
        · exact ⟨ha, ha'⟩
        · exact hall c hc hsc

theorem cmp_eq_of_ne_lt [Std.OrientedCmp cmp] {a b : α} (h : cmp a b ≠ .lt) (h' : cmp b a ≠ .lt) :
    cmp a b = .eq := by
  have hswap : cmp b a = (cmp a b).swap := Std.OrientedCmp.eq_swap
  cases hab : cmp a b with
  | lt => exact absurd hab h
  | eq => rfl
  | gt => exact absurd (by rw [hswap, hab]; rfl) h'

/-- Some iteration order visits an element first. -/
theorem IterOrder.exists_first {l : List α} {a : α} (h : a ∈ l) :
    ∃ (ord : IterOrder) (rest : List α), ord.order l = a :: rest := by
  obtain ⟨pre, post, rfl⟩ := List.append_of_mem h
  exact ⟨⟨fun l => l.rotate pre.length, fun l => l.rotate_perm pre.length⟩, post ++ pre,
    List.rotate_append_length_eq pre (a :: post)⟩

/-- An element of `l` that the loop over `l` and then over `after` may end with. -/
structure MayWin (cmp : α → α → Ordering) (skip skip' : α → Bool) (l after : List α) (b : α) :
    Prop where
  mem : b ∈ l
  taken : skip b = false
  best : ∀ a ∈ l, skip a = false → cmp a b ≠ .lt
  kept : ∀ a ∈ after, skip' a = false → cmp a b ≠ .lt

/-- A loop over `l` in some order, and then over `after`: what `f` reads from its result is the
same in every order exactly when it is the same for the elements of `l` that may win. -/
theorem keepBest_order_iff [Std.TransCmp cmp] {β : Type} (f : Option α → β) (skip' : α → Bool)
    (l after : List α) :
    (∀ ord ord' : IterOrder,
        f (keepBest cmp skip' (keepBest cmp skip none (ord.order l)) after) =
          f (keepBest cmp skip' (keepBest cmp skip none (ord'.order l)) after)) ↔
      ∀ b b', MayWin cmp skip skip' l after b → MayWin cmp skip skip' l after b' →
        f (some b) = f (some b') := by
  have hfirst : ∀ b, MayWin cmp skip skip' l after b → ∃ ord : IterOrder,
      keepBest cmp skip' (keepBest cmp skip none (ord.order l)) after = some b := by
    intro b hb
    obtain ⟨ord, rest, hord⟩ := IterOrder.exists_first hb.mem
    have hrest : ∀ a ∈ rest, skip a = false → cmp a b ≠ .lt := fun a ha =>
      hb.best a ((ord.perm l).mem_iff.mp (by rw [hord]; exact List.mem_cons_of_mem _ ha))
    have hone : keepBest cmp skip none (b :: rest) = keepBest cmp skip (some b) rest := by
      simp [keepBest, keepBetter, hb.taken]
    exact ⟨ord, by rw [hord, hone, keepBest_eq_self hrest, keepBest_eq_self hb.kept]⟩
  constructor
  · intro h b b' hb hb'
    obtain ⟨ord, hord⟩ := hfirst b hb
    obtain ⟨ord', hord'⟩ := hfirst b' hb'
    rw [← hord, ← hord']
    exact h ord ord'
  · intro h ord ord'
    have hbest : BestOf cmp (fun a => a ∈ ord.order l ∧ skip a = false)
        (keepBest cmp skip none (ord.order l)) := bestOf_keepBest _
    have hbest' : BestOf cmp (fun a => a ∈ ord'.order l ∧ skip a = false)
        (keepBest cmp skip none (ord'.order l)) := bestOf_keepBest _
    simp only [(ord.perm l).mem_iff] at hbest
    simp only [(ord'.perm l).mem_iff] at hbest'
    cases hw : keepBest cmp skip none (ord.order l) with
    | none =>
      cases hw' : keepBest cmp skip none (ord'.order l) with
      | none => rfl
      | some b' => exact absurd (hbest'.isBest b' hw').1 (hbest.not_candidate hw b')
    | some b =>
      cases hw' : keepBest cmp skip none (ord'.order l) with
      | none => exact absurd (hbest.isBest b hw).1 (hbest'.not_candidate hw' b)
      | some b' =>
        obtain ⟨⟨hb, hs⟩, hmin⟩ := hbest.isBest b hw
        obtain ⟨⟨hb', hs'⟩, hmin'⟩ := hbest'.isBest b' hw'
        have heq : cmp b b' = .eq := cmp_eq_of_ne_lt (hmin' b ⟨hb, hs⟩) (hmin b' ⟨hb', hs'⟩)
        have hafter : keepBest cmp skip' (some b) after = keepBest cmp skip' (some b') after ∨ _ :=
          keepBest_of_eq heq after
        rcases hafter with hsame | hkept
        · rw [hsame]
        · rw [keepBest_eq_self fun a ha hsa => (hkept a ha hsa).1,
            keepBest_eq_self fun a ha hsa => (hkept a ha hsa).2]
          exact h b b' ⟨hb, hs, fun a ha hsa => hmin a ⟨ha, hsa⟩, fun a ha hsa => (hkept a ha hsa).1⟩
            ⟨hb', hs', fun a ha hsa => hmin' a ⟨ha, hsa⟩, fun a ha hsa => (hkept a ha hsa).2⟩

end Lib
