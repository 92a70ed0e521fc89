import Mathlib.Logic.Basic

/-!
# Programs that a crash may interrupt

A program changes its state in atomic steps, and may stop with an error. Besides its result and
the state where it stopped, it leaves the list of all states between its steps: a crash finds it in
one of these.

A triple `Triple p c q e r` says of the program `c`, started in a state with `p`: if it succeeds
then `q` holds of its result and state, if it fails then `e` holds of its state, and `r` holds at
every point where a crash may find it. There is one rule for each way to build a program.

* `Respects R c`: all states of the program are related to its start by `R`.
* `Moves R p c q e`: a triple about the steps of a program, each of which goes from a state to one
  that is related to it by `R`.
-/

namespace Lib

/-- What a program did. -/
structure Trace (σ ε α : Type) where
  result : Except ε α
  final : σ
  /-- The state after each step, in order. -/
  points : List σ

/-- A program on a state `σ` with errors `ε`. -/
def Prog (σ ε α : Type) := σ → Trace σ ε α

namespace Prog

variable {σ ε α β : Type}

instance : Monad (Prog σ ε) where
  pure a := fun s => ⟨.ok a, s, []⟩
  bind c f := fun s =>
    match (c s).result with
    | .error err => ⟨.error err, (c s).final, (c s).points⟩
    | .ok a =>
      ⟨(f a (c s).final).result, (f a (c s).final).final, (c s).points ++ (f a (c s).final).points⟩

/-- The current state. -/
def get : Prog σ ε σ := fun s => ⟨.ok s, s, []⟩

/-- An atomic step. -/
def step (f : σ → σ) : Prog σ ε Unit := fun s => ⟨.ok (), f s, [f s]⟩

/-- A computation without steps. -/
def lift (x : Except ε α) : Prog σ ε α := fun s => ⟨x, s, []⟩

/-- A loop over a list. -/
def forEach (f : α → Prog σ ε Unit) : List α → Prog σ ε Unit
  | [] => pure ()
  | a :: l => do
    f a
    forEach f l

/-- A program whose error is only reported. -/
def reported (c : Prog σ ε Unit) : Prog σ ε Unit := fun s => ⟨.ok (), (c s).final, (c s).points⟩

/-- A program on a part of the state. -/
def zoom {τ : Type} (part : τ → σ) (put : τ → σ → τ) (c : Prog σ ε α) : Prog τ ε α := fun t =>
  ⟨(c (part t)).result, put t (c (part t)).final, (c (part t)).points.map (put t)⟩

theorem bind_assoc {γ : Type} (c : Prog σ ε α) (f : α → Prog σ ε β) (g : β → Prog σ ε γ) :
    c >>= f >>= g = c >>= fun a => f a >>= g := by
  funext s
  simp only [Bind.bind]
  cases (c s).result with
  | error err => rfl
  | ok a =>
    dsimp only
    cases (f a (c s).final).result with
    | error err => rfl
    | ok b => simp only [List.append_assoc]

/-- A sequence that succeeds has two parts that do. -/
theorem bind_ok {c : Prog σ ε α} {f : α → Prog σ ε β} {s : σ} {b : β}
    (h : ((c >>= f) s).result = .ok b) :
    ∃ a, (c s).result = .ok a ∧ (f a (c s).final).result = .ok b ∧
      ((c >>= f) s).final = (f a (c s).final).final := by
  simp only [Bind.bind] at h ⊢
  cases hc : (c s).result with
  | error err => rw [hc] at h; cases h
  | ok a => rw [hc] at h; exact ⟨a, rfl, h, rfl⟩

theorem final_bind {c : Prog σ ε α} {f : α → Prog σ ε β} {s : σ} {a : α} (h : (c s).result = .ok a) :
    ((c >>= f) s).final = (f a (c s).final).final := by
  simp only [Bind.bind, h]

/-- The points of a sequence are those of its parts. -/
theorem forall_points_bind {c : Prog σ ε α} {f : α → Prog σ ε β} {s : σ} {P : σ → Prop} :
    (∀ t ∈ ((c >>= f) s).points, P t) ↔
      (∀ t ∈ (c s).points, P t) ∧
        ∀ a, (c s).result = .ok a → ∀ t ∈ (f a (c s).final).points, P t := by
  simp only [Bind.bind]
  cases hc : (c s).result with
  | error err => simp
  | ok a => simp [or_imp, forall_and]

theorem get_bind_apply (f : σ → Prog σ ε β) (s : σ) : (get >>= f) s = f s s := rfl

theorem lift_ok_bind_apply (a : α) (f : α → Prog σ ε β) (s : σ) :
    (lift (.ok a) >>= f) s = f a s := rfl

theorem lift_error_bind_apply (err : ε) (f : α → Prog σ ε β) (s : σ) :
    (lift (.error err) >>= f) s = ⟨.error err, s, []⟩ := rfl

/-- Two programs that go on alike after the same start. -/
theorem bind_congr {c : Prog σ ε α} {f g : α → Prog σ ε β} {s : σ}
    (h : ∀ a, (c s).result = .ok a → f a (c s).final = g a (c s).final) :
    (c >>= f) s = (c >>= g) s := by
  simp only [Bind.bind]
  cases hc : (c s).result with
  | error err => rfl
  | ok a =>
    dsimp only
    rw [h a hc]

section Failing

variable {c c' : Prog σ ε α} {err : ε} {s : σ}

end Failing

/-- The program succeeds with `a` and ends in `s'`. -/
structure Runs (c : Prog σ ε α) (s : σ) (a : α) (s' : σ) : Prop where
  result : (c s).result = .ok a
  final : (c s).final = s'

section Runs

variable {c : Prog σ ε α} {f : α → Prog σ ε β} {s s' s'' : σ} {a : α} {b : β}

theorem Runs.pure (a : α) (s : σ) : Runs (Pure.pure a : Prog σ ε α) s a s := ⟨rfl, rfl⟩

theorem Runs.step (f : σ → σ) (s : σ) : Runs (Prog.step f : Prog σ ε Unit) s () (f s) := ⟨rfl, rfl⟩

theorem Runs.lift {x : Except ε α} (h : x = .ok a) (s : σ) : Runs (Prog.lift x) s a s := ⟨h, rfl⟩

theorem Runs.reported {c : Prog σ ε Unit} {a : Unit} (h : Runs c s a s') : Runs c.reported s () s' :=
  ⟨rfl, h.final⟩

theorem Runs.bind (h : Runs c s a s') (hf : Runs (f a) s' b s'') : Runs (c >>= f) s b s'' := by
  obtain ⟨hresult, rfl⟩ := h
  obtain ⟨hresult', rfl⟩ := hf
  constructor <;> simp only [Bind.bind, hresult, hresult']

theorem Runs.get_bind {f : σ → Prog σ ε β} (h : Runs (f s) s b s') : Runs (Prog.get >>= f) s b s' :=
  ⟨h.result, h.final⟩

end Runs

/-- Partial correctness with crashes. -/
structure Triple (p : σ → Prop) (c : Prog σ ε α) (q : α → σ → Prop) (e r : σ → Prop) : Prop where
  ok : ∀ s a, p s → (c s).result = .ok a → q a (c s).final
  error : ∀ s err, p s → (c s).result = .error err → e (c s).final
  crash : ∀ s, p s → ∀ s' ∈ (c s).points, r s'

variable {p p' : σ → Prop} {c : Prog σ ε α} {q q' : α → σ → Prop} {e e' r r' : σ → Prop}

theorem Triple.conseq (h : Triple p c q e r) (hp : ∀ s, p' s → p s)
    (hq : ∀ a s, q a s → q' a s) (he : ∀ s, e s → e' s) (hr : ∀ s, r s → r' s) :
    Triple p' c q' e' r' where
  ok s a hs ha := hq a _ (h.ok s a (hp s hs) ha)
  error s err hs ha := he _ (h.error s err (hp s hs) ha)
  crash s hs s' hs' := hr s' (h.crash s (hp s hs) s' hs')

/-- A fact that does not depend on the state can be taken out of the precondition. -/
theorem Triple.of_fact {φ : Prop} (h : φ → Triple p c q e r) :
    Triple (fun s => φ ∧ p s) c q e r where
  ok s a hs := (h hs.1).ok s a hs.2
  error s err hs := (h hs.1).error s err hs.2
  crash s hs := (h hs.1).crash s hs.2

theorem Triple.reported {c : Prog σ ε Unit} (h : Triple p c (fun _ => e) e r) :
    Triple p c.reported (fun _ => e) e' r where
  ok s _ hs _ := by
    cases hc : (c s).result with
    | ok a => exact h.ok s a hs hc
    | error err => exact h.error s err hs hc
  error s err hs herr := by cases herr
  crash s hs := h.crash s hs

theorem Triple.of_exists {ι : Sort*} {p : ι → σ → Prop} (h : ∀ i, Triple (p i) c q e r) :
    Triple (fun s => ∃ i, p i s) c q e r where
  ok s a := fun ⟨i, hs⟩ => (h i).ok s a hs
  error s err := fun ⟨i, hs⟩ => (h i).error s err hs
  crash s := fun ⟨i, hs⟩ => (h i).crash s hs

theorem Triple.pure {a : α} (h : ∀ s, p s → q a s) : Triple p (Pure.pure a : Prog σ ε α) q e r where
  ok s a' hs ha := by cases ha; exact h s hs
  error s err hs ha := by cases ha
  crash s hs s' hs' := by cases hs'

theorem Triple.bind {f : α → Prog σ ε β} {q' : β → σ → Prop} (h : Triple p c q e r)
    (hf : ∀ a, Triple (q a) (f a) q' e r) : Triple p (c >>= f) q' e r where
  ok s b hs hb := by
    simp only [Bind.bind] at hb ⊢
    cases hc : (c s).result with
    | error err => simp only [hc] at hb; cases hb
    | ok a => simp only [hc] at hb ⊢; exact (hf a).ok _ b (h.ok s a hs hc) hb
  error s err hs hb := by
    simp only [Bind.bind] at hb ⊢
    cases hc : (c s).result with
    | error err' => simp only [hc] at hb ⊢; exact h.error s err' hs hc
    | ok a => simp only [hc] at hb ⊢; exact (hf a).error _ err (h.ok s a hs hc) hb
  crash s hs s' hs' := by
    simp only [Bind.bind] at hs'
    cases hc : (c s).result with
    | error err => simp only [hc] at hs'; exact h.crash s hs s' hs'
    | ok a =>
      simp only [hc, List.mem_append] at hs'
      exact hs'.elim (h.crash s hs s') ((hf a).crash _ (h.ok s a hs hc) s')

/-- To read the state and go on: the rest may use the state that was read. -/
theorem Triple.get_bind {f : σ → Prog σ ε β} {q : β → σ → Prop}
    (h : ∀ s₀, p s₀ → Triple (fun s => s = s₀) (f s₀) q e r) :
    Triple p (Prog.get >>= f) q e r where
  ok s b hs := (h s hs).ok s b rfl
  error s err hs := (h s hs).error s err rfl
  crash s hs := (h s hs).crash s rfl

/-- What every program does. -/
theorem Triple.trivial (c : Prog σ ε α) :
    Triple (fun _ => True) c (fun _ _ => True) (fun _ => True) fun _ => True where
  ok _ _ _ _ := True.intro
  error _ _ _ _ := True.intro
  crash _ _ _ _ := True.intro

/-- Where a program ends, whatever its result. -/
theorem Triple.final (h : Triple p c (fun _ => e) e r) {s : σ} (hs : p s) : e (c s).final := by
  cases hc : (c s).result with
  | ok a => exact h.ok s a hs hc
  | error err => exact h.error s err hs hc

/-- To look at the state before a program. -/
theorem Triple.of_get (h : ∀ s₀, p s₀ → Triple (fun s => s = s₀) c q e r) : Triple p c q e r where
  ok s a hs := (h s hs).ok s a rfl
  error s err hs := (h s hs).error s err rfl
  crash s hs := (h s hs).crash s rfl

theorem Triple.step {f : σ → σ} {q : Unit → σ → Prop} (hq : ∀ s, p s → q () (f s))
    (hr : ∀ s, p s → r (f s)) : Triple p (Prog.step f : Prog σ ε Unit) q e r where
  ok s a hs ha := by cases ha; exact hq s hs
  error s err hs ha := by cases ha
  crash s hs s' hs' := by
    rw [List.mem_singleton.mp hs']
    exact hr s hs

theorem Triple.lift {x : Except ε α} (hq : ∀ a s, x = .ok a → p s → q a s)
    (he : ∀ s err, x = .error err → p s → e s) : Triple p (Prog.lift x) q e r where
  ok s a hs ha := hq a s ha hs
  error s err hs ha := he s err ha hs
  crash s hs s' hs' := by cases hs'

/-- A program on a part of the state, with the rest as it was. -/
theorem Triple.zoom {τ : Type} {part : τ → σ} {put : τ → σ → τ} {p : τ → Prop}
    {q : α → τ → Prop} {e r : τ → Prop}
    (h : ∀ t, p t → Triple (fun s => s = part t) c (fun a s => q a (put t s)) (fun s => e (put t s))
      fun s => r (put t s)) : Triple p (c.zoom part put) q e r where
  ok t a ht ha := (h t ht).ok _ a rfl ha
  error t err ht herr := (h t ht).error _ err rfl herr
  crash t ht t' ht' := by
    obtain ⟨s, hs, rfl⟩ := List.mem_map.mp ht'
    exact (h t ht).crash _ rfl s hs

theorem Triple.ite {b : Prop} [Decidable b] {c c' : Prog σ ε α} (h : b → Triple p c q e r)
    (h' : ¬b → Triple p c' q e r) : Triple p (if b then c else c') q e r := by
  split
  · exact h ‹_›
  · exact h' ‹_›

/-- A loop, by an invariant on what is left of the list. -/
theorem Triple.forEach {f : α → Prog σ ε Unit} {I : List α → σ → Prop}
    (h : ∀ a l, Triple (I (a :: l)) (f a) (fun _ => I l) e r) (l : List α) :
    Triple (I l) (Prog.forEach f l) (fun _ => I []) e r := by
  induction l with
  | nil => exact .pure fun s hs => hs
  | cons a l ih => exact (h a l).bind fun _ => ih

/-! ## What a program respects -/

/-- All states of a program are related to its start, in which an earlier state `s₀` may stand for
the start. -/
abbrev Respects (R : σ → σ → Prop) (c : Prog σ ε α) : Prop :=
  ∀ s₀, Triple (R s₀) c (fun _ => R s₀) (R s₀) (R s₀)

namespace Respects

variable {R : σ → σ → Prop}

theorem bind {f : α → Prog σ ε β} (h : Respects R c) (hf : ∀ a, Respects R (f a)) :
    Respects R (c >>= f) := fun s₀ => Triple.bind (h s₀) fun a => hf a s₀

theorem get_bind {f : σ → Prog σ ε β} (h : ∀ s, Respects R (f s)) :
    Respects R (Prog.get >>= f) := fun s₀ =>
  Triple.get_bind fun s hs => (h s s₀).conseq (fun _ heq => heq ▸ hs) (fun _ _ h => h)
    (fun _ h => h) fun _ h => h

theorem pure (a : α) : Respects R (Pure.pure a : Prog σ ε α) := fun _ => Triple.pure fun _ h => h

theorem lift (x : Except ε α) : Respects R (Prog.lift x : Prog σ ε α) := fun _ =>
  Triple.lift (fun _ _ _ h => h) fun _ _ _ h => h

theorem step {f : σ → σ} (h : ∀ s₀ s, R s₀ s → R s₀ (f s)) :
    Respects R (Prog.step f : Prog σ ε Unit) := fun s₀ => Triple.step (h s₀) (h s₀)

theorem ite {b : Prop} [Decidable b] {c c' : Prog σ ε α} (h : b → Respects R c)
    (h' : ¬b → Respects R c') : Respects R (if b then c else c') := by
  split
  · exact h ‹_›
  · exact h' ‹_›

theorem forEach {f : α → Prog σ ε Unit} (h : ∀ a, Respects R (f a)) (l : List α) :
    Respects R (Prog.forEach f l) := fun s₀ =>
  Triple.forEach (I := fun _ => R s₀) (fun a _ => h a s₀) l

/-- Where a program ends is related to where it started. -/
theorem final (h : Respects R c) (hrefl : ∀ s, R s s) (s : σ) : R s (c s).final := by
  cases hc : (c s).result with
  | ok a => exact (h s).ok s a (hrefl s) hc
  | error err => exact (h s).error s err (hrefl s) hc

end Respects

/-! ## What the steps of a program respect -/

/-- The states after a state, each related to the one before it, up to the last one. -/
inductive Path (R : σ → σ → Prop) : σ → List σ → σ → Prop
  | nil (s : σ) : Path R s [] s
  | cons {s s' t : σ} {l : List σ} : R s s' → Path R s' l t → Path R s (s' :: l) t

theorem Path.append {R : σ → σ → Prop} {s t u : σ} {l l' : List σ} (h : Path R s l t)
    (h' : Path R t l' u) : Path R s (l ++ l') u := by
  induction h with
  | nil => exact h'
  | cons hr _ ih => exact .cons hr (ih h')

theorem Path.mono {R R' : σ → σ → Prop} {s t : σ} {l : List σ} (h : Path R s l t)
    (hR : ∀ a b, R a b → R' a b) : Path R' s l t := by
  induction h with
  | nil => exact .nil _
  | cons hr _ ih => exact .cons (hR _ _ hr) ih

theorem Path.final_mem {R : σ → σ → Prop} {s t : σ} {l : List σ} (h : Path R s l t) :
    t ∈ s :: l := by
  induction h with
  | nil => exact List.mem_singleton_self _
  | cons _ _ ih => exact List.mem_cons_of_mem _ ih

/-- With a transitive relation, all states before another are related to it. -/
theorem Path.pairwise {R : σ → σ → Prop} (htrans : ∀ a b c, R a b → R b c → R a c) {s t : σ}
    {l : List σ} (h : Path R s l t) : (s :: l).Pairwise R := by
  induction h with
  | nil => exact List.pairwise_singleton _ _
  | cons hr _ ih =>
    refine List.pairwise_cons.mpr ⟨fun a ha => ?_, ih⟩
    rcases List.mem_cons.mp ha with rfl | ha
    · exact hr
    · exact htrans _ _ _ hr ((List.pairwise_cons.mp ih).1 a ha)

/-- Partial correctness with a relation that each step respects. -/
structure Moves (R : σ → σ → Prop) (p : σ → Prop) (c : Prog σ ε α) (q : α → σ → Prop)
    (e : σ → Prop) : Prop where
  ok : ∀ s a, p s → (c s).result = .ok a → q a (c s).final
  error : ∀ s err, p s → (c s).result = .error err → e (c s).final
  path : ∀ s, p s → Path R s (c s).points (c s).final

section Moves

variable {R : σ → σ → Prop}

theorem Moves.triple (h : Moves R p c q e) : Triple p c q e fun _ => True where
  ok := h.ok
  error := h.error
  crash _ _ _ _ := True.intro

theorem Moves.conseq (h : Moves R p c q e) (hp : ∀ s, p' s → p s) (hq : ∀ a s, q a s → q' a s)
    (he : ∀ s, e s → e' s) : Moves R p' c q' e' where
  ok s a hs ha := hq a _ (h.ok s a (hp s hs) ha)
  error s err hs ha := he _ (h.error s err (hp s hs) ha)
  path s hs := h.path s (hp s hs)

theorem Moves.of_fact {φ : Prop} (h : φ → Moves R p c q e) :
    Moves R (fun s => φ ∧ p s) c q e where
  ok s a hs := (h hs.1).ok s a hs.2
  error s err hs := (h hs.1).error s err hs.2
  path s hs := (h hs.1).path s hs.2

theorem Moves.of_exists {ι : Sort*} {p : ι → σ → Prop} (h : ∀ i, Moves R (p i) c q e) :
    Moves R (fun s => ∃ i, p i s) c q e where
  ok s a := fun ⟨i, hs⟩ => (h i).ok s a hs
  error s err := fun ⟨i, hs⟩ => (h i).error s err hs
  path s := fun ⟨i, hs⟩ => (h i).path s hs

/-- From a known state, a program gives its own result and state. -/
theorem Moves.exact (h : Moves R p c q e) {s₀ : σ} (hs₀ : p s₀) :
    Moves R (fun s => s = s₀) c
      (fun a s => (c s₀).result = .ok a ∧ s = (c s₀).final ∧ q a s) e where
  ok s a hs ha := by subst hs; exact ⟨ha, rfl, h.ok s a hs₀ ha⟩
  error s err hs ha := by subst hs; exact h.error s err hs₀ ha
  path s hs := by subst hs; exact h.path s hs₀

theorem Moves.pure {a : α} (h : ∀ s, p s → q a s) :
    Moves R p (Pure.pure a : Prog σ ε α) q e where
  ok s a' hs ha := by cases ha; exact h s hs
  error s err hs ha := by cases ha
  path s _ := .nil s

theorem Moves.bind {f : α → Prog σ ε β} {q' : β → σ → Prop} (h : Moves R p c q e)
    (hf : ∀ a, Moves R (q a) (f a) q' e) : Moves R p (c >>= f) q' e where
  ok s b hs hb := by
    simp only [Bind.bind] at hb ⊢
    cases hc : (c s).result with
    | error err => simp only [hc] at hb; cases hb
    | ok a => simp only [hc] at hb ⊢; exact (hf a).ok _ b (h.ok s a hs hc) hb
  error s err hs hb := by
    simp only [Bind.bind] at hb ⊢
    cases hc : (c s).result with
    | error err' => simp only [hc] at hb ⊢; exact h.error s err' hs hc
    | ok a => simp only [hc] at hb ⊢; exact (hf a).error _ err (h.ok s a hs hc) hb
  path s hs := by
    simp only [Bind.bind]
    cases hc : (c s).result with
    | error err => simp only; exact h.path s hs
    | ok a => simp only; exact (h.path s hs).append ((hf a).path _ (h.ok s a hs hc))

theorem Moves.get_bind {f : σ → Prog σ ε β} {q : β → σ → Prop}
    (h : ∀ s₀, p s₀ → Moves R (fun s => s = s₀) (f s₀) q e) :
    Moves R p (Prog.get >>= f) q e where
  ok s b hs := (h s hs).ok s b rfl
  error s err hs := (h s hs).error s err rfl
  path s hs := (h s hs).path s rfl

theorem Moves.step {f : σ → σ} {q : Unit → σ → Prop} (hR : ∀ s, p s → R s (f s))
    (hq : ∀ s, p s → q () (f s)) : Moves R p (Prog.step f : Prog σ ε Unit) q e where
  ok s a hs ha := by cases ha; exact hq s hs
  error s err hs ha := by cases ha
  path s hs := .cons (hR s hs) (.nil _)

theorem Moves.lift {x : Except ε α} (hq : ∀ a s, x = .ok a → p s → q a s)
    (he : ∀ s err, x = .error err → p s → e s) : Moves R p (Prog.lift x) q e where
  ok s a hs ha := hq a s ha hs
  error s err hs ha := he s err ha hs
  path s _ := .nil s

theorem Moves.ite {b : Prop} [Decidable b] {c c' : Prog σ ε α} (h : b → Moves R p c q e)
    (h' : ¬b → Moves R p c' q e) : Moves R p (if b then c else c') q e := by
  split
  · exact h ‹_›
  · exact h' ‹_›

theorem Moves.forEach {f : α → Prog σ ε Unit} {I : List α → σ → Prop}
    (h : ∀ a l, Moves R (I (a :: l)) (f a) (fun _ => I l) e) (l : List α) :
    Moves R (I l) (Prog.forEach f l) (fun _ => I []) e := by
  induction l with
  | nil => exact .pure fun s hs => hs
  | cons a l ih => exact (h a l).bind fun _ => ih

end Moves

end Prog

end Lib
