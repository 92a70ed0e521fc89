import Mathlib.Logic.Basic

/-!
# Runs

Computations that may fail, and runs of a labelled step relation. A label is the list of what the
step emits, so a run carries the concatenation of what its steps emitted.

* `bind_eq_ok`: a sequence succeeds iff both parts do.
* `foldlM_invariant`: what each step of a loop that may fail preserves holds at its end.
* `Run.invariant`: what each step preserves, relative to what was emitted so far, holds after a run.
* `foldl_invariant`: what each step of a machine keeps holds after any inputs.
* `Along act P s l`: a condition on all steps of a machine that runs through a list of inputs.
-/

namespace Lib

variable {ε σ ℓ α β : Type}

theorem ok_bind (a : α) (f : α → Except ε β) : (Except.ok a >>= f) = f a := rfl

theorem error_bind (err : ε) (f : α → Except ε β) : (Except.error err >>= f) = .error err := rfl

theorem bind_eq_ok {x : Except ε α} {f : α → Except ε β} {b : β} :
    (x >>= f) = .ok b ↔ ∃ a, x = .ok a ∧ f a = .ok b := by
  cases x with
  | error err => exact ⟨fun h => (by cases h), fun ⟨_, h, _⟩ => by cases h⟩
  | ok a => exact ⟨fun h => ⟨a, rfl, h⟩, fun ⟨_, h, h'⟩ => by cases h; exact h'⟩

theorem bind_eq_error {x : Except ε α} {f : α → Except ε β} {err : ε} :
    (x >>= f) = .error err ↔ x = .error err ∨ ∃ a, x = .ok a ∧ f a = .error err := by
  cases x with
  | error err' => simp [error_bind]
  | ok a => simp [ok_bind]

theorem map_eq_ok {x : Except ε α} {f : α → β} {b : β} :
    x.map f = .ok b ↔ ∃ a, x = .ok a ∧ f a = b := by
  cases x with
  | error err => exact ⟨fun h => (by cases h), fun ⟨_, h, _⟩ => by cases h⟩
  | ok a => exact ⟨fun h => ⟨a, rfl, Except.ok.inj h⟩, fun ⟨_, h, h'⟩ => by cases h; rw [← h']; rfl⟩

/-- A property that each step of a loop preserves holds when the loop succeeds. -/
theorem foldlM_invariant {f : σ → α → Except ε σ} {p : σ → Prop} {l : List α}
    (hstep : ∀ s s' a, a ∈ l → p s → f s a = .ok s' → p s') {s s' : σ} (hs : p s)
    (h : l.foldlM f s = .ok s') : p s' := by
  induction l generalizing s with
  | nil => cases h; exact hs
  | cons a l ih =>
    rw [List.foldlM_cons, bind_eq_ok] at h
    obtain ⟨s₁, h₁, h⟩ := h
    exact ih (fun s s' a ha => hstep s s' a (List.mem_cons_of_mem _ ha))
      (hstep s s₁ a List.mem_cons_self hs h₁) h

/-- What each step of a loop says of its elements so far holds of all of them at the end. -/
theorem foldlM_collects {f : σ → α → Except ε σ} {p : List α → σ → Prop}
    (hstep : ∀ done s s' a, p done s → f s a = .ok s' → p (done ++ [a]) s') {l done : List α}
    {s s' : σ} (hs : p done s) (h : l.foldlM f s = .ok s') : p (done ++ l) s' := by
  induction l generalizing s done with
  | nil =>
    cases h
    rwa [List.append_nil]
  | cons a l ih =>
    rw [List.foldlM_cons, bind_eq_ok] at h
    obtain ⟨s₁, h₁, h⟩ := h
    rw [List.append_cons]
    exact ih (hstep done s s₁ a hs h₁) h

/-- A loop succeeds if and only if each of its elements is one that its step succeeds on. -/
theorem foldlM_ok_iff {f : σ → α → Except ε σ} {P : α → Prop}
    (h : ∀ s a, (∃ s', f s a = .ok s') ↔ P a) {l : List α} {s : σ} :
    (∃ s', l.foldlM f s = .ok s') ↔ ∀ a ∈ l, P a := by
  induction l generalizing s with
  | nil => exact iff_of_true ⟨s, rfl⟩ fun _ ha => absurd ha List.not_mem_nil
  | cons a l ih =>
    rw [List.forall_mem_cons, ← h s a]
    constructor
    · rintro ⟨s', hs'⟩
      obtain ⟨s₁, h₁, hs'⟩ := bind_eq_ok.mp (List.foldlM_cons.symm.trans hs')
      exact ⟨⟨s₁, h₁⟩, ih.mp ⟨s', hs'⟩⟩
    · rintro ⟨⟨s₁, h₁⟩, hl⟩
      obtain ⟨s', hs'⟩ := ih.mpr hl
      exact ⟨s', List.foldlM_cons.trans (bind_eq_ok.mpr ⟨s₁, h₁, hs'⟩)⟩

/-- A loop fails as one of its steps does. -/
theorem foldlM_error {f : σ → α → Except ε σ} {l : List α} {s : σ} {err : ε}
    (h : l.foldlM f s = .error err) : ∃ s' a, a ∈ l ∧ f s' a = .error err := by
  induction l generalizing s with
  | nil => cases h
  | cons a l ih =>
    rcases bind_eq_error.mp (List.foldlM_cons.symm.trans h) with ha | ⟨s₁, -, h⟩
    · exact ⟨s, a, List.mem_cons_self, ha⟩
    · obtain ⟨s', b, hb, hbad⟩ := ih h
      exact ⟨s', b, List.mem_cons_of_mem _ hb, hbad⟩

/-- Two loops whose steps agree along a map agree along it. `P` is what the steps need and keep. -/
theorem foldlM_map {τ : Type} {f : σ → α → Except ε σ} {g : τ → α → Except ε τ} (φ : σ → τ)
    (P : σ → Prop) {l : List α}
    (hstep : ∀ s a, a ∈ l → P s → g (φ s) a = (f s a).map φ ∧ ∀ s', f s a = .ok s' → P s') {s : σ}
    (hs : P s) : l.foldlM g (φ s) = (l.foldlM f s).map φ := by
  induction l generalizing s with
  | nil => rfl
  | cons a l ih =>
    obtain ⟨hg, hP⟩ := hstep s a List.mem_cons_self hs
    rw [List.foldlM_cons, List.foldlM_cons, hg]
    cases hf : f s a with
    | error err => rfl
    | ok s' =>
      exact ih (fun s a ha => hstep s a (List.mem_cons_of_mem _ ha)) (hP s' hf)

/-- The same when the loop succeeds, if what the steps need holds at its end and so held before each
of them. -/
theorem foldlM_map_of_ok {τ : Type} {f : σ → α → Except ε σ} {g : τ → α → Except ε τ} (φ : σ → τ)
    (P : σ → Prop) {l : List α}
    (hstep : ∀ s s' a, a ∈ l → f s a = .ok s' → P s' → g (φ s) a = .ok (φ s') ∧ P s) {s s' : σ}
    (h : l.foldlM f s = .ok s') (hs' : P s') : l.foldlM g (φ s) = .ok (φ s') ∧ P s := by
  induction l generalizing s with
  | nil =>
    cases h
    exact ⟨rfl, hs'⟩
  | cons a l ih =>
    rw [List.foldlM_cons, bind_eq_ok] at h
    obtain ⟨s₁, h₁, h⟩ := h
    obtain ⟨hg, hs₁⟩ := ih (fun s s' b hb => hstep s s' b (List.mem_cons_of_mem _ hb)) h
    obtain ⟨hg₁, hs⟩ := hstep s s₁ a List.mem_cons_self h₁ hs₁
    rw [List.foldlM_cons, hg₁]
    exact ⟨hg, hs⟩

/-- A sequence of two such computations. -/
theorem bind_map_of_ok {τ ρ ρ' : Type} {x : Except ε σ} {y : Except ε τ} {f : σ → Except ε ρ}
    {g : τ → Except ε ρ'} (φ : σ → τ) (ψ : ρ → ρ') (P : σ → Prop) {Q : Prop} {b : ρ}
    (h : (x >>= f) = .ok b) (hx : ∀ a, x = .ok a → P a → y = .ok (φ a) ∧ Q)
    (hf : ∀ a, f a = .ok b → g (φ a) = .ok (ψ b) ∧ P a) : (y >>= g) = .ok (ψ b) ∧ Q := by
  obtain ⟨a, ha, hb⟩ := bind_eq_ok.mp h
  obtain ⟨hg, hP⟩ := hf a hb
  obtain ⟨hy, hQ⟩ := hx a ha hP
  exact ⟨bind_eq_ok.mpr ⟨φ a, hy, hg⟩, hQ⟩

/-- A loop of checks passes if each of them does. -/
theorem forIn_checks {l : List α} {f : α → Unit → Except ε (ForInStep Unit)}
    (h : ∀ a ∈ l, f a () = .ok (.yield ())) : forIn l () f = .ok () := by
  induction l with
  | nil => rfl
  | cons a l ih =>
    rw [List.forIn_cons, h a List.mem_cons_self]
    exact ih fun b hb => h b (List.mem_cons_of_mem _ hb)

/-- A loop of checks passes only if each of them does. -/
theorem passes_of_forIn_checks {l : List α} {f : α → Unit → Except ε (ForInStep Unit)}
    (hf : ∀ a r, f a () = .ok r → r = .yield ()) (h : forIn l () f = .ok ()) :
    ∀ a ∈ l, f a () = .ok (.yield ()) := by
  induction l with
  | nil => simp
  | cons a l ih =>
    rw [List.forIn_cons, bind_eq_ok] at h
    obtain ⟨r, hr, h⟩ := h
    obtain rfl := hf a r hr
    exact List.forall_mem_cons.mpr ⟨hr, ih h⟩

/-- The error of a loop of checks is the error of one of them. -/
theorem forIn_checks_error {l : List α} {f : α → Unit → Except ε (ForInStep Unit)} {err : ε}
    (h : forIn l () f = .error err) : ∃ a ∈ l, f a () = .error err := by
  induction l with
  | nil => cases h
  | cons a l ih =>
    rw [List.forIn_cons, bind_eq_error] at h
    rcases h with h | ⟨r, hr, h⟩
    · exact ⟨a, List.mem_cons_self, h⟩
    · cases r with
      | done _ => cases h
      | yield _ =>
        obtain ⟨b, hb, hf⟩ := ih h
        exact ⟨b, List.mem_cons_of_mem _ hb, hf⟩

/-- A run of steps from one state to another, with everything that the steps emitted. -/
inductive Run (step : σ → List ℓ → σ → Prop) : σ → List ℓ → σ → Prop
  | refl (s : σ) : Run step s [] s
  | tail {s s' s'' : σ} {l l' : List ℓ} : Run step s l s' → step s' l' s'' →
      Run step s (l ++ l') s''

variable {step : σ → List ℓ → σ → Prop}

theorem Run.single {s s' : σ} {l : List ℓ} (h : step s l s') : Run step s l s' :=
  (Run.refl s).tail h

theorem Run.trans {s s' s'' : σ} {l l' : List ℓ} (h : Run step s l s') (h' : Run step s' l' s'') :
    Run step s (l ++ l') s'' := by
  induction h' with
  | refl => rwa [List.append_nil]
  | tail _ hstep ih => rw [← List.append_assoc]; exact ih.tail hstep

theorem Run.mono {step' : σ → List ℓ → σ → Prop}
    (hstep : ∀ s l s', step s l s' → step' s l s') {s s' : σ} {l : List ℓ} (h : Run step s l s') :
    Run step' s l s' := by
  induction h with
  | refl => exact .refl _
  | tail _ hst ih => exact ih.tail (hstep _ _ _ hst)

/-- An invariant that relates the state to the history so far. -/
theorem Run.invariant {I : List ℓ → σ → Prop}
    (hstep : ∀ k s l s', I k s → step s l s' → I (k ++ l) s')
    {k l : List ℓ} {s s' : σ} (h : Run step s l s') (hs : I k s) : I (k ++ l) s' := by
  induction h with
  | refl => rwa [List.append_nil]
  | tail _ hst ih => rw [← List.append_assoc]; exact hstep _ _ _ _ ih hst

/-- What holds of everything that a step emits holds of everything that a run emits. -/
theorem Run.forall_mem {P : ℓ → Prop} (hstep : ∀ s l s', step s l s' → ∀ a ∈ l, P a) {s s' : σ}
    {l : List ℓ} (h : Run step s l s') : ∀ a ∈ l, P a := by
  induction h with
  | refl => exact fun a ha => absurd ha List.not_mem_nil
  | tail _ hst ih => exact List.forall_mem_append.mpr ⟨ih, hstep _ _ _ hst⟩

/-! ## Machines -/

section Machines

variable {σ α : Type*}

/-- A condition on each step of a run of a machine, with the state before it. -/
def Along (act : σ → α → σ) (P : σ → α → Prop) : σ → List α → Prop
  | _, [] => True
  | s, a :: l => P s a ∧ Along act P (act s a) l

instance decidableAlong {act : σ → α → σ} {P : σ → α → Prop} [∀ s a, Decidable (P s a)] :
    ∀ (s : σ) (l : List α), Decidable (Along act P s l)
  | _, [] => .isTrue trivial
  | s, a :: l => @instDecidableAnd _ _ _ (decidableAlong (act s a) l)

/-- An invariant, which may need a condition on each step, gives a fact about each step. -/
theorem Along.of_invariant {act : σ → α → σ} {P Q : σ → α → Prop} {I : σ → Prop}
    (hstep : ∀ s a, I s → P s a → I (act s a) ∧ Q s a) {s : σ} {l : List α} (hs : I s)
    (h : Along act P s l) : Along act Q s l := by
  induction l generalizing s with
  | nil => trivial
  | cons a l ih =>
    obtain ⟨hs', hq⟩ := hstep s a hs h.1
    exact ⟨hq, ih hs' h.2⟩

/-- An invariant that needs a condition on each step. -/
theorem Along.invariant {act : σ → α → σ} {P : σ → α → Prop} {I : σ → Prop}
    (hstep : ∀ s a, I s → P s a → I (act s a)) {s : σ} {l : List α} (hs : I s)
    (h : Along act P s l) : I (l.foldl act s) := by
  induction l generalizing s with
  | nil => exact hs
  | cons a l ih => exact ih (hstep s a hs h.1) h.2

theorem foldl_invariant {act : σ → α → σ} {I : σ → Prop} (hstep : ∀ s a, I s → I (act s a)) {s : σ}
    (hs : I s) (l : List α) : I (l.foldl act s) := by
  induction l generalizing s with
  | nil => exact hs
  | cons a l ih => exact ih (hstep s a hs)

/-- A condition on the inputs alone holds along the run. -/
theorem along_and_forall {act : σ → α → σ} {P : σ → α → Prop} {Q : α → Prop} {s : σ} {l : List α}
    (h : Along act P s l) (hl : ∀ a ∈ l, Q a) : Along act (fun s a => P s a ∧ Q a) s l := by
  induction l generalizing s with
  | nil => trivial
  | cons a l ih =>
    exact ⟨⟨h.1, hl a List.mem_cons_self⟩, ih h.2 fun b hb => hl b (List.mem_cons_of_mem _ hb)⟩

theorem along_append {act : σ → α → σ} {P : σ → α → Prop} {s : σ} {l l' : List α} :
    Along act P s (l ++ l') ↔ Along act P s l ∧ Along act P (l.foldl act s) l' := by
  induction l generalizing s with
  | nil => exact (and_iff_right trivial).symm
  | cons a l ih =>
    rw [List.cons_append, Along, Along, ih, and_assoc]
    rfl

theorem along_iff {act : σ → α → σ} {P Q : σ → α → Prop} {I : σ → Prop}
    (hstep : ∀ s a, I s → I (act s a)) (hpq : ∀ s a, I s → (P s a ↔ Q s a)) {s : σ} {l : List α}
    (hs : I s) : Along act P s l ↔ Along act Q s l :=
  ⟨Along.of_invariant (fun s a hs hp => ⟨hstep s a hs, (hpq s a hs).mp hp⟩) hs,
    Along.of_invariant (fun s a hs hq => ⟨hstep s a hs, (hpq s a hs).mpr hq⟩) hs⟩

end Machines

end Lib
