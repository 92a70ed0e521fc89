import Globacl.Lib.Crash

/-!
# Programs on a part of the state

A `View` is a part of a state that can be read and replaced. `View.run` runs a program of the part
inside the whole, and a program of the whole refines one of the part (`View.Refines`) if the part
sees no difference between them.

* `View.run_triple`: the frame rule. What replacing the part cannot change is kept.
* `Refines.bind` and the others: one rule for each way to build a program.
-/

namespace Lib

open Prog

/-- A part `σ` of a state `τ`. -/
structure View (τ σ : Type) where
  get : τ → σ
  set : σ → τ → τ
  get_set : ∀ s t, get (set s t) = s

namespace View

variable {τ σ ε α β : Type} (v : View τ σ)

/-- A program of the part, in the whole. -/
def run (c : Prog σ ε α) : Prog τ ε α := fun t =>
  ⟨(c (v.get t)).result, v.set (c (v.get t)).final t, (c (v.get t)).points.map fun s => v.set s t⟩

variable {v}

/-- The frame rule. -/
theorem run_triple {p : σ → Prop} {c : Prog σ ε α} {q : α → σ → Prop} {e r : σ → Prop} {frame : τ → Prop}
    (h : Triple p c q e r) (hframe : ∀ s t, frame t → frame (v.set s t)) :
    Triple (fun t => p (v.get t) ∧ frame t) (v.run c) (fun a t => q a (v.get t) ∧ frame t)
      (fun t => e (v.get t) ∧ frame t) (fun t => r (v.get t) ∧ frame t) where
  ok t a ht ha := by
    show q a (v.get (v.set _ t)) ∧ frame (v.set _ t)
    rw [v.get_set]
    exact ⟨h.ok _ a ht.1 ha, hframe _ t ht.2⟩
  error t err ht herr := by
    show e (v.get (v.set _ t)) ∧ frame (v.set _ t)
    rw [v.get_set]
    exact ⟨h.error _ err ht.1 herr, hframe _ t ht.2⟩
  crash t ht t' ht' := by
    obtain ⟨s, hs, rfl⟩ := List.mem_map.mp ht'
    rw [v.get_set]
    exact ⟨h.crash _ ht.1 s hs, hframe s t ht.2⟩

/-- The program of the whole has the result of the one of the part, and leaves the part as it
does. -/
def Refines (v : View τ σ) (c' : Prog τ ε α) (c : Prog σ ε α) : Prop :=
  ∀ t, (c' t).result = (c (v.get t)).result ∧ v.get (c' t).final = (c (v.get t)).final

namespace Refines

variable {c' : Prog τ ε α} {c : Prog σ ε α}

theorem run (c : Prog σ ε α) : v.Refines (v.run c) c := fun _ => ⟨rfl, v.get_set _ _⟩

theorem pure (a : α) : v.Refines (Pure.pure a : Prog τ ε α) (Pure.pure a) := fun _ => ⟨rfl, rfl⟩

theorem lift (x : Except ε α) : v.Refines (Prog.lift x) (Prog.lift x) := fun _ => ⟨rfl, rfl⟩

theorem bind {f' : α → Prog τ ε β} {f : α → Prog σ ε β} (h : v.Refines c' c)
    (hf : ∀ a, v.Refines (f' a) (f a)) : v.Refines (c' >>= f') (c >>= f) := by
  intro t
  obtain ⟨hresult, hfinal⟩ := h t
  simp only [Bind.bind]
  rw [hresult]
  cases hc : (c (v.get t)).result with
  | error err => exact ⟨rfl, hfinal⟩
  | ok a =>
    dsimp only
    rw [← hfinal]
    exact hf a _

theorem get_bind {f' : τ → Prog τ ε β} {f : σ → Prog σ ε β} (h : ∀ t, v.Refines (f' t) (f (v.get t))) :
    v.Refines (Prog.get >>= f') (Prog.get >>= f) := fun t => h t t

theorem ite {b : Prop} [Decidable b] {d' : Prog τ ε α} {d : Prog σ ε α} (h : b → v.Refines c' c)
    (h' : ¬b → v.Refines d' d) : v.Refines (if b then c' else d') (if b then c else d) := by
  split
  · exact h ‹_›
  · exact h' ‹_›

theorem forEach {f' : α → Prog τ ε Unit} {f : α → Prog σ ε Unit} (h : ∀ a, v.Refines (f' a) (f a))
    (l : List α) : v.Refines (Prog.forEach f' l) (Prog.forEach f l) := by
  induction l with
  | nil => exact pure ()
  | cons a l ih => exact (h a).bind fun _ => ih

/-- A program that succeeds and that the part does not see may follow. -/
theorem seq_unseen {c' d : Prog τ ε Unit} {c : Prog σ ε Unit} (h : v.Refines c' c)
    (hd : ∀ t, (d t).result = .ok () ∧ v.get (d t).final = v.get t) :
    v.Refines (c' >>= fun _ => d) c := by
  intro t
  obtain ⟨hresult, hfinal⟩ := h t
  simp only [Bind.bind]
  cases hc : (c' t).result with
  | error err => exact ⟨hc.symm.trans hresult, hfinal⟩
  | ok a => exact ⟨(hd _).1.trans (hc.symm.trans hresult), (hd _).2.trans hfinal⟩

end Refines

end View

end Lib
