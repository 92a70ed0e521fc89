import Globacl.Core.Rules
import Globacl.Lib.Runs

/-!
# Primitive operations that panic

An index, a slice, a subtraction, a remainder and a shift of the code panic where they have no
result, in a build with overflow checks. Here each is the operation with its check. Where the check
passes, it is the plain operation of the rest of the model (`index_eq`, `sliceFrom_eq`,
`subtract_eq`, `remainder_eq`, `shiftAmount_eq`).
-/

namespace Globacl

open Lib

/-- The panic of an index or a slice. -/
def indexOutOfBounds : GlobAclError := .panicked "index out of bounds"

/-- The panic of a subtraction of unsigned integers. -/
def subtractOverflow : GlobAclError := .panicked "attempt to subtract with overflow"

/-- The panic of a remainder by zero. -/
def remainderByZero : GlobAclError :=
  .panicked "attempt to calculate the remainder with a divisor of zero"

/-- The panic of a shift by the width or more. -/
def shiftOverflow : GlobAclError := .panicked "attempt to shift left with overflow"

/-- The error is the panic of a primitive operation. -/
def GlobAclError.IsFault (err : GlobAclError) : Prop :=
  err = indexOutOfBounds ∨ err = subtractOverflow ∨ err = remainderByZero ∨ err = shiftOverflow

instance (err : GlobAclError) : Decidable err.IsFault :=
  inferInstanceAs (Decidable (_ ∨ _ ∨ _ ∨ _))

/-- The computation ends, if with an error, then with one that it returns or another panic. -/
def Faultless {α : Type} (result : Result α) : Prop := ∀ err, result = .error err → ¬err.IsFault

/-- The computation returns, with a value or an error. -/
def Returns {α : Type} (result : Result α) : Prop := ∀ err, result = .error err → Returned err

/-- `values[i]`. -/
def index {α : Type} (values : List α) (i : Nat) : Result α :=
  match values[i]? with
  | some a => .ok a
  | none => .error indexOutOfBounds

/-- `values[i..]`. -/
def sliceFrom {α : Type} (values : List α) (i : Nat) : Result (List α) :=
  if i ≤ values.length then .ok (values.drop i) else .error indexOutOfBounds

/-- `left - right`. -/
def subtract (left right : Nat) : Result Nat :=
  if right ≤ left then .ok (left - right) else .error subtractOverflow

/-- `left % right`. -/
def remainder (left right : Nat) : Result Nat :=
  if right = 0 then .error remainderByZero else .ok (left % right)

/-- The amount of a shift of an integer with `width` bits. -/
def shiftAmount (width amount : Nat) : Result Nat :=
  if amount < width then .ok amount else .error shiftOverflow

/-- `n + 1` of a `u64`, in a build without overflow checks, as the release builds are. -/
def wrappingSucc (n : Nat) : Nat := (n + 1) % 2 ^ 64

theorem wrappingSucc_eq_iff {n : Nat} : wrappingSucc n = n + 1 ↔ n + 1 < 2 ^ 64 := by
  unfold wrappingSucc
  constructor
  · intro h
    have := Nat.mod_lt (n + 1) (by decide : 0 < 2 ^ 64)
    omega
  · exact Nat.mod_eq_of_lt

/-- `result.ok()`: an error becomes `none`, and a panic goes on. -/
def caught {α : Type} (result : Result α) : Result (Option α) :=
  match result with
  | .ok a => .ok (some a)
  | .error (.panicked message) => .error (.panicked message)
  | .error _ => .ok none

variable {α : Type}

theorem index_eq {values : List α} {i : Nat} {a : α} (h : values[i]? = some a) :
    index values i = .ok a := by
  unfold index
  rw [h]

theorem index_of_length_le {values : List α} {i : Nat} (h : values.length ≤ i) :
    index values i = .error indexOutOfBounds := by
  unfold index
  rw [List.getElem?_eq_none h]

theorem index_getD {values : List α} {i : Nat} (h : i < values.length) (a : α) :
    index values i = .ok (values.getD i a) := by
  apply index_eq
  rw [List.getD_eq_getElem?_getD, List.getElem?_eq_getElem h, Option.getD_some]

theorem sliceFrom_eq {values : List α} {i : Nat} (h : i ≤ values.length) :
    sliceFrom values i = .ok (values.drop i) := if_pos h

theorem subtract_eq {left right : Nat} (h : right ≤ left) :
    subtract left right = .ok (left - right) := if_pos h

theorem remainder_eq {left right : Nat} (h : 0 < right) :
    remainder left right = .ok (left % right) := if_neg (Nat.ne_of_gt h)

theorem shiftAmount_eq {width amount : Nat} (h : amount < width) :
    shiftAmount width amount = .ok amount := if_pos h

/-- A loop whose steps all go through is the plain loop. `P` is what the steps need and keep. -/
theorem foldlM_eq {β : Type} {f : β → α → Result β} {g : β → α → β} (P : β → Prop) {l : List α}
    (h : ∀ b, P b → ∀ a ∈ l, f b a = .ok (g b a) ∧ P (g b a)) {b : β} (hb : P b) :
    l.foldlM f b = .ok (l.foldl g b) := by
  induction l generalizing b with
  | nil => rfl
  | cons a l ih =>
    obtain ⟨hstep, hP⟩ := h b hb a List.mem_cons_self
    rw [List.foldlM_cons, hstep]
    exact ih (fun b hb a ha => h b hb a (List.mem_cons_of_mem _ ha)) hP

/-- The elements of a list, each made by a step that goes through. -/
theorem mapM_eq {β : Type} {f : α → Result β} {g : α → β} {l : List α}
    (h : ∀ a ∈ l, f a = .ok (g a)) : l.mapM f = .ok (l.map g) := by
  induction l with
  | nil => rfl
  | cons a l ih =>
    rw [List.mapM_cons, h a List.mem_cons_self, ih fun a ha => h a (List.mem_cons_of_mem _ ha)]
    rfl

/-! ## Computations that return -/

theorem returned_invalidData (message : String) : Returned (.invalidData message) := by nofun

theorem returned_gap (shardId expectedSeq receivedSeq : Nat) :
    Returned (.gap shardId expectedSeq receivedSeq) := by nofun

theorem returns_ok (a : α) : Returns (.ok a : Result α) := fun _ h => (by cases h)

theorem returns_error {err : GlobAclError} (h : Returned err) : Returns (.error err : Result α) :=
  fun _ h' => by cases h'; exact h

theorem Returns.bind {β : Type} {x : Result α} {f : α → Result β} (hx : Returns x)
    (hf : ∀ a, x = .ok a → Returns (f a)) : Returns (x >>= f) := by
  cases x with
  | error err => exact returns_error (hx err rfl)
  | ok a => exact hf a rfl

/-- A loop returns if each step does. `P` is what the steps need and keep. -/
theorem returns_foldlM {β : Type} {f : β → α → Result β} (P : β → Prop) {l : List α}
    (h : ∀ b, P b → ∀ a ∈ l, Returns (f b a) ∧ ∀ b', f b a = .ok b' → P b') {b : β} (hb : P b) :
    Returns (l.foldlM f b) := by
  induction l generalizing b with
  | nil => exact returns_ok b
  | cons a l ih =>
    obtain ⟨hstep, hP⟩ := h b hb a List.mem_cons_self
    rw [List.foldlM_cons]
    exact hstep.bind fun b' hb' =>
      ih (fun b hb a ha => h b hb a (List.mem_cons_of_mem _ ha)) (hP b' hb')

/-! ## Errors of the parsers and checks -/

theorem Snapshot.validate_error {s : Snapshot} {err : GlobAclError} (h : s.validate = .error err) :
    ∃ message, err = .invalidData message := by
  unfold Snapshot.validate at h
  split at h
  · cases h
    exact ⟨_, rfl⟩
  · simp only [bind_eq_error] at h
    rcases h with h | ⟨-, -, h | ⟨-, -, h⟩⟩
    · obtain ⟨e, -, he⟩ := forIn_checks_error h
      split at he
      · cases he
        exact ⟨_, rfl⟩
      · cases he
    · obtain ⟨r, -, hr⟩ := forIn_checks_error h
      split at hr
      · cases hr
        exact ⟨_, rfl⟩
      · cases hr
    · cases h

theorem not_isFault_parse (message : String) : ¬(GlobAclError.parse message).IsFault := by
  rintro (h | h | h | h) <;> cases h

theorem not_isFault_invalidData (message : String) :
    ¬(GlobAclError.invalidData message).IsFault := by
  rintro (h | h | h | h) <;> cases h

/-- A text that is no address is an error of the parser. -/
theorem parseOctets_error {value : String} {parts : List String} {octets : List UInt8}
    {err : GlobAclError} (h : parseOctets value parts octets = .error err) :
    ∃ message, err = .parse message := by
  induction parts generalizing octets with
  | nil => cases h
  | cons part parts ih =>
    unfold parseOctets at h
    split at h
    · cases h
      exact ⟨_, rfl⟩
    · split at h
      · cases h
        exact ⟨_, rfl⟩
      · exact ih h

theorem parseIpv4Addr_error {value : String} {err : GlobAclError}
    (h : parseIpv4Addr value = .error err) : ∃ message, err = .parse message := by
  unfold parseIpv4Addr at h
  split at h
  · cases h
    exact parseOctets_error ‹_›
  · cases h
  · cases h
    exact ⟨_, rfl⟩

theorem parseIpv4Cidr_error {pattern : String} {err : GlobAclError}
    (h : parseIpv4Cidr pattern = .error err) : ∃ message, err = .parse message := by
  unfold parseIpv4Cidr at h
  simp only at h
  split at h
  · cases h
    exact ⟨_, rfl⟩
  · split at h
    · cases h
      exact ⟨_, rfl⟩
    · split at h
      · cases h
        exact parseIpv4Addr_error ‹_›
      · cases h

theorem canonicalizeDomain_error {value : String} {err : GlobAclError}
    (h : canonicalizeDomain value = .error err) : ∃ message, err = .parse message := by
  unfold canonicalizeDomain at h
  extract_lets domain canonical at h
  generalize canonical = text at h
  by_cases hbad : text = "" ∨ (splitDots text).any (· == "") = true
  · rw [if_pos hbad] at h
    cases h
    exact ⟨_, rfl⟩
  · rw [if_neg hbad] at h
    cases h

theorem compileRulePattern_error {kind : RuleKind} {pattern : String} {err : GlobAclError}
    (h : compileRulePattern kind pattern = .error err) : ∃ message, err = .parse message := by
  unfold compileRulePattern at h
  split at h
  · split at h
    · cases h
      exact parseIpv4Cidr_error ‹_›
    · cases h
  · split at h
    · cases h
      exact canonicalizeDomain_error ‹_›
    · cases h

end Globacl
