import Mathlib.Data.List.Infix
import Mathlib.Data.Nat.Digits.Defs
import Mathlib.Tactic.Ring

/-!
# Binary formats

A parser reads a value from the front of a byte string. `Reads short p bytes a` says of a parser that
it reads `a` from exactly these bytes, whatever follows them, and that it fails on every cut of them
with the error `short`.
Then what two parsers read one after the other is read from the bytes of both (`Reads.bind`).

* `Reads.bind`, `Reads.many`: sequences and loops.
* `reads_natLe`: integers in little-endian bytes.
* `Spells enc p`: what a parser has read when it returns is the encoding of its value.
* `Yields P p`, `Throws E p`, `Consumes n p`: all that a parser returns has the property `P`, all its
  errors have the property `E`, and it returns only after `n` bytes.
-/

namespace Lib

/-- A parser with errors `ε`: a value and the bytes that are left. -/
def Parser (ε α : Type) := List UInt8 → Except ε (α × List UInt8)

namespace Parser

variable {ε α β : Type}

instance : Monad (Parser ε) where
  pure a := fun bytes => .ok (a, bytes)
  bind p f := fun bytes =>
    match p bytes with
    | .error err => .error err
    | .ok (a, rest) => f a rest

/-- A parser that fails. -/
def fail (err : ε) : Parser ε α := fun _ => .error err

/-- A result that does not depend on the bytes. -/
def lift (x : Except ε α) : Parser ε α := fun bytes => x.map fun a => (a, bytes)

/-- The number of bytes that are left. -/
def remaining : Parser ε Nat := fun bytes => .ok (bytes.length, bytes)

/-- The next `n` bytes, or the error `short`. -/
def take (short : ε) (n : Nat) : Parser ε (List UInt8) := fun bytes =>
  if bytes.length < n then .error short else .ok (bytes.take n, bytes.drop n)

/-- The loop `for _ in 0..n { values.push(p()?) }`. -/
def many (p : Parser ε α) : Nat → Parser ε (List α)
  | 0 => pure []
  | n + 1 => do
    let a ← p
    let l ← many p n
    pure (a :: l)

variable {short : ε} {p : Parser ε α} {f : α → Parser ε β} {bytes rest : List UInt8} {a : α}

theorem bind_of_ok (h : p bytes = .ok (a, rest)) : (p >>= f) bytes = f a rest := by
  simp only [Bind.bind, h]

theorem bind_of_error {err : ε} (h : p bytes = .error err) : (p >>= f) bytes = .error err := by
  simp only [Bind.bind, h]

theorem bind_ok {b : β} (h : (p >>= f) bytes = .ok (b, rest)) :
    ∃ a mid, p bytes = .ok (a, mid) ∧ f a mid = .ok (b, rest) := by
  cases hp : p bytes with
  | error err =>
    rw [bind_of_error hp] at h
    cases h
  | ok r =>
    obtain ⟨a, mid⟩ := r
    rw [bind_of_ok hp] at h
    exact ⟨a, mid, rfl, h⟩

theorem map_fst_ok (h : (p bytes).map Prod.fst = .ok a) : ∃ rest, p bytes = .ok (a, rest) := by
  cases hp : p bytes with
  | error err =>
    rw [hp] at h
    cases h
  | ok r =>
    rw [hp] at h
    cases h
    exact ⟨r.2, rfl⟩

theorem remaining_bind (f : Nat → Parser ε β) (bytes : List UInt8) :
    (remaining >>= f) bytes = f bytes.length bytes := rfl

/-! ## What is read -/

/-- The parser reads `a` from exactly these bytes, and fails with `short` on a part of them. -/
structure Reads (short : ε) (p : Parser ε α) (bytes : List UInt8) (a : α) : Prop where
  ok : ∀ rest, p (bytes ++ rest) = .ok (a, rest)
  cut : ∀ front, front <+: bytes → front.length < bytes.length → p front = .error short

theorem Reads.all (h : Reads short p bytes a) : p bytes = .ok (a, []) := by
  have hok := h.ok []
  rwa [List.append_nil] at hok

theorem Reads.pure (a : α) : Reads short (Pure.pure a : Parser ε α) [] a where
  ok rest := rfl
  cut front _ hlt := by
    rw [List.length_nil] at hlt
    omega

/-- A cut of two parts is a cut of the first, or the first and a cut of the second. -/
theorem cut_append {l l' front : List UInt8} (h : front <+: l ++ l') :
    front <+: l ∧ front.length < l.length ∨ ∃ back, front = l ++ back ∧ back <+: l' := by
  by_cases hlt : front.length < l.length
  · exact Or.inl ⟨List.prefix_of_prefix_length_le h (List.prefix_append l l') (by omega), hlt⟩
  · obtain ⟨back, rfl⟩ := List.prefix_of_prefix_length_le (List.prefix_append l l') h (by omega)
    exact Or.inr ⟨back, rfl, (List.prefix_append_right_inj l).mp h⟩

/-- A cut of what two parsers read makes the first fail, or the second on its part. -/
theorem bind_cut {bytes' : List UInt8} (h : Reads short p bytes a) {front : List UInt8}
    (hfront : front <+: bytes ++ bytes') :
    (p >>= f) front = .error short ∧ front.length < bytes.length ∨
      ∃ back, front = bytes ++ back ∧ back <+: bytes' ∧ (p >>= f) front = f a back := by
  rcases cut_append hfront with ⟨hcut, hlt⟩ | ⟨back, rfl, hback⟩
  · exact Or.inl ⟨bind_of_error (h.cut front hcut hlt), hlt⟩
  · exact Or.inr ⟨back, rfl, hback, bind_of_ok (h.ok back)⟩

theorem Reads.bind {bytes' : List UInt8} {b : β} (h : Reads short p bytes a)
    (hf : Reads short (f a) bytes' b) : Reads short (p >>= f) (bytes ++ bytes') b where
  ok rest := by
    rw [List.append_assoc, bind_of_ok (h.ok _)]
    exact hf.ok rest
  cut front hfront hlt := by
    rcases bind_cut (f := f) h hfront with ⟨herr, -⟩ | ⟨back, rfl, hback, heq⟩
    · exact herr
    · rw [List.length_append, List.length_append] at hlt
      rw [heq]
      exact hf.cut back hback (by omega)

/-- A check between two reads. -/
theorem Reads.lift_bind {x : Except ε β} {b : β} {g : β → Parser ε α} (hx : x = .ok b)
    (h : Reads short (g b) bytes a) : Reads short (Parser.lift x >>= g) bytes a := by
  subst hx
  exact h

/-- A check after the last read. -/
theorem Reads.check {g : α → Except ε β} {b : β} (h : Reads short p bytes a) (hg : g a = .ok b) :
    Reads short (p >>= fun a => Parser.lift (g a)) bytes b := by
  have hlift : Reads short (Parser.lift (g a)) [] b := by
    rw [hg]
    exact .pure b
  have hbind : Reads short (p >>= fun a => Parser.lift (g a)) (bytes ++ []) b := h.bind hlift
  rwa [List.append_nil] at hbind

/-- The last step of a reader. -/
theorem Reads.map {g : α → β} (h : Reads short p bytes a) :
    Reads short (p >>= fun a => Pure.pure (g a)) bytes (g a) := by
  have hbind := h.bind (f := fun a => Pure.pure (g a)) (Reads.pure (g a))
  rwa [List.append_nil] at hbind

theorem Reads.many {enc : α → List UInt8} {l : List α} (h : ∀ a ∈ l, Reads short p (enc a) a) :
    Reads short (many p l.length) (l.flatMap enc) l := by
  induction l with
  | nil => exact .pure []
  | cons a l ih =>
    rw [List.flatMap_cons]
    refine (h a List.mem_cons_self).bind ?_
    exact (ih fun b hb => h b (List.mem_cons_of_mem a hb)).map

theorem reads_take (bytes : List UInt8) :
    Reads short (take short bytes.length) bytes bytes where
  ok rest := by
    unfold take
    rw [if_neg (by rw [List.length_append]; omega), List.take_left, List.drop_left]
  cut front _ hlt := if_pos hlt

/-! ## What is returned -/

/-- All that a parser returns has a property. -/
def Yields (P : α → Prop) (p : Parser ε α) : Prop :=
  ∀ bytes a rest, p bytes = .ok (a, rest) → P a

theorem Yields.bind {P : α → Prop} {Q : β → Prop} (h : Yields P p) (hf : ∀ a, P a → Yields Q (f a)) :
    Yields Q (p >>= f) := by
  intro bytes b rest hb
  obtain ⟨a, mid, ha, hb⟩ := bind_ok hb
  exact hf a (h bytes a mid ha) mid b rest hb

theorem Yields.pure {P : α → Prop} {a : α} (h : P a) : Yields P (Pure.pure a : Parser ε α) := by
  intro bytes a' rest ha
  cases ha
  exact h

theorem Yields.fail {P : α → Prop} (err : ε) : Yields P (Parser.fail err : Parser ε α) := by
  intro bytes a rest ha
  cases ha

theorem Yields.any (p : Parser ε α) : Yields (fun _ => True) p := fun _ _ _ _ => trivial

theorem Yields.mono {P Q : α → Prop} (h : Yields P p) (hpq : ∀ a, P a → Q a) : Yields Q p :=
  fun bytes a rest ha => hpq a (h bytes a rest ha)

theorem Yields.lift {P : α → Prop} {x : Except ε α} (h : ∀ a, x = .ok a → P a) :
    Yields P (Parser.lift x) := by
  intro bytes a rest ha
  cases x with
  | error err => cases ha
  | ok a' =>
    cases ha
    exact h a rfl

theorem Yields.many {P : α → Prop} (h : Yields P p) (n : Nat) :
    Yields (fun l => l.length = n ∧ ∀ a ∈ l, P a) (many p n) := by
  induction n with
  | zero => exact .pure ⟨rfl, fun _ h => (by cases h)⟩
  | succ n ih =>
    refine h.bind fun a ha => ih.bind fun l hl => .pure ⟨by rw [List.length_cons, hl.1], ?_⟩
    intro b hb
    rcases List.mem_cons.mp hb with rfl | hb
    · exact ha
    · exact hl.2 b hb

theorem yields_take (short : ε) (n : Nat) :
    Yields (fun bytes => bytes.length = n) (take short n) := by
  intro bytes a rest ha
  unfold take at ha
  split at ha
  · cases ha
  · rename_i hle
    cases ha
    rw [List.length_take]
    omega

/-- When the parser returns, what it has read of the bytes is the encoding of its value. -/
def Spells (enc : α → List UInt8) (p : Parser ε α) : Prop :=
  ∀ bytes a rest, p bytes = .ok (a, rest) → bytes = enc a ++ rest

/-- The first of two readers. -/
theorem Spells.bind_ok {enc : α → List UInt8} (h : Spells enc p) {b : β}
    (hb : (p >>= f) bytes = .ok (b, rest)) :
    ∃ a mid, p bytes = .ok (a, mid) ∧ bytes = enc a ++ mid ∧ f a mid = .ok (b, rest) := by
  obtain ⟨a, mid, ha, hf⟩ := Parser.bind_ok hb
  exact ⟨a, mid, ha, h bytes a mid ha, hf⟩

theorem Spells.lift (x : Except ε α) : Spells (fun _ => []) (Parser.lift x) := by
  intro bytes a rest ha
  cases x with
  | error err => cases ha
  | ok a' => cases ha; rfl

theorem Spells.many {enc : α → List UInt8} (h : Spells enc p) (n : Nat) :
    Spells (fun l => l.flatMap enc) (many p n) := by
  induction n with
  | zero =>
    intro bytes l rest hl
    cases hl
    rfl
  | succ n ih =>
    intro bytes l rest hl
    obtain ⟨a, mid, -, hbytes, hl⟩ := h.bind_ok hl
    obtain ⟨l', mid', -, hmid, hl⟩ := ih.bind_ok hl
    cases hl
    rw [hbytes, hmid, ← List.append_assoc]
    rfl

theorem spells_take (short : ε) (n : Nat) : Spells id (take short n) := by
  intro bytes a rest ha
  unfold take at ha
  split at ha
  · cases ha
  · cases ha
    exact (List.take_append_drop n bytes).symm

/-- All errors of a parser have a property. -/
def Throws (E : ε → Prop) (p : Parser ε α) : Prop := ∀ bytes err, p bytes = .error err → E err

theorem Throws.bind {E : ε → Prop} (h : Throws E p) (hf : ∀ a, Throws E (f a)) : Throws E (p >>= f) := by
  intro bytes err herr
  cases hp : p bytes with
  | error err' =>
    rw [bind_of_error hp] at herr
    cases herr
    exact h bytes err hp
  | ok r =>
    rw [bind_of_ok (show p bytes = .ok (r.1, r.2) from hp)] at herr
    exact hf r.1 r.2 err herr

theorem Throws.pure {E : ε → Prop} (a : α) : Throws E (Pure.pure a : Parser ε α) := by
  intro bytes err herr
  cases herr

theorem Throws.remaining {E : ε → Prop} : Throws E (remaining : Parser ε Nat) := by
  intro bytes err herr
  cases herr

theorem Throws.fail {E : ε → Prop} {err : ε} (h : E err) : Throws E (Parser.fail err : Parser ε α) := by
  intro bytes err' herr
  cases herr
  exact h

theorem Throws.lift {E : ε → Prop} {x : Except ε α} (h : ∀ err, x = .error err → E err) :
    Throws E (Parser.lift x) := by
  intro bytes err herr
  cases x with
  | error err' =>
    cases herr
    exact h err rfl
  | ok a => cases herr

theorem throws_take {E : ε → Prop} {short : ε} (h : E short) (n : Nat) : Throws E (take short n) := by
  intro bytes err herr
  unfold take at herr
  split at herr
  · cases herr
    exact h
  · cases herr

theorem Throws.many {E : ε → Prop} (h : Throws E p) : ∀ n, Throws E (many p n)
  | 0 => .pure _
  | n + 1 => h.bind fun _ => (Throws.many h n).bind fun _ => .pure _

/-- On these bytes, the errors of the parser have a property. -/
def ThrowsOn (E : ε → Prop) (p : Parser ε α) (bytes : List UInt8) : Prop :=
  ∀ err, p bytes = .error err → E err

/-- On these bytes, what the parser returns has a property. -/
def YieldsOn (P : α → Prop) (p : Parser ε α) (bytes : List UInt8) : Prop :=
  ∀ a rest, p bytes = .ok (a, rest) → P a

theorem Throws.on {E : ε → Prop} (h : Throws E p) (bytes : List UInt8) : ThrowsOn E p bytes := h bytes

/-- The errors of two parsers in a row. -/
theorem throwsOn_bind {E : ε → Prop} : ThrowsOn E (p >>= f) bytes ↔
    ThrowsOn E p bytes ∧ ∀ a rest, p bytes = .ok (a, rest) → ThrowsOn E (f a) rest := by
  unfold ThrowsOn
  cases hp : p bytes with
  | error err => simp [bind_of_error hp]
  | ok r =>
    obtain ⟨a, rest⟩ := r
    simp [bind_of_ok hp]

theorem yieldsOn_bind {Q : β → Prop} : YieldsOn Q (p >>= f) bytes ↔
    ∀ a rest, p bytes = .ok (a, rest) → YieldsOn Q (f a) rest := by
  unfold YieldsOn
  cases hp : p bytes with
  | error err => simp [bind_of_error hp]
  | ok r =>
    obtain ⟨a, rest⟩ := r
    simp [bind_of_ok hp]

/-- After a reader with good errors, what goes wrong is what goes wrong then. -/
theorem Throws.on_bind_iff {γ : Type} {E : ε → Prop} {Q : γ → Prop} {g : α → Parser ε γ}
    (h : Throws E p)
    (hf : ∀ a rest, p bytes = .ok (a, rest) → (ThrowsOn E (f a) rest ↔ YieldsOn Q (g a) rest)) :
    ThrowsOn E (p >>= f) bytes ↔ YieldsOn Q (p >>= g) bytes := by
  rw [throwsOn_bind, yieldsOn_bind, and_iff_right (h.on bytes)]
  exact forall_congr' fun a => forall_congr' fun rest => forall_congr' (hf a rest)

/-- A parser that returns has read at least `n` bytes. -/
def Consumes (n : Nat) (p : Parser ε α) : Prop :=
  ∀ bytes a rest, p bytes = .ok (a, rest) → rest.length + n ≤ bytes.length

theorem Consumes.bind {n k : Nat} (h : Consumes n p) (hf : ∀ a, Consumes (k - n) (f a)) :
    Consumes k (p >>= f) := by
  intro bytes b rest hb
  obtain ⟨a, mid, ha, hb⟩ := bind_ok hb
  have hfirst := h bytes a mid ha
  have hsecond := hf a mid b rest hb
  omega

theorem Consumes.pure (a : α) : Consumes 0 (Pure.pure a : Parser ε α) := by
  intro bytes b rest hb
  cases hb
  exact Nat.le_refl _

theorem Consumes.lift (x : Except ε α) : Consumes 0 (Parser.lift x) := by
  intro bytes a rest ha
  cases x with
  | error err => cases ha
  | ok a' =>
    cases ha
    exact Nat.le_refl _

theorem consumes_take (short : ε) (n : Nat) : Consumes n (take short n) := by
  intro bytes a rest ha
  unfold take at ha
  split at ha
  · cases ha
  · cases ha
    rw [List.length_drop]
    omega

end Parser

/-! ## Integers -/

/-- The `w` little-endian bytes of a number, with what is above them cut off. -/
def natToLe : Nat → Nat → List UInt8
  | 0, _ => []
  | w + 1, n => UInt8.ofNat n :: natToLe w (n / 256)

/-- The number of little-endian bytes. -/
def natOfLe : List UInt8 → Nat
  | [] => 0
  | byte :: bytes => byte.toNat + 256 * natOfLe bytes

@[simp] theorem length_natToLe (w n : Nat) : (natToLe w n).length = w := by
  induction w generalizing n with
  | zero => rfl
  | succ w ih => rw [natToLe, List.length_cons, ih]

theorem natOfLe_natToLe {w n : Nat} (h : n < 256 ^ w) : natOfLe (natToLe w n) = n := by
  induction w generalizing n with
  | zero =>
    rw [pow_zero] at h
    rw [natToLe, natOfLe]
    omega
  | succ w ih =>
    have hdiv : n / 256 < 256 ^ w := by
      rw [Nat.div_lt_iff_lt_mul (by decide), ← pow_succ]
      exact h
    rw [natToLe, natOfLe, ih hdiv, UInt8.toNat_ofNat']
    omega

theorem natToLe_natOfLe (bytes : List UInt8) : natToLe bytes.length (natOfLe bytes) = bytes := by
  induction bytes with
  | nil => rfl
  | cons byte bytes ih =>
    have hlt := byte.toNat_lt
    have hdiv : (byte.toNat + 256 * natOfLe bytes) / 256 = natOfLe bytes := by omega
    have hlow : UInt8.ofNat (byte.toNat + 256 * natOfLe bytes) = byte := by
      rw [← UInt8.toNat_inj, UInt8.toNat_ofNat']
      omega
    rw [List.length_cons, natOfLe, natToLe, hdiv, ih, hlow]

theorem natOfLe_lt (bytes : List UInt8) : natOfLe bytes < 256 ^ bytes.length := by
  induction bytes with
  | nil => exact Nat.one_pos
  | cons byte bytes ih =>
    have hbyte := byte.toNat_lt
    rw [natOfLe, List.length_cons, pow_succ]
    omega

namespace Parser

variable {ε : Type}

/-- A number in `w` little-endian bytes. -/
def natLe (short : ε) (w : Nat) : Parser ε Nat := do
  let bytes ← take short w
  pure (natOfLe bytes)

theorem reads_natLe {short : ε} {w n : Nat} (h : n < 256 ^ w) :
    Reads short (natLe short w) (natToLe w n) n := by
  have htake : Reads short (take short (natToLe w n).length) (natToLe w n) (natToLe w n) := reads_take _
  have hread := htake.map (g := natOfLe)
  rw [length_natToLe, natOfLe_natToLe h] at hread
  exact hread

theorem yields_natLe (short : ε) (w : Nat) : Yields (· < 256 ^ w) (natLe short w) := by
  refine (yields_take short w).bind fun bytes hlen => .pure ?_
  rw [← hlen]
  exact natOfLe_lt bytes

theorem spells_natLe (short : ε) (w : Nat) : Spells (natToLe w) (natLe short w) := by
  intro bytes n rest hn
  obtain ⟨digits, mid, ha, hbytes, hn⟩ := (spells_take short w).bind_ok hn
  cases hn
  have hlen := yields_take short w _ _ _ ha
  have hdigits := natToLe_natOfLe digits
  rw [hlen] at hdigits
  rw [hbytes, hdigits]
  rfl

theorem throws_natLe {E : ε → Prop} {short : ε} (h : E short) (w : Nat) : Throws E (natLe short w) :=
  (throws_take h w).bind fun _ => .pure _

theorem consumes_natLe (short : ε) (w : Nat) : Consumes w (natLe short w) := by
  refine (consumes_take short w).bind fun _ => ?_
  rw [Nat.sub_self]
  exact .pure _

end Parser

end Lib
