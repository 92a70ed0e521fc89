import Globacl.Core.Codec

/-!
# Bytes of texts

A character below 128 is the byte of its code, and no byte of another character is below 128. So a
byte below 128 splits the bytes of a text where the text itself can be split.

* `utf8_split`: the text before and after such a byte.
* `isUtf8_split`: bytes around such a byte are text if and only if both sides are.
* `lines_flatMap`: lines that are written one after the other are read back.
-/

namespace Globacl

open Lib

theorem utf8_append (a b : String) : utf8 (a ++ b) = utf8 a ++ utf8 b := by
  unfold utf8
  rw [String.toByteArray_append, ByteArray.data_append, Array.toList_append]

/-- The bytes of a text are those of its characters. -/
theorem utf8_ofList (cs : List Char) :
    utf8 (String.ofList cs) = cs.flatMap String.utf8EncodeChar := by
  unfold utf8
  rw [String.toByteArray_ofList, List.utf8Encode, List.toList_data_toByteArray]

theorem utf8_eq_flatMap (value : String) :
    utf8 value = value.toList.flatMap String.utf8EncodeChar := by
  rw [← utf8_ofList, String.ofList_toList]

/-- The code of a character below 128 is its only byte. -/
theorem utf8EncodeChar_ascii {c : Char} (h : c.toNat < 128) :
    String.utf8EncodeChar c = [c.toNat.toUInt8] := by
  have hsize : c.utf8Size = 1 := by
    rw [Char.utf8Size_eq_one_iff]
    exact Nat.le_of_lt_succ h
  rw [String.utf8EncodeChar_eq_singleton hsize]
  rfl

theorem le_or_right (a : UInt8) {b : UInt8} (h : 128 ≤ b) : 128 ≤ a ||| b := by
  rw [UInt8.le_iff_toNat_le] at h ⊢
  rw [UInt8.toNat_or]
  exact h.trans Nat.right_le_or

/-- No byte of another character is below 128. -/
theorem le_of_mem_utf8EncodeChar {c : Char} (h : 128 ≤ c.toNat) :
    ∀ byte ∈ String.utf8EncodeChar c, 128 ≤ byte := by
  have hsize : c.utf8Size ≠ 1 := by
    rw [ne_eq, Char.utf8Size_eq_one_iff, UInt32.le_iff_toNat_le]
    exact Nat.not_le_of_lt (Nat.lt_of_lt_of_le (by decide) h)
  have hpos := c.utf8Size_pos
  have hle := c.utf8Size_le_four
  obtain hsize | hsize | hsize : c.utf8Size = 2 ∨ c.utf8Size = 3 ∨ c.utf8Size = 4 := by omega
  · rw [String.utf8EncodeChar_eq_cons_cons hsize]
    simp [le_or_right]
  · rw [String.utf8EncodeChar_eq_cons_cons_cons hsize]
    simp [le_or_right]
  · rw [String.utf8EncodeChar_eq_cons_cons_cons_cons hsize]
    simp [le_or_right]

/-- A byte below 128 is a character of the text, and the others are before or after it. -/
theorem flatMap_utf8EncodeChar_split {cs : List Char} {before after : List UInt8} {byte : UInt8}
    (hbyte : byte < 128) (h : cs.flatMap String.utf8EncodeChar = before ++ byte :: after) :
    ∃ cs₁ c cs₂, cs = cs₁ ++ c :: cs₂ ∧ c.toNat < 128 ∧ c.toNat.toUInt8 = byte ∧
      cs₁.flatMap String.utf8EncodeChar = before ∧ cs₂.flatMap String.utf8EncodeChar = after := by
  induction cs generalizing before with
  | nil =>
    rw [List.flatMap_nil] at h
    exact absurd h.symm (List.append_ne_nil_of_right_ne_nil _ (List.cons_ne_nil _ _))
  | cons c cs ih =>
    rw [List.flatMap_cons] at h
    by_cases hc : c.toNat < 128
    · rw [utf8EncodeChar_ascii hc, List.singleton_append] at h
      cases before with
      | nil =>
        obtain ⟨heq, hafter⟩ := List.cons.inj h
        exact ⟨[], c, cs, rfl, hc, heq, rfl, hafter⟩
      | cons b before =>
        obtain ⟨heq, hrest⟩ := List.cons.inj h
        obtain ⟨cs₁, c', cs₂, rfl, hc', hcode, rfl, rfl⟩ := ih hrest
        refine ⟨c :: cs₁, c', cs₂, rfl, hc', hcode, ?_, rfl⟩
        rw [List.flatMap_cons, utf8EncodeChar_ascii hc, heq]
        rfl
    · have hge := le_of_mem_utf8EncodeChar (Nat.le_of_not_lt hc)
      -- The byte is not among those of `c`, so they are all before it.
      obtain ⟨before', rfl, hrest⟩ | ⟨rest, hchar, hrest⟩ := List.append_eq_append_iff.mp h
      · obtain ⟨cs₁, c', cs₂, rfl, hc', hcode, rfl, rfl⟩ := ih hrest
        exact ⟨c :: cs₁, c', cs₂, rfl, hc', hcode, List.flatMap_cons, rfl⟩
      · cases rest with
        | nil =>
          obtain ⟨cs₁, c', cs₂, rfl, hc', hcode, hbefore, rfl⟩ := @ih [] hrest.symm
          refine ⟨c :: cs₁, c', cs₂, rfl, hc', hcode, ?_, rfl⟩
          rw [List.flatMap_cons, hbefore, hchar, List.append_nil, List.append_nil]
        | cons b rest =>
          have hb : 128 ≤ byte := by
            rw [(List.cons.inj hrest).1]
            exact hge b (hchar ▸ List.mem_append_right _ List.mem_cons_self)
          exact absurd hbyte (UInt8.not_lt.mpr hb)

/-- The text is split at a character whose code is below 128. -/
theorem utf8_split {value : String} {before after : List UInt8} {byte : UInt8} (hbyte : byte < 128)
    (h : utf8 value = before ++ byte :: after) :
    ∃ cs₁ c cs₂, value.toList = cs₁ ++ c :: cs₂ ∧ c.toNat.toUInt8 = byte ∧
      utf8 (String.ofList cs₁) = before ∧ utf8 (String.ofList cs₂) = after := by
  rw [utf8_eq_flatMap] at h
  obtain ⟨cs₁, c, cs₂, hcs, -, hcode, hbefore, hafter⟩ := flatMap_utf8EncodeChar_split hbyte h
  exact ⟨cs₁, c, cs₂, hcs, hcode, by rw [utf8_ofList, hbefore], by rw [utf8_ofList, hafter]⟩

/-- A byte below 128 is the code of a character of the text. -/
theorem mem_of_mem_utf8 {value : String} {byte : UInt8} (hbyte : byte < 128) (h : byte ∈ utf8 value) :
    ∃ c ∈ value.toList, c.toNat.toUInt8 = byte ∧ c.toNat < 128 := by
  obtain ⟨before, after, heq⟩ := List.append_of_mem h
  rw [utf8_eq_flatMap] at heq
  obtain ⟨cs₁, c, cs₂, hcs, hlt, hcode, -, -⟩ := flatMap_utf8EncodeChar_split hbyte heq
  exact ⟨c, hcs ▸ List.mem_append_right _ List.mem_cons_self, hcode, hlt⟩

/-- The bytes are those of a text. -/
def IsUtf8 (bytes : List UInt8) : Prop := ∃ value, utf8 value = bytes

theorem isUtf8_iff {bytes : List UInt8} : IsUtf8 bytes ↔ ∃ value, fromUtf8 bytes = some value := by
  constructor
  · rintro ⟨value, rfl⟩
    exact ⟨value, fromUtf8_utf8 value⟩
  · rintro ⟨value, h⟩
    exact ⟨value, utf8_of_fromUtf8 h⟩

/-- Bytes with one below 128 in them are text if and only if those before it and after it are. -/
theorem isUtf8_split {before after : List UInt8} {byte : UInt8} (hbyte : byte < 128) :
    IsUtf8 (before ++ byte :: after) ↔ IsUtf8 before ∧ IsUtf8 after := by
  constructor
  · rintro ⟨value, h⟩
    obtain ⟨cs₁, c, cs₂, -, -, hbefore, hafter⟩ := utf8_split hbyte h
    exact ⟨⟨_, hbefore⟩, ⟨_, hafter⟩⟩
  · rintro ⟨⟨v₁, rfl⟩, ⟨v₂, rfl⟩⟩
    have hchar : String.utf8EncodeChar (Char.ofNat byte.toNat) = [byte] := by
      have hvalid : byte.toNat.isValidChar := Or.inl (Nat.lt_trans byte.toNat_lt (by decide))
      have hnat : (Char.ofNat byte.toNat).toNat = byte.toNat := by
        rw [Char.ofNat, dif_pos hvalid]
        rfl
      rw [utf8EncodeChar_ascii (by rw [hnat]; exact UInt8.lt_iff_toNat_lt.mp hbyte), hnat]
      simp
    refine ⟨String.ofList (v₁.toList ++ Char.ofNat byte.toNat :: v₂.toList), ?_⟩
    rw [utf8_ofList, List.flatMap_append, List.flatMap_cons, hchar, ← utf8_eq_flatMap,
      ← utf8_eq_flatMap]
    rfl

/-! ## Lines -/

/-- A line without the carriage return before its end; the characters are in reverse. -/
def stripCarriageReturn : List Char → List Char
  | '\r' :: line => line
  | line => line

/-- The loop of `str::lines`, with the characters of the line so far in reverse. -/
def lineChars : List Char → List Char → List (List Char)
  | [], line => if line = [] then [] else [line.reverse]
  | c :: cs, line =>
    if c = '\n' then (stripCarriageReturn line).reverse :: lineChars cs []
    else lineChars cs (c :: line)

/-- `str::lines`. -/
def lines (text : String) : List String := (lineChars text.toList []).map String.ofList

/-- A line that is ended, without a carriage return before its end. -/
theorem lineChars_append {line : List Char} (hline : '\n' ∉ line) (rest start : List Char)
    (hlast : (start.reverse ++ line).getLast? ≠ some '\r') :
    lineChars (line ++ '\n' :: rest) start = (start.reverse ++ line) :: lineChars rest [] := by
  induction line generalizing start with
  | nil =>
    have hstrip : stripCarriageReturn start = start := by
      unfold stripCarriageReturn
      split
      · exact absurd (by simp) hlast
      · rfl
    rw [List.nil_append, lineChars, if_pos rfl, hstrip, List.append_nil]
  | cons c line ih =>
    rw [List.mem_cons, not_or] at hline
    have hstep : (c :: start).reverse ++ line = start.reverse ++ c :: line := by simp
    rw [List.cons_append, lineChars, if_neg (Ne.symm hline.1), ih hline.2 _ (by rwa [hstep]), hstep]

/-- Lines that are written one after the other, each with its end. -/
theorem lines_flatMap {ls : List String}
    (h : ∀ line ∈ ls, '\n' ∉ line.toList ∧ line.toList.getLast? ≠ some '\r') :
    lines (String.ofList (ls.flatMap fun line => line.toList ++ ['\n'])) = ls := by
  unfold lines
  rw [String.toList_ofList]
  induction ls with
  | nil => rfl
  | cons line ls ih =>
    obtain ⟨hline, hlast⟩ := h line List.mem_cons_self
    rw [List.flatMap_cons, List.append_assoc, List.singleton_append,
      lineChars_append hline _ [] (by simpa using hlast), List.map_cons,
      ih fun line hline => h line (List.mem_cons_of_mem _ hline)]
    simp

/-- A line that is ended with a carriage return and a line feed. -/
theorem lineChars_append_crlf {line : List Char} (hline : '\n' ∉ line) (rest start : List Char) :
    lineChars (line ++ '\r' :: '\n' :: rest) start = (start.reverse ++ line) :: lineChars rest [] := by
  induction line generalizing start with
  | nil =>
    rw [List.nil_append, lineChars, if_neg (by decide), lineChars, if_pos rfl, stripCarriageReturn,
      List.append_nil]
  | cons c line ih =>
    rw [List.mem_cons, not_or] at hline
    rw [List.cons_append, lineChars, if_neg (Ne.symm hline.1), ih hline.2]
    simp

/-- The same, each with a carriage return before its end. -/
theorem lines_flatMap_crlf {ls : List String} (h : ∀ line ∈ ls, '\n' ∉ line.toList) :
    lines (String.ofList (ls.flatMap fun line => line.toList ++ ['\r', '\n'])) = ls := by
  unfold lines
  rw [String.toList_ofList]
  induction ls with
  | nil => rfl
  | cons line ls ih =>
    rw [List.flatMap_cons, List.append_assoc, List.cons_append, List.cons_append, List.nil_append,
      lineChars_append_crlf (h line List.mem_cons_self), List.map_cons,
      ih fun line hline => h line (List.mem_cons_of_mem _ hline)]
    simp

end Globacl
