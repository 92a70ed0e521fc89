import Globacl.Core.Codec
import Globacl.Core.Rules
import Globacl.Lib.Runs

/-!
# JSON objects (`globacl-core/src/lib/http.rs`, `codec.rs`)

The code writes and reads JSON with `serde_json`, which is a parameter here (`SerdeJson`), and reads
an object as a map of texts. What is assumed of `serde_json` on an object is `SerdeJson.Restores`.

* `parseUnsigned_toString`: a number is read back from its decimal text.
* `parseJsonFields_toString`: an object of plain values is read back as the map of their texts.
-/

namespace Globacl

open Lib

/-! ## Numbers in decimal -/

theorem le_ofDigitChars (cs : List Char) (n : Nat) : n ≤ Nat.ofDigitChars 10 cs n := by
  induction cs generalizing n with
  | nil => exact Nat.le_refl n
  | cons c cs ih =>
    rw [Nat.ofDigitChars_cons]
    have := ih (10 * n + (c.toNat - '0'.toNat))
    omega

/-- Digits are read as the number that they spell, if it fits. -/
theorem parseDigits_ofDigitChars {bound : Nat} {cs : List Char} (hcs : ∀ c ∈ cs, c.isDigit = true)
    {n : Nat} (hle : Nat.ofDigitChars 10 cs n ≤ bound) :
    parseDigits bound cs n = .ok (Nat.ofDigitChars 10 cs n) := by
  induction cs generalizing n with
  | nil => rfl
  | cons c cs ih =>
    have hmul : n * 10 + (c.toNat - '0'.toNat) = 10 * n + (c.toNat - '0'.toNat) := by omega
    rw [Nat.ofDigitChars_cons] at hle ⊢
    have hnext := (le_ofDigitChars cs _).trans hle
    rw [parseDigits, if_pos (hcs c List.mem_cons_self)]
    dsimp only
    rw [hmul, if_neg (by omega)]
    exact ih (fun c hc => hcs c (List.mem_cons_of_mem _ hc)) hle

theorem isDigit_of_mem_toString {n : Nat} {c : Char} (hc : c ∈ (toString n).toList) :
    c.isDigit = true := by
  rw [Nat.toString_eq_repr, Nat.toList_repr] at hc
  exact Nat.isDigit_of_mem_toDigits (by decide) (by decide) hc

theorem toString_toList_ne_nil (n : Nat) : (toString n).toList ≠ [] := by
  rw [Nat.toString_eq_repr, Nat.toList_repr]
  exact Nat.toDigits_ne_nil

/-- A number is read back from its decimal text. -/
theorem parseUnsigned_toString {bound n : Nat} (h : n ≤ bound) :
    parseUnsigned bound (toString n) = .ok n := by
  have hdigits : ∀ c ∈ (toString n).toList, c.isDigit = true := fun c => isDigit_of_mem_toString
  have hvalue : Nat.ofDigitChars 10 (toString n).toList 0 = n := by
    rw [Nat.toString_eq_repr, Nat.toList_repr, Nat.ofDigitChars_ten_toDigits]
  have hparse : parseDigits bound (toString n).toList 0 = .ok n := by
    rw [parseDigits_ofDigitChars hdigits (by rwa [hvalue]), hvalue]
  have hne := toString_toList_ne_nil n
  unfold parseUnsigned
  generalize (toString n).toList = cs at *
  cases cs with
  | nil => exact absurd rfl hne
  | cons c cs =>
    have hplus : c ≠ '+' := by
      rintro rfl
      exact absurd (hdigits '+' List.mem_cons_self) (by decide)
    split
    · contradiction
    · simp_all
    · simp_all
    · exact hparse

/-! ## Trimming -/

theorem isWhitespace_of_isDigit {c : Char} (h : c.isDigit = true) : isWhitespace c = false := by
  have hc : 48 ≤ c.toNat ∧ c.toNat ≤ 57 := by
    simp only [Char.isDigit, Bool.and_eq_true, decide_eq_true_eq, ge_iff_le,
      UInt32.le_iff_toNat_le] at h
    exact h
  simp only [isWhitespace, Bool.or_eq_false_iff, Bool.and_eq_false_iff, decide_eq_false_iff_not,
    beq_eq_false_iff_ne, ne_eq]
  omega

/-- A text that neither starts nor ends with white space. -/
theorem trim_eq_self {value : String} (hhead : ∀ c ∈ value.toList.head?, isWhitespace c = false)
    (hlast : ∀ c ∈ value.toList.getLast?, isWhitespace c = false) : trim value = value := by
  have hdrop : ∀ {cs : List Char}, (∀ c ∈ cs.head?, isWhitespace c = false) →
      cs.dropWhile isWhitespace = cs := by
    intro cs h
    cases cs with
    | nil => rfl
    | cons c cs => exact List.dropWhile_cons_of_neg (by rw [h c rfl]; decide)
  unfold trim trimEndMatches
  rw [hdrop hhead, hdrop (by rw [List.head?_reverse]; exact hlast), List.reverse_reverse,
    String.ofList_toList]

/-- A text without white space. -/
theorem trim_of_forall {value : String} (h : ∀ c ∈ value.toList, isWhitespace c = false) :
    trim value = value :=
  trim_eq_self (fun c hc => h c (List.mem_of_mem_head? hc)) fun c hc =>
    h c (List.mem_of_mem_getLast? hc)

theorem trim_toString (n : Nat) : trim (toString n) = toString n :=
  trim_of_forall fun _ hc => isWhitespace_of_isDigit (isDigit_of_mem_toString hc)

/-! ## Objects -/

/-- `serde_json::Value`. A number is the text that it is printed as. -/
inductive Json where
  | null
  | bool (value : Bool)
  | number (text : String)
  | string (value : String)
  | array (values : List Json)
  | object (fields : List (String × Json))

/-- `serde_json::Number::from`. -/
def Json.ofNat (value : Nat) : Json := .number (toString value)

/-- `serde_json`: how a value is printed, and how a text is read. -/
structure SerdeJson where
  toString : Json → String
  fromStr : String → Except String Json

/-- The object is printed in braces, and its text is read as an object with the same fields, in the
order that the map of `serde_json` gives them. -/
structure SerdeJson.Restores (serde : SerdeJson) (fields : List (String × Json)) : Prop where
  braces : ∃ text, serde.toString (.object fields) = "\x7b" ++ text ++ "\x7d"
  parse : ∃ fields', serde.fromStr (serde.toString (.object fields)) = .ok (.object fields') ∧
    fields'.Perm fields

/-- `json_field_to_string`. -/
def jsonFieldToString (serde : SerdeJson) : Json → String
  | .null => ""
  | .bool value => if value then "true" else "false"
  | .number text => text
  | .string value => value
  | value => serde.toString value

/-- The fields of an object as texts, by their names. -/
abbrev Form := HashMap String String

/-- The loop of `json_object_to_string_map`. -/
def fieldsToForm (serde : SerdeJson) (fields : List (String × Json)) : Form :=
  fields.foldl (fun form field => form.insert field.1 (jsonFieldToString serde field.2)) ∅

/-- `json_object_to_string_map`. -/
def jsonObjectToStringMap (serde : SerdeJson) : Json → Result Form
  | .object fields => .ok (fieldsToForm serde fields)
  | _ => .error (.parse "expected JSON object body")

/-- `parse_json_fields`. The text of the UTF-8 error is left out. -/
def parseJsonFields (serde : SerdeJson) (body : List UInt8) : Result Form :=
  match fromUtf8 body with
  | none => .error (.parse "request body is not utf8")
  | some text =>
    if (trim text).toList.head? ≠ some '{' then .error (.parse "expected JSON object body")
    else
      match serde.fromStr (trim text) with
      | .error err => .error (.parse s!"json error: {err}")
      | .ok value => jsonObjectToStringMap serde value

/-- `parse_json_body`. The text of the UTF-8 error is left out. -/
def parseJsonBody (serde : SerdeJson) (body : List UInt8) : Result Json :=
  match fromUtf8 body with
  | none => .error (.parse "json error")
  | some text =>
    match serde.fromStr text with
    | .error err => .error (.parse s!"json error: {err}")
    | .ok value => .ok value

/-- `Value::get`. -/
def Json.get (value : Json) (key : String) : Option Json :=
  match value with
  | .object fields => (fields.find? fun field => field.1 = key).map Prod.snd
  | _ => none

/-- `Value::as_array`. -/
def Json.asArray : Json → Option (List Json)
  | .array values => some values
  | _ => none

/-- `required`. -/
def required (form : Form) (key : String) : Result String :=
  match (form.lookup key).filter fun value => trim value ≠ "" with
  | some value => .ok value
  | none => .error (.parse s!"missing required field {key}")

/-- `parse_u64` of a field. -/
def parseU64 (value : Option String) (default : Nat) (field : String) : Result Nat :=
  match value.filter fun value => trim value ≠ "" with
  | some value =>
    match parseUnsigned (2 ^ 64 - 1) (trim value) with
    | .ok n => .ok n
    | .error err => .error (.parse s!"invalid {field}: {err}")
  | none => .ok default

/-- `parse_u16` of a field. -/
def parseU16 (value : Option String) (field : String) : Result Nat :=
  match value.filter fun value => trim value ≠ "" with
  | some value =>
    match parseUnsigned (2 ^ 16 - 1) (trim value) with
    | .ok n => .ok n
    | .error err => .error (.parse s!"invalid {field}: {err}")
  | none => .error (.parse s!"missing required field {field}")

/-- `parse_usize` of a field, on a machine of 64 bits. -/
def parseUsize (value : Option String) (default : Nat) (field : String) : Result Nat :=
  parseU64 value default field

/-- The text of the field that comes last. -/
theorem lookup_fieldsToForm (serde : SerdeJson) {fields : List (String × Json)}
    (h : (fields.map Prod.fst).Nodup) {key : String} {value : Json} :
    (key, value) ∈ fields → (fieldsToForm serde fields).lookup key = some (jsonFieldToString serde value) :=
  HashMap.lookup_foldl_insert_of_mem (fun field : String × Json => jsonFieldToString serde field.2) h

/-- An object that is printed is read back as the texts of its fields. -/
theorem parseJsonFields_toString {serde : SerdeJson} {fields : List (String × Json)}
    (hserde : serde.Restores fields) (hkeys : (fields.map Prod.fst).Nodup) :
    ∃ form, parseJsonFields serde (utf8 (serde.toString (.object fields))) = .ok form ∧
      ∀ key value, (key, value) ∈ fields → form.lookup key = some (jsonFieldToString serde value) := by
  obtain ⟨text, htext⟩ := hserde.braces
  obtain ⟨fields', hparse, hperm⟩ := hserde.parse
  have hlist : (serde.toString (.object fields)).toList = '{' :: (text.toList ++ ['}']) := by
    rw [htext]
    simp
  have htrim : trim (serde.toString (.object fields)) = serde.toString (.object fields) := by
    refine trim_eq_self (fun c hc => ?_) fun c hc => ?_
    · rw [hlist] at hc
      cases hc
      decide
    · rw [hlist, ← List.cons_append, List.getLast?_concat] at hc
      cases hc
      decide
  refine ⟨fieldsToForm serde fields', ?_, fun key value hmem => ?_⟩
  · unfold parseJsonFields
    rw [fromUtf8_utf8]
    dsimp only
    rw [htrim, hlist, List.head?_cons, if_neg (not_not.mpr rfl), hparse]
    rfl
  · refine lookup_fieldsToForm serde ?_ (hperm.mem_iff.mpr hmem)
    exact (hperm.map Prod.fst).nodup_iff.mpr hkeys

/-- An object that is printed is parsed as a value that has the texts of its fields. -/
theorem parseJsonBody_toString {serde : SerdeJson} {fields : List (String × Json)}
    (hserde : serde.Restores fields) (hkeys : (fields.map Prod.fst).Nodup) :
    ∃ value form, parseJsonBody serde (utf8 (serde.toString (.object fields))) = .ok value ∧
      jsonObjectToStringMap serde value = .ok form ∧
      ∀ key value, (key, value) ∈ fields → form.lookup key = some (jsonFieldToString serde value) := by
  obtain ⟨fields', hparse, hperm⟩ := hserde.parse
  refine ⟨.object fields', fieldsToForm serde fields', ?_, rfl, fun key value hmem => ?_⟩
  · unfold parseJsonBody
    rw [fromUtf8_utf8]
    dsimp only
    rw [hparse]
  · refine lookup_fieldsToForm serde ?_ (hperm.mem_iff.mpr hmem)
    exact (hperm.map Prod.fst).nodup_iff.mpr hkeys

theorem required_of_lookup {form : Form} {key value : String} (h : form.lookup key = some value)
    (hne : trim value ≠ "") : required form key = .ok value := by
  unfold required
  rw [h, Option.filter_some, if_pos (decide_eq_true hne)]

theorem parseU64_toString {n : Nat} (h : n < 2 ^ 64) (default : Nat) (field : String) :
    parseU64 (some (toString n)) default field = .ok n := by
  have hne : toString n ≠ "" := fun heq => toString_toList_ne_nil n (by rw [heq]; rfl)
  unfold parseU64
  rw [Option.filter_some, if_pos (by rw [trim_toString]; exact decide_eq_true hne)]
  dsimp only
  rw [trim_toString, parseUnsigned_toString (by omega)]

theorem parseU16_toString {n : Nat} (h : n < 2 ^ 16) (field : String) :
    parseU16 (some (toString n)) field = .ok n := by
  have hne : toString n ≠ "" := fun heq => toString_toList_ne_nil n (by rw [heq]; rfl)
  unfold parseU16
  rw [Option.filter_some, if_pos (by rw [trim_toString]; exact decide_eq_true hne)]
  dsimp only
  rw [trim_toString, parseUnsigned_toString (by omega)]

theorem parseDigits_le {bound : Nat} {cs : List Char} {n v : Nat} (hn : n ≤ bound)
    (h : parseDigits bound cs n = .ok v) : v ≤ bound := by
  induction cs generalizing n with
  | nil =>
    cases h
    exact hn
  | cons c cs ih =>
    simp only [parseDigits] at h
    split at h
    · split at h
      · cases h
      · exact ih (by omega) h
    · cases h

/-- A number that is parsed fits. -/
theorem parseUnsigned_le {bound : Nat} {value : String} {n : Nat}
    (h : parseUnsigned bound value = .ok n) : n ≤ bound := by
  unfold parseUnsigned at h
  split at h
  · cases h
  · cases h
  · exact parseDigits_le (Nat.zero_le bound) h
  · exact parseDigits_le (Nat.zero_le bound) h

theorem required_trim {form : Form} {key value : String} (h : required form key = .ok value) :
    trim value ≠ "" := by
  unfold required at h
  split at h
  · rename_i found hfound
    cases h
    exact of_decide_eq_true (Option.filter_eq_some_iff.mp hfound).2
  · cases h

theorem parseU64_lt {value : Option String} {default : Nat} {field : String} {n : Nat}
    (hdefault : default < 2 ^ 64) (h : parseU64 value default field = .ok n) : n < 2 ^ 64 := by
  unfold parseU64 at h
  split at h
  · split at h
    · rename_i hn
      cases h
      have := parseUnsigned_le hn
      omega
    · cases h
  · cases h
    exact hdefault

theorem parseU16_lt {value : Option String} {field : String} {n : Nat}
    (h : parseU16 value field = .ok n) : n < 2 ^ 16 := by
  unfold parseU16 at h
  split at h
  · split at h
    · rename_i hn
      cases h
      have := parseUnsigned_le hn
      omega
    · cases h
  · cases h

/-! ## One object -/

/-- How a plain field is printed, if no character of it is escaped. -/
def printField : String × Json → String
  | (key, .number text) => "\"" ++ key ++ "\":" ++ text
  | (key, .string value) => "\"" ++ key ++ "\":\"" ++ value ++ "\""
  | (key, _) => "\"" ++ key ++ "\":null"

/-- What `serde_json` does on one object. -/
def SerdeJson.only (fields : List (String × Json)) : SerdeJson where
  toString _ := "\x7b" ++ ",".intercalate (fields.map printField) ++ "\x7d"
  fromStr _ := .ok (.object fields)

theorem SerdeJson.only_restores (fields : List (String × Json)) :
    (SerdeJson.only fields).Restores fields :=
  ⟨⟨_, rfl⟩, ⟨fields, rfl, .refl _⟩⟩

end Globacl
