import Globacl.Core.Json

/-!
# Request paths (`globacl-core/src/lib/http.rs`, `codec.rs`)

A request path is a route, and after a question mark pairs of a key and a value, percent-encoded.

* `queryPairs_append`, `insertPair_append`: a query is read pair by pair.
-/

namespace Globacl

open Lib

/-! ## Percent encoding -/

/-- The byte is in the middle of a UTF-8 sequence, so no character starts there. -/
def isContinuation (byte : UInt8) : Bool := 0x80 ≤ byte && byte ≤ 0xbf

/-- `char::to_digit(16)`. -/
def toHexDigit (byte : UInt8) : Option UInt8 :=
  if 48 ≤ byte ∧ byte ≤ 57 then some (byte - 48)
  else if 97 ≤ byte ∧ byte ≤ 102 then some (byte - 87)
  else if 65 ≤ byte ∧ byte ≤ 70 then some (byte - 55)
  else none

/-- `u8::from_str_radix(_, 16)` of two bytes. The first may be a plus sign. -/
def fromStrRadix16 (high low : UInt8) : Option UInt8 :=
  if high = 43 then toHexDigit low
  else
    match toHexDigit high, toHexDigit low with
    | some high, some low => some (high * 16 + low)
    | _, _ => none

/-- The loop of `percent_decode`. To slice a text where no character starts panics. -/
def percentDecodeBytes : List UInt8 → Result (List UInt8)
  | [] => .ok []
  | byte :: rest =>
    if byte = 43 then (percentDecodeBytes rest).map (32 :: ·)
    else
      match rest with
      | high :: low :: rest' =>
        if byte = 37 then
          if isContinuation high || rest'.head?.any isContinuation then
            .error (.panicked "byte index is not a char boundary")
          else
            match fromStrRadix16 high low with
            | some hex => (percentDecodeBytes rest').map (hex :: ·)
            | none => (percentDecodeBytes (high :: low :: rest')).map (byte :: ·)
        else (percentDecodeBytes (high :: low :: rest')).map (byte :: ·)
      | rest => (percentDecodeBytes rest).map (byte :: ·)

/-- `percent_decode`. -/
def percentDecode (value : String) : Result String :=
  (percentDecodeBytes (utf8 value)).map fromUtf8Lossy

/-- A byte that is neither a plus nor a percent sign stays. -/
theorem percentDecodeBytes_cons {byte : UInt8} (h : byte ≠ 43) (h' : byte ≠ 37)
    (rest : List UInt8) :
    percentDecodeBytes (byte :: rest) = (percentDecodeBytes rest).map (byte :: ·) := by
  match rest with
  | [] => simp [percentDecodeBytes, h]
  | [_] => simp [percentDecodeBytes, h]
  | _ :: _ :: _ => rw [percentDecodeBytes, if_neg h, if_neg h']

/-! ## Paths -/

/-- `str::split_once`. -/
def splitOnce (sep : Char) (value : String) : Option (String × String) :=
  match value.toList.span (· != sep) with
  | (before, _ :: after) => some (String.ofList before, String.ofList after)
  | (_, []) => none

/-- `query.split('&').filter(|pair| !pair.is_empty())`. -/
def queryPairs (query : String) : List String :=
  ((query.toList.splitOn '&').map String.ofList).filter fun pair => pair ≠ ""

/-- The body of the loop of `parse_query_path`. -/
def insertPair (params : Form) (pair : String) : Result Form := do
  let (key, value) := (splitOnce '=' pair).getD (pair, "")
  let key ← percentDecode key
  let value ← percentDecode value
  pure (params.insert key value)

/-- `parse_query_path`. -/
def parseQueryPath (path : String) : Result (String × Form) := do
  let (route, query) := (splitOnce '?' path).getD (path, "")
  let params ← (queryPairs query).foldlM insertPair ∅
  pure (route, params)

theorem splitOnce_append {sep : Char} {before : String} (after : String)
    (h : sep ∉ before.toList) :
    splitOnce sep (before ++ String.singleton sep ++ after) = some (before, after) := by
  have hspan : (before ++ String.singleton sep ++ after).toList.span (· != sep) =
      (before.toList, sep :: after.toList) := by
    rw [String.toList_append, String.toList_append, String.toList_singleton, List.append_assoc,
      List.singleton_append, List.span_eq_takeWhile_dropWhile, List.takeWhile_append_of_pos,
      List.dropWhile_append_of_pos]
    · simp
    · intro c hc
      exact bne_iff_ne.mpr fun heq => h (heq ▸ hc)
    · intro c hc
      exact bne_iff_ne.mpr fun heq => h (heq ▸ hc)
  unfold splitOnce
  rw [hspan]
  simp only [String.ofList_toList]

theorem queryPairs_singleton {pair : String} (h : '&' ∉ pair.toList) (hne : pair ≠ "") :
    queryPairs pair = [pair] := by
  unfold queryPairs
  rw [List.splitOn_eq_singleton h, List.map_singleton, String.ofList_toList]
  simp [hne]

theorem queryPairs_append {pair : String} (rest : String) (h : '&' ∉ pair.toList) (hne : pair ≠ "") :
    queryPairs (pair ++ String.singleton '&' ++ rest) = pair :: queryPairs rest := by
  unfold queryPairs
  rw [String.toList_append, String.toList_append, String.toList_singleton, List.append_assoc,
    List.singleton_append, List.splitOn_append_cons_self_of_not_mem h, List.map_cons,
    String.ofList_toList, List.filter_cons, if_pos (decide_eq_true hne)]

/-- A pair is read as what its key and its value decode to. -/
theorem insertPair_append {key value key' value' : String} (params : Form) (h : '=' ∉ key.toList)
    (hkey : percentDecode key = .ok key') (hvalue : percentDecode value = .ok value') :
    insertPair params (key ++ String.singleton '=' ++ value) = .ok (params.insert key' value') := by
  unfold insertPair
  rw [splitOnce_append value h, Option.getD_some]
  dsimp only
  rw [hkey, ok_bind, hvalue, ok_bind]
  rfl

end Globacl
