import Globacl.Core.Query
import Globacl.Core.Text
import Mathlib.Data.Bool.AllAny

/-!
# Escapes in request paths

`percent_decode` walks over the bytes of a text and slices the text after each percent sign. Beside
it stands what the escapes of a text mean (`percentScan`).

* `percentDecodeBytes_ok_iff`: which texts are decoded without a panic.
* `percentDecodeBytes_eq_scan`: which of them are decoded to what their escapes mean.
* `parseQueryPath_exact_iff`: the same for the keys and values of a request path.
-/

namespace Globacl

open Lib

/-! ## What escapes mean -/

/-- The byte that two hex digits spell. -/
def spelledByte (high low : UInt8) : Option UInt8 :=
  match toHexDigit high, toHexDigit low with
  | some high, some low => some (high * 16 + low)
  | _, _ => none

/-- From left to right, a percent sign and two hex digits are the byte that they spell, a plus is a
space, and every other byte is itself. -/
def percentScan : List UInt8 → List UInt8
  | [] => []
  | byte :: rest =>
    if byte = 43 then 32 :: percentScan rest
    else
      match rest with
      | high :: low :: rest' =>
        if byte = 37 then
          match spelledByte high low with
          | some hex => hex :: percentScan rest'
          | none => byte :: percentScan (high :: low :: rest')
        else byte :: percentScan (high :: low :: rest')
      | rest => byte :: percentScan rest

theorem percentScan_plus (rest : List UInt8) :
    percentScan (43 :: rest) = 32 :: percentScan rest := by
  rw [percentScan.eq_def]
  dsimp only
  rw [if_pos rfl]

theorem percentScan_short {byte : UInt8} {rest : List UInt8} (hne : byte ≠ 43)
    (h : ∀ high low rest', rest = high :: low :: rest' → False) :
    percentScan (byte :: rest) = byte :: percentScan rest := by
  rw [percentScan.eq_def]
  dsimp only
  rw [if_neg hne]
  split
  · exact (h _ _ _ rfl).elim
  · rfl

/-- Each percent sign with two bytes after it satisfies `p`, on these bytes and the rest. -/
def Escapes (p : UInt8 → UInt8 → List UInt8 → Prop) (bytes : List UInt8) : Prop :=
  ∀ high low rest, 37 :: high :: low :: rest <:+ bytes → p high low rest

/-- No character starts or goes on beyond the two bytes: the text may be sliced there. -/
def OnBoundaries (high _low : UInt8) (rest : List UInt8) : Prop :=
  (isContinuation high || rest.head?.any isContinuation) = false

/-- The two bytes are not a plus sign and a digit. -/
def Unsigned (high low : UInt8) (_rest : List UInt8) : Prop := high = 43 → toHexDigit low = none

section Escapes

variable {p : UInt8 → UInt8 → List UInt8 → Prop} {byte high low : UInt8} {rest : List UInt8}

theorem escapes_nil : Escapes p [] := by
  intro high low rest h
  exact absurd (List.suffix_nil.mp h) (List.cons_ne_nil _ _)

theorem escapes_cons_of_ne (h : byte ≠ 37) : Escapes p (byte :: rest) ↔ Escapes p rest := by
  constructor
  · exact fun hp high low rest' hsuffix => hp high low rest' (hsuffix.trans (List.suffix_cons _ _))
  · intro hp high low rest' hsuffix
    rcases List.suffix_cons_iff.mp hsuffix with heq | hsuffix
    · exact absurd (List.cons.inj heq).1.symm h
    · exact hp high low rest' hsuffix

theorem escapes_percent :
    Escapes p (37 :: high :: low :: rest) ↔ p high low rest ∧ Escapes p (high :: low :: rest) := by
  constructor
  · intro hp
    exact ⟨hp high low rest (List.suffix_refl _), fun high' low' rest' hsuffix =>
      hp high' low' rest' (hsuffix.trans (List.suffix_cons _ _))⟩
  · rintro ⟨hhere, hp⟩ high' low' rest' hsuffix
    rcases List.suffix_cons_iff.mp hsuffix with heq | hsuffix
    · cases heq
      exact hhere
    · exact hp high' low' rest' hsuffix

/-- Too few bytes for an escape. -/
theorem escapes_short (h : ∀ high low rest', rest = high :: low :: rest' → False) :
    Escapes p (byte :: rest) ∧ Escapes p rest := by
  have hshort : Escapes p (byte :: rest) := by
    intro high low rest' hsuffix
    obtain ⟨before, hbefore⟩ := hsuffix
    rcases before with _ | ⟨b, before⟩
    · exact (h high low rest' (List.cons.inj hbefore).2.symm).elim
    · have hrest := (List.cons.inj hbefore).2
      rcases before with _ | ⟨b', _ | ⟨b'', before⟩⟩
      · exact (h _ _ _ hrest.symm).elim
      · exact (h _ _ _ hrest.symm).elim
      · exact (h _ _ _ hrest.symm).elim
  exact ⟨hshort, fun high low rest' hsuffix =>
    hshort high low rest' (hsuffix.trans (List.suffix_cons _ _))⟩

end Escapes

/-! ## Digits -/

theorem toHexDigit_spec : ∀ byte digit, toHexDigit byte = some digit →
    byte < 128 ∧ byte ≠ 37 ∧ byte ≠ 43 ∧ digit < 128 ∧ digit ≠ 37 := by
  have hall : ∀ n : Fin 256, ∀ digit ∈ toHexDigit (UInt8.ofNat n), UInt8.ofNat n < 128 ∧
      UInt8.ofNat n ≠ 37 ∧ UInt8.ofNat n ≠ 43 ∧ digit < 128 ∧ digit ≠ 37 := by
    decide +kernel
  intro byte digit h
  have heq : byte = UInt8.ofNat (⟨byte.toNat, byte.toNat_lt⟩ : Fin 256) := UInt8.ofNat_toNat.symm
  rw [heq] at h ⊢
  exact hall _ digit h

theorem fromStrRadix16_eq (high low : UInt8) :
    fromStrRadix16 high low = if high = 43 then toHexDigit low else spelledByte high low := rfl

theorem spelledByte_plus (low : UInt8) : spelledByte 43 low = none := rfl

/-- The bytes that are read as a number are not percent signs. -/
theorem fromStrRadix16_some {high low hex : UInt8} (h : fromStrRadix16 high low = some hex) :
    high ≠ 37 ∧ low ≠ 37 := by
  rw [fromStrRadix16_eq] at h
  by_cases hplus : high = 43
  · rw [if_pos hplus] at h
    exact ⟨by rw [hplus]; decide, (toHexDigit_spec low hex h).2.1⟩
  · rw [if_neg hplus, spelledByte] at h
    split at h
    · rename_i digit digit' hhigh hlow
      exact ⟨(toHexDigit_spec high digit hhigh).2.1, (toHexDigit_spec low digit' hlow).2.1⟩
    · cases h

section Decoder

variable {p : UInt8 → UInt8 → List UInt8 → Prop} {high low hex : UInt8}
  {rest bytes out : List UInt8}

theorem escapes_read (h : fromStrRadix16 high low = some hex) :
    Escapes p (37 :: high :: low :: rest) ↔ p high low rest ∧ Escapes p rest := by
  obtain ⟨hhigh, hlow⟩ := fromStrRadix16_some h
  rw [escapes_percent, escapes_cons_of_ne hhigh, escapes_cons_of_ne hlow]

/-! ## The decoder -/

/-- A text is decoded without a panic if and only if every slice ends where a character does. -/
theorem percentDecodeBytes_ok_iff (bytes : List UInt8) :
    (∃ out, percentDecodeBytes bytes = .ok out) ↔ Escapes OnBoundaries bytes := by
  have hmap : ∀ (x : UInt8) (r : Result (List UInt8)),
      (∃ out, r.map (x :: ·) = .ok out) ↔ ∃ out, r = .ok out := by
    intro x r
    cases r with
    | error err => simp [Except.map]
    | ok out => simp [Except.map]
  fun_induction percentDecodeBytes bytes with
  | case1 => exact ⟨fun _ => escapes_nil, fun _ => ⟨[], rfl⟩⟩
  | case2 rest ih => exact (hmap _ _).trans (ih.trans (escapes_cons_of_ne (by decide)).symm)
  | case3 high low rest hbad =>
    constructor
    · rintro ⟨out, h⟩
      cases h
    · intro h
      have := (escapes_percent.mp h).1
      rw [OnBoundaries, hbad] at this
      cases this
  | case4 high low rest hbound hex hhex _ ih =>
    refine (hmap _ _).trans (ih.trans ?_)
    rw [escapes_read hhex, OnBoundaries]
    exact (and_iff_right (Bool.eq_false_of_not_eq_true hbound)).symm
  | case5 high low rest hbound hhex _ ih =>
    refine (hmap _ _).trans (ih.trans ?_)
    rw [escapes_percent, OnBoundaries]
    exact (and_iff_right (Bool.eq_false_of_not_eq_true hbound)).symm
  | case6 byte _ high low rest hne ih =>
    exact (hmap _ _).trans (ih.trans (escapes_cons_of_ne hne).symm)
  | case7 byte _ rest hshort ih =>
    obtain ⟨hcons, hrest⟩ := @escapes_short _ byte _ hshort
    exact (hmap _ _).trans (ih.trans (iff_of_true hrest hcons))

/-- A text that is decoded is decoded to what its escapes mean if and only if none of them has a
sign. -/
theorem percentDecodeBytes_eq_scan (h : percentDecodeBytes bytes = .ok out) :
    out = percentScan bytes ↔ Escapes Unsigned bytes := by
  fun_induction percentDecodeBytes bytes generalizing out with
  | case1 =>
    cases h
    exact iff_of_true rfl escapes_nil
  | case2 rest ih =>
    obtain ⟨out, hout, rfl⟩ := map_eq_ok.mp h
    rw [percentScan_plus, List.cons_inj_right, escapes_cons_of_ne (by decide)]
    exact ih hout
  | case3 => cases h
  | case4 high low rest hbound hex hhex hne ih =>
    obtain ⟨out, hout, rfl⟩ := map_eq_ok.mp h
    rw [escapes_read hhex]
    rw [fromStrRadix16_eq] at hhex
    by_cases hplus : high = 43
    · subst hplus
      rw [if_pos rfl] at hhex
      rw [percentScan, if_neg hne, if_pos rfl, spelledByte_plus]
      refine iff_of_false (fun heq => ?_) fun hsign => ?_
      · exact (toHexDigit_spec low hex hhex).2.2.2.2 (List.cons.inj heq).1
      · rw [hsign.1 rfl] at hhex
        cases hhex
    · rw [if_neg hplus] at hhex
      rw [percentScan, if_neg hne, if_pos rfl, hhex]
      dsimp only
      have hunsigned : Unsigned high low rest := fun h => absurd h hplus
      rw [List.cons_inj_right, and_iff_right hunsigned]
      exact ih hout
  | case5 high low rest hbound hhex hne ih =>
    obtain ⟨out, hout, rfl⟩ := map_eq_ok.mp h
    have hnone : spelledByte high low = none ∧ Unsigned high low rest := by
      rw [fromStrRadix16_eq] at hhex
      by_cases hplus : high = 43
      · subst hplus
        rw [if_pos rfl] at hhex
        exact ⟨spelledByte_plus low, fun _ => hhex⟩
      · rw [if_neg hplus] at hhex
        exact ⟨hhex, fun h => absurd h hplus⟩
    rw [percentScan, if_neg hne, if_pos rfl, hnone.1]
    dsimp only
    rw [List.cons_inj_right, escapes_percent, and_iff_right hnone.2]
    exact ih hout
  | case6 byte hne high low rest hne' ih =>
    obtain ⟨out, hout, rfl⟩ := map_eq_ok.mp h
    rw [percentScan, if_neg hne, if_neg hne', List.cons_inj_right, escapes_cons_of_ne hne']
    exact ih hout
  | case7 byte hne rest hshort ih =>
    obtain ⟨out, hout, rfl⟩ := map_eq_ok.mp h
    obtain ⟨hcons, hrest⟩ := @escapes_short Unsigned byte _ hshort
    rw [percentScan_short hne hshort, List.cons_inj_right]
    exact (ih hout).trans (iff_of_true hrest hcons)

/-- Where the escapes mean a text, a text is decoded, be it another one. -/
theorem isUtf8_of_scan {before : List UInt8} (h : percentDecodeBytes bytes = .ok out)
    (hscan : IsUtf8 (before ++ percentScan bytes)) : IsUtf8 (before ++ out) := by
  fun_induction percentDecodeBytes bytes generalizing before out with
  | case1 =>
    cases h
    exact hscan
  | case2 rest ih =>
    obtain ⟨out, hout, rfl⟩ := map_eq_ok.mp h
    rw [percentScan_plus, List.append_cons] at hscan
    rw [List.append_cons]
    exact ih hout hscan
  | case3 => cases h
  | case4 high low rest hbound hex hhex hne ih =>
    obtain ⟨out, hout, rfl⟩ := map_eq_ok.mp h
    rw [fromStrRadix16_eq] at hhex
    by_cases hplus : high = 43
    · -- The sign and the digit are read as one byte, and both sides of them are text.
      subst hplus
      rw [if_pos rfl] at hhex
      obtain ⟨hascii, hpercent, hsign, hvalue, -⟩ := toHexDigit_spec low hex hhex
      have hlow : percentScan (low :: rest) = low :: percentScan rest := by
        rcases rest with _ | ⟨b, _ | ⟨b', rest⟩⟩
        · exact percentScan_short hsign (by rintro _ _ _ ⟨⟩)
        · exact percentScan_short hsign (by rintro _ _ _ ⟨⟩)
        · rw [percentScan, if_neg hsign, if_neg hpercent]
      rw [percentScan, if_neg hne, if_pos rfl, spelledByte_plus] at hscan
      dsimp only at hscan
      rw [percentScan_plus, hlow] at hscan
      obtain ⟨hbefore, hafter⟩ := (isUtf8_split (by decide)).mp hscan
      have hrest := ((@isUtf8_split [32] _ _ hascii).mp hafter).2
      exact (isUtf8_split hvalue).mpr ⟨hbefore, @ih _ [] hout hrest⟩
    · rw [if_neg hplus] at hhex
      rw [percentScan, if_neg hne, if_pos rfl, hhex] at hscan
      dsimp only at hscan
      rw [List.append_cons] at hscan ⊢
      exact ih hout hscan
  | case5 high low rest hbound hhex hne ih =>
    obtain ⟨out, hout, rfl⟩ := map_eq_ok.mp h
    have hnone : spelledByte high low = none := by
      rw [fromStrRadix16_eq] at hhex
      by_cases hplus : high = 43
      · subst hplus
        exact spelledByte_plus low
      · rwa [if_neg hplus] at hhex
    rw [percentScan, if_neg hne, if_pos rfl, hnone] at hscan
    dsimp only at hscan
    rw [List.append_cons] at hscan ⊢
    exact ih hout hscan
  | case6 byte hne high low rest hne' ih =>
    obtain ⟨out, hout, rfl⟩ := map_eq_ok.mp h
    rw [percentScan, if_neg hne, if_neg hne', List.append_cons] at hscan
    rw [List.append_cons]
    exact ih hout hscan
  | case7 byte hne rest hshort ih =>
    obtain ⟨out, hout, rfl⟩ := map_eq_ok.mp h
    rw [percentScan_short hne hshort, List.append_cons] at hscan
    rw [List.append_cons]
    exact ih hout hscan

end Decoder

/-! ## Request paths -/

/-- The text is decoded without a panic, and to the text that its escapes mean, if they mean one. -/
def DecodesExactly (text : String) : Prop :=
  ∃ value, percentDecode text = .ok value ∧
    ∀ exact, fromUtf8 (percentScan (utf8 text)) = some exact → value = exact

/-- Each slice after a percent sign ends where a character does, and if the escapes mean a text, no
percent sign is followed by a plus and a hex digit. -/
def PlainEscapes (text : String) : Prop :=
  Escapes OnBoundaries (utf8 text) ∧
    (IsUtf8 (percentScan (utf8 text)) → Escapes Unsigned (utf8 text))

theorem decodesExactly_iff (text : String) : DecodesExactly text ↔ PlainEscapes text := by
  constructor
  · rintro ⟨value, hvalue, hexact⟩
    obtain ⟨out, hout, rfl⟩ := map_eq_ok.mp hvalue
    refine ⟨(percentDecodeBytes_ok_iff _).mp ⟨out, hout⟩, fun hscan => ?_⟩
    obtain ⟨exact, hvalid⟩ := isUtf8_iff.mp hscan
    obtain ⟨decoded, hdecoded⟩ := isUtf8_iff.mp (@isUtf8_of_scan _ _ [] hout hscan)
    have heq := hexact exact hvalid
    rw [List.nil_append] at hdecoded
    rw [fromUtf8Lossy, hdecoded] at heq
    dsimp only at heq
    rw [← percentDecodeBytes_eq_scan hout, ← utf8_of_fromUtf8 hdecoded, heq,
      utf8_of_fromUtf8 hvalid]
  · rintro ⟨hbound, hunsigned⟩
    obtain ⟨out, hout⟩ := (percentDecodeBytes_ok_iff _).mpr hbound
    refine ⟨fromUtf8Lossy out, map_eq_ok.mpr ⟨out, hout, rfl⟩, fun exact hexact => ?_⟩
    have hscan := (percentDecodeBytes_eq_scan hout).mpr (hunsigned (isUtf8_iff.mpr ⟨exact, hexact⟩))
    rw [hscan, fromUtf8Lossy, hexact]

/-- The key and the value of a pair. -/
def pairTexts (pair : String) : List String :=
  let (key, value) := (splitOnce '=' pair).getD (pair, "")
  [key, value]

/-- The texts that `parse_query_path` decodes: the keys and the values of a path. -/
def decodedTexts (path : String) : List String :=
  let (_, query) := (splitOnce '?' path).getD (path, "")
  (queryPairs query).flatMap pairTexts

theorem percentDecodeBytes_error {bytes : List UInt8} {err : GlobAclError}
    (h : percentDecodeBytes bytes = .error err) :
    err = .panicked "byte index is not a char boundary" := by
  fun_induction percentDecodeBytes bytes with
  | case1 => cases h
  | case3 =>
    cases h
    rfl
  | case2 _ ih | case4 _ _ _ _ _ _ _ ih | case5 _ _ _ _ _ _ ih | case6 _ _ _ _ _ _ ih
  | case7 _ _ _ _ ih =>
    cases hrest : percentDecodeBytes _ with
    | error err' =>
      rw [hrest] at h
      cases h
      exact ih hrest
    | ok out =>
      rw [hrest] at h
      cases h

theorem percentDecode_error {text : String} {err : GlobAclError}
    (h : percentDecode text = .error err) : ∃ message, err = .panicked message := by
  unfold percentDecode at h
  cases hbytes : percentDecodeBytes (utf8 text) with
  | error err' =>
    rw [hbytes] at h
    cases h
    exact ⟨_, percentDecodeBytes_error hbytes⟩
  | ok out =>
    rw [hbytes] at h
    cases h

theorem insertPair_ok_iff (params : Form) (pair : String) :
    (∃ params', insertPair params pair = .ok params') ↔
      ∀ text ∈ pairTexts pair, ∃ value, percentDecode text = .ok value := by
  unfold insertPair pairTexts
  rcases (splitOnce '=' pair).getD (pair, "") with ⟨key, value⟩
  dsimp only
  rw [List.forall_mem_cons, List.forall_mem_singleton]
  constructor
  · rintro ⟨params', h⟩
    obtain ⟨k, hk, h⟩ := bind_eq_ok.mp h
    obtain ⟨v, hv, -⟩ := bind_eq_ok.mp h
    exact ⟨⟨k, hk⟩, ⟨v, hv⟩⟩
  · rintro ⟨⟨k, hk⟩, ⟨v, hv⟩⟩
    exact ⟨params.insert k v, by rw [hk, ok_bind, hv, ok_bind]; rfl⟩

theorem insertPair_error {params : Form} {pair : String} {err : GlobAclError}
    (h : insertPair params pair = .error err) : ∃ message, err = .panicked message := by
  unfold insertPair at h
  rcases (splitOnce '=' pair).getD (pair, "") with ⟨key, value⟩
  rcases bind_eq_error.mp h with hkey | ⟨k, -, h⟩
  · exact percentDecode_error hkey
  · rcases bind_eq_error.mp h with hvalue | ⟨v, -, h⟩
    · exact percentDecode_error hvalue
    · cases h

/-- `parse_query_path` fails only where one of these texts does, and then it panics. -/
theorem parseQueryPath_panics_iff (path : String) :
    (∀ message, parseQueryPath path ≠ .error (.panicked message)) ↔
      ∀ text ∈ decodedTexts path, ∃ value, percentDecode text = .ok value := by
  unfold parseQueryPath decodedTexts
  rcases (splitOnce '?' path).getD (path, "") with ⟨route, query⟩
  dsimp only
  have hpairs : (∃ params, (queryPairs query).foldlM insertPair ∅ = .ok params) ↔
      ∀ text ∈ (queryPairs query).flatMap pairTexts, ∃ value, percentDecode text = .ok value := by
    rw [foldlM_ok_iff insertPair_ok_iff]
    simp only [List.mem_flatMap]
    exact ⟨fun h text ⟨pair, hpair, htext⟩ => h pair hpair text htext,
      fun h pair hpair text htext => h text ⟨pair, hpair, htext⟩⟩
  refine Iff.trans ?_ hpairs
  cases hfold : (queryPairs query).foldlM insertPair ∅ with
  | ok params => exact iff_of_true (by rintro message ⟨⟩) ⟨params, rfl⟩
  | error err =>
    obtain ⟨params, pair, -, hbad⟩ := foldlM_error hfold
    obtain ⟨message, rfl⟩ := insertPair_error hbad
    exact iff_of_false (fun h => h message rfl) (by rintro ⟨_, ⟨⟩⟩)

/-- A request path is parsed without a panic, and its keys and values to what their escapes mean, if
and only if all of them have plain escapes. -/
theorem parseQueryPath_exact_iff (path : String) :
    ((∀ message, parseQueryPath path ≠ .error (.panicked message)) ∧
      ∀ text ∈ decodedTexts path, DecodesExactly text) ↔
    ∀ text ∈ decodedTexts path, PlainEscapes text := by
  rw [parseQueryPath_panics_iff]
  constructor
  · exact fun h text htext => (decodesExactly_iff text).mp (h.2 text htext)
  · intro h
    have hexact : ∀ text ∈ decodedTexts path, DecodesExactly text := fun text htext =>
      (decodesExactly_iff text).mpr (h text htext)
    exact ⟨fun text htext => (hexact text htext).imp fun _ hvalue => hvalue.1, hexact⟩

/-- A percent sign, a letter and a character of two bytes: the slice ends within the character. -/
theorem not_parseQueryPath_exact :
    ¬ ∀ path : String, path ≠ "" → (∀ c ∈ path.toList, isWhitespace c = false) →
      (∀ message, parseQueryPath path ≠ .error (.panicked message)) ∧
        ∀ text ∈ decodedTexts path, DecodesExactly text := by
  intro h
  have hpath := (h "/check?key=%aé" (by decide) (List.all_iff_forall_prop.mp (by decide))).1
  exact hpath "byte index is not a char boundary" (by decide +kernel)

end Globacl
