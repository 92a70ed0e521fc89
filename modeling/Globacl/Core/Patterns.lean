import Globacl.Core.Decisions
import Globacl.Core.Json
import Mathlib.Data.List.DropRight

/-!
# What rule patterns denote (`globacl-core/src/lib/rules.rs`)

A pattern is compiled to a canonical text. For a CIDR pattern this text names the block of the
addresses with the same top bits, for a domain pattern the names at or below a domain.

* `maskIpv4_toNat`: a mask clears the low bits.
* `parseIpv4Addr_formatIpv4`: an address is read back from its text.
* `contains_domainSuffixCandidates`: the suffixes of a domain at a label boundary.
* `patterns_denote`: what two patterns have in common, and which values a compiled rule matches.
* `canonicalizeDomain_again_iff`: when a canonical domain is canonical again.
* `pattern_namesRule_iff`: when a rule can be deleted by the pattern that is shown for it.
-/

namespace Globacl

open Lib

/-! ## Addresses -/

/-- The top `n` bits of an address. -/
def topBits (n : UInt8) (ip : UInt32) : Nat := ip.toNat >>> (32 - n.toNat)

/-- A mask clears the bits below the prefix. -/
theorem maskIpv4_toNat {n : UInt8} (hn : n ≤ 32) (ip : UInt32) :
    (maskIpv4 ip n).toNat = topBits n ip <<< (32 - n.toNat) := by
  have hle : n.toNat ≤ 32 := UInt8.le_iff_toNat_le.mp hn
  have hip : ip.toNat < 2 ^ 32 := ip.toNat_lt
  unfold maskIpv4 topBits
  split
  · subst n
    have hzero : ip.toNat >>> 32 = 0 := by
      rw [Nat.shiftRight_eq_div_pow]
      exact Nat.div_eq_of_lt hip
    simp [hzero]
  · rename_i hne
    have hpos : n.toNat ≠ 0 := fun h0 => hne (UInt8.toNat_inj.mp h0)
    have hshift : (32 - n).toUInt32.toNat % 32 = 32 - n.toNat := by
      rw [UInt8.toNat_toUInt32, UInt8.toNat_sub_of_le _ _ hn]
      exact Nat.mod_eq_of_lt (by simp; omega)
    apply Nat.eq_of_testBit_eq
    intro i
    rw [UInt32.toNat_and, UInt32.toNat_shiftLeft, hshift, Nat.testBit_and, Nat.testBit_mod_two_pow,
      Nat.testBit_shiftLeft, Nat.testBit_shiftLeft, Nat.testBit_shiftRight]
    by_cases hi : 32 - n.toNat ≤ i
    · by_cases h32 : i < 32
      · have hone : (~~~(0 : UInt32)).toNat.testBit (i - (32 - n.toNat)) = true := by
          rw [show (~~~(0 : UInt32)).toNat = 2 ^ 32 - 1 from rfl, Nat.testBit_two_pow_sub_one]
          simp only [decide_eq_true_eq]
          omega
        rw [hone]
        simp [hi, h32]
      · have hzero : ip.toNat.testBit i = false :=
          Nat.testBit_lt_two_pow (hip.trans_le (Nat.pow_le_pow_right (by decide) (by omega)))
        simp [hi, h32, hzero]
    · simp [hi]

/-- Two masked addresses are equal exactly if the addresses agree on the top bits. -/
theorem maskIpv4_inj {n : UInt8} (hn : n ≤ 32) {a b : UInt32} :
    maskIpv4 a n = maskIpv4 b n ↔ topBits n a = topBits n b := by
  rw [← UInt32.toNat_inj, maskIpv4_toNat hn, maskIpv4_toNat hn, Nat.shiftLeft_eq, Nat.shiftLeft_eq,
    Nat.mul_left_inj (Nat.two_pow_pos _).ne']

theorem topBits_maskIpv4 {n : UInt8} (hn : n ≤ 32) (ip : UInt32) :
    topBits n (maskIpv4 ip n) = topBits n ip := by
  rw [topBits, maskIpv4_toNat hn, Nat.shiftLeft_shiftRight]

theorem maskIpv4_maskIpv4 {n : UInt8} (hn : n ≤ 32) (ip : UInt32) :
    maskIpv4 (maskIpv4 ip n) n = maskIpv4 ip n :=
  (maskIpv4_inj hn).mpr (topBits_maskIpv4 hn ip)

/-- An address is the number that its bytes spell. -/
theorem fromBeBytes_toNat (a b c d : UInt8) :
    (fromBeBytes a b c d).toNat =
      a.toNat * 2 ^ 24 + b.toNat * 2 ^ 16 + c.toNat * 2 ^ 8 + d.toNat := by
  have ha := a.toNat_lt
  have hb := b.toNat_lt
  have hc := c.toNat_lt
  have hd := d.toNat_lt
  have hcd : c.toNat <<< 8 ||| d.toNat = c.toNat * 2 ^ 8 + d.toNat := by
    rw [← Nat.shiftLeft_add_eq_or_of_lt (i := 8) hd, Nat.shiftLeft_eq]
  have hbcd : b.toNat <<< 16 ||| (c.toNat * 2 ^ 8 + d.toNat) =
      b.toNat * 2 ^ 16 + (c.toNat * 2 ^ 8 + d.toNat) := by
    rw [← Nat.shiftLeft_add_eq_or_of_lt (i := 16) (by omega), Nat.shiftLeft_eq]
  have habcd : a.toNat <<< 24 ||| (b.toNat * 2 ^ 16 + (c.toNat * 2 ^ 8 + d.toNat)) =
      a.toNat * 2 ^ 24 + (b.toNat * 2 ^ 16 + (c.toNat * 2 ^ 8 + d.toNat)) := by
    rw [← Nat.shiftLeft_add_eq_or_of_lt (i := 24) (by omega), Nat.shiftLeft_eq]
  have hfits : ∀ n : Nat, n < 2 ^ 32 → n % 2 ^ 32 = n := fun n hn => Nat.mod_eq_of_lt hn
  simp only [fromBeBytes, UInt32.toNat_or, UInt32.toNat_shiftLeft, UInt8.toNat_toUInt32]
  simp only [show (24 : UInt32).toNat % 32 = 24 from rfl, show (16 : UInt32).toNat % 32 = 16 from rfl,
    show (8 : UInt32).toNat % 32 = 8 from rfl]
  rw [hfits _ (by rw [Nat.shiftLeft_eq]; omega), hfits _ (by rw [Nat.shiftLeft_eq]; omega),
    hfits _ (by rw [Nat.shiftLeft_eq]; omega), Nat.or_assoc, Nat.or_assoc, hcd, hbcd, habcd]
  omega

/-- The bytes of an address are put together again. -/
theorem fromBeBytes_bytes (ip : UInt32) :
    fromBeBytes (ip >>> 24).toUInt8 (ip >>> 16).toUInt8 (ip >>> 8).toUInt8 ip.toUInt8 = ip := by
  have hip := ip.toNat_lt
  apply UInt32.toNat_inj.mp
  rw [fromBeBytes_toNat]
  simp only [UInt32.toNat_toUInt8, UInt32.toNat_shiftRight, Nat.shiftRight_eq_div_pow]
  simp
  omega

/-! ## Texts with dots -/

theorem splitDots_append (a b : String) :
    splitDots (a ++ "." ++ b) = splitDots a ++ splitDots b := by
  unfold splitDots
  rw [String.toList_append, String.toList_append, show ".".toList = ['.'] from rfl,
    List.append_assoc, List.singleton_append, List.splitOn_append_cons_self, List.map_append]

theorem splitDots_of_not_mem {a : String} (h : '.' ∉ a.toList) : splitDots a = [a] := by
  unfold splitDots
  rw [List.splitOn_eq_singleton h, List.map_singleton, String.ofList_toList]

theorem intercalate_splitDots (a : String) : ".".intercalate (splitDots a) = a := by
  apply String.toList_inj.mp
  rw [String.toList_intercalate, splitDots, List.map_map,
    show String.toList ∘ String.ofList = id from funext fun _ => String.toList_ofList, List.map_id]
  exact List.intercalate_splitOn '.'

theorem splitDots_ne_nil (a : String) : splitDots a ≠ [] := by
  simp [splitDots, List.splitOn_ne_nil]

theorem dot_not_mem_toString (n : Nat) : '.' ∉ (toString n).toList := fun h =>
  absurd (isDigit_of_mem_toString h) (by decide)

/-- The octets of an address are read from its text. -/
theorem parseOctets_bytes (value : String) (bytes octets : List UInt8)
    (h : octets.length + bytes.length ≤ 4) :
    parseOctets value (bytes.map fun byte => toString byte.toNat) octets =
      .ok (octets ++ bytes) := by
  induction bytes generalizing octets with
  | nil => rw [List.append_nil]; rfl
  | cons byte bytes ih =>
    rw [List.length_cons] at h
    have hbyte := byte.toNat_lt
    rw [List.map_cons, parseOctets, if_neg (by omega), parseUnsigned_toString (by omega)]
    simp only [Nat.toUInt8, UInt8.ofNat_toNat]
    rw [ih _ (by rw [List.length_append, List.length_singleton]; omega), List.append_assoc]
    rfl

/-- The bytes of an address from the left, as `u32::to_be_bytes`. -/
def toBeBytes (ip : UInt32) : List UInt8 :=
  [(ip >>> 24).toUInt8, (ip >>> 16).toUInt8, (ip >>> 8).toUInt8, ip.toUInt8]

theorem formatIpv4_eq (ip : UInt32) :
    formatIpv4 ip = ".".intercalate ((toBeBytes ip).map fun byte => toString byte.toNat) := by
  simp only [formatIpv4, toBeBytes, List.map_cons, List.map_nil]
  rw [String.intercalate_cons_cons, String.intercalate_cons_cons, String.intercalate_cons_cons,
    String.intercalate_singleton]
  simp only [String.append_assoc]
  rfl

theorem splitDots_formatIpv4 (ip : UInt32) :
    splitDots (formatIpv4 ip) = (toBeBytes ip).map fun byte => toString byte.toNat := by
  rw [formatIpv4_eq]
  simp only [toBeBytes, List.map_cons, List.map_nil, String.intercalate_cons_cons,
    String.intercalate_singleton, ← String.append_assoc, splitDots_append,
    splitDots_of_not_mem (dot_not_mem_toString _)]
  rfl

theorem mem_intercalate_dots {texts : List String} {c : Char}
    (h : c ∈ (".".intercalate texts).toList) : c = '.' ∨ ∃ text ∈ texts, c ∈ text.toList := by
  induction texts with
  | nil => exact absurd h List.not_mem_nil
  | cons text texts ih =>
    by_cases hnil : texts = []
    · subst hnil
      rw [String.intercalate_singleton] at h
      exact Or.inr ⟨text, List.mem_singleton_self _, h⟩
    · rw [String.intercalate_cons_of_ne_nil hnil, String.toList_append, String.toList_append,
        List.mem_append, List.mem_append] at h
      rcases h with (h | h) | h
      · exact Or.inr ⟨text, List.mem_cons_self, h⟩
      · exact Or.inl (List.mem_singleton.mp h)
      · rcases ih h with hdot | ⟨text', hmem, hc⟩
        · exact Or.inl hdot
        · exact Or.inr ⟨text', List.mem_cons_of_mem _ hmem, hc⟩

/-- The text of an address has digits and dots only. -/
theorem mem_formatIpv4 {ip : UInt32} {c : Char} (h : c ∈ (formatIpv4 ip).toList) :
    c = '.' ∨ c.isDigit = true := by
  rw [formatIpv4_eq] at h
  rcases mem_intercalate_dots h with hdot | ⟨text, hmem, hc⟩
  · exact Or.inl hdot
  · obtain ⟨byte, -, rfl⟩ := List.mem_map.mp hmem
    exact Or.inr (isDigit_of_mem_toString hc)

theorem isWhitespace_of_mem_formatIpv4 {ip : UInt32} {c : Char} (h : c ∈ (formatIpv4 ip).toList) :
    isWhitespace c = false := by
  rcases mem_formatIpv4 h with rfl | hd
  · decide
  · exact isWhitespace_of_isDigit hd

/-- An address is read back from its text. -/
theorem parseIpv4Addr_formatIpv4 (ip : UInt32) : parseIpv4Addr (formatIpv4 ip) = .ok ip := by
  unfold parseIpv4Addr
  rw [trim_of_forall fun c hc => isWhitespace_of_mem_formatIpv4 hc, splitDots_formatIpv4,
    parseOctets_bytes _ _ _ (by simp [toBeBytes])]
  exact congrArg Except.ok (fromBeBytes_bytes ip)

/-! ## CIDR patterns -/

/-- The text before the slash of a pattern, and the text behind it or else `32`. -/
def splitPattern (pattern : String) : String × String :=
  match (trim pattern).toList.span (· != '/') with
  | (addr, _ :: rest) => (String.ofList addr, String.ofList rest)
  | (_, []) => (trim pattern, "32")

/-- The address of a pattern. -/
def patternAddr (pattern : String) : Result UInt32 := parseIpv4Addr (splitPattern pattern).1

/-- The text of a network. -/
def formatCidr (network : UInt32) (prefixLen : UInt8) : String :=
  s!"{formatIpv4 network}/{prefixLen.toNat}"

/-- What `parse_ipv4_cidr` makes of the two parts of a pattern. -/
def cidrOfParts (prefixLen : Except String Nat) (addr : Result UInt32) :
    Result (UInt32 × UInt8 × String) :=
  match prefixLen with
  | .error err => .error (.parse s!"invalid IPv4 CIDR prefix: {err}")
  | .ok len =>
    if len > 32 then .error (.parse s!"IPv4 CIDR prefix {len} is greater than 32")
    else
      match addr with
      | .error err => .error err
      | .ok ip => .ok (maskIpv4 ip len.toUInt8, len.toUInt8,
          s!"{formatIpv4 (maskIpv4 ip len.toUInt8)}/{len}")

theorem parseIpv4Cidr_eq (pattern : String) :
    parseIpv4Cidr pattern =
      cidrOfParts (parseUnsigned 255 (splitPattern pattern).2) (patternAddr pattern) := by
  simp only [parseIpv4Cidr, patternAddr, splitPattern]
  rcases (trim pattern).toList.span (· != '/') with ⟨addr, _ | ⟨c, rest⟩⟩ <;> simp only []
  · generalize parseUnsigned 255 "32" = len, parseIpv4Addr (trim pattern) = ip
    cases len <;> cases ip <;> rfl
  · generalize parseUnsigned 255 (String.ofList rest) = len,
      parseIpv4Addr (String.ofList addr) = ip
    cases len <;> cases ip <;> rfl

/-- What `parse_ipv4_cidr` accepts, and what it returns. -/
theorem parseIpv4Cidr_ok_iff {pattern canonical : String} {network : UInt32} {prefixLen : UInt8} :
    parseIpv4Cidr pattern = .ok (network, prefixLen, canonical) ↔
      prefixLen ≤ 32 ∧ parseUnsigned 255 (splitPattern pattern).2 = .ok prefixLen.toNat ∧
        ∃ ip, patternAddr pattern = .ok ip ∧ network = maskIpv4 ip prefixLen ∧
          canonical = formatCidr network prefixLen := by
  have hbyte : ∀ len : Nat, len ≤ 32 → len.toUInt8 ≤ 32 ∧ len.toUInt8.toNat = len := by
    intro len hlen
    have hnat : len.toUInt8.toNat = len := by
      rw [Nat.toUInt8, UInt8.toNat_ofNat']
      omega
    exact ⟨UInt8.le_iff_toNat_le.mpr (by rw [hnat]; exact hlen), hnat⟩
  rw [parseIpv4Cidr_eq]
  unfold cidrOfParts
  constructor
  · intro h
    split at h
    · cases h
    rename_i len hlen
    split at h
    · cases h
    rename_i hle
    split at h
    · cases h
    rename_i ip hip
    obtain ⟨h32, hnat⟩ := hbyte len (by omega)
    cases h
    rw [formatCidr, hnat]
    exact ⟨h32, hlen, ip, hip, rfl, rfl⟩
  · rintro ⟨h32, hlen, ip, hip, rfl, rfl⟩
    have hle : prefixLen.toNat ≤ 32 := UInt8.le_iff_toNat_le.mp h32
    rw [hlen, hip]
    simp only [gt_iff_lt, if_neg (show ¬ 32 < prefixLen.toNat by omega), Nat.toUInt8,
      UInt8.ofNat_toNat]
    rfl

theorem splitPattern_formatCidr (network : UInt32) (prefixLen : UInt8) :
    splitPattern (formatCidr network prefixLen) = (formatIpv4 network, toString prefixLen.toNat) := by
  have hlist : (formatCidr network prefixLen).toList =
      (formatIpv4 network).toList ++ '/' :: (toString prefixLen.toNat).toList := by
    rw [formatCidr]
    simp only [String.toList_append, toString, List.append_assoc]
    rfl
  have htrim : trim (formatCidr network prefixLen) = formatCidr network prefixLen := by
    refine trim_of_forall fun c hc => ?_
    rw [hlist, List.mem_append, List.mem_cons] at hc
    rcases hc with hc | rfl | hc
    · exact isWhitespace_of_mem_formatIpv4 hc
    · decide
    · exact isWhitespace_of_isDigit (isDigit_of_mem_toString hc)
  have hslash : ∀ c ∈ (formatIpv4 network).toList, (c != '/') = true := by
    intro c hc
    rw [bne_iff_ne]
    rintro rfl
    exact absurd (mem_formatIpv4 hc) (by decide)
  have hspan : (formatCidr network prefixLen).toList.span (· != '/') =
      ((formatIpv4 network).toList, '/' :: (toString prefixLen.toNat).toList) := by
    rw [List.span_eq_takeWhile_dropWhile, hlist, List.takeWhile_append_of_pos hslash,
      List.dropWhile_append_of_pos hslash, List.takeWhile_cons_of_neg (by decide),
      List.dropWhile_cons_of_neg (by decide), List.append_nil]
  rw [splitPattern, htrim, hspan]
  simp only [String.ofList_toList]

/-- A network is read back from its text. -/
theorem parseIpv4Cidr_formatCidr {network : UInt32} {prefixLen : UInt8} (h : prefixLen ≤ 32) :
    parseIpv4Cidr (formatCidr network prefixLen) =
      .ok (maskIpv4 network prefixLen, prefixLen,
        formatCidr (maskIpv4 network prefixLen) prefixLen) := by
  have hle : prefixLen.toNat ≤ 32 := UInt8.le_iff_toNat_le.mp h
  refine parseIpv4Cidr_ok_iff.mpr ⟨h, ?_, network, ?_, rfl, rfl⟩
  · rw [splitPattern_formatCidr]
    exact parseUnsigned_toString (by omega)
  · rw [patternAddr, splitPattern_formatCidr]
    exact parseIpv4Addr_formatIpv4 network

/-! ## Domains -/

/-- `to_ascii_lowercase` adds `32` to the codes of `A` to `Z`. -/
theorem toNat_toLower (c : Char) :
    c.toLower.toNat = if 65 ≤ c.toNat ∧ c.toNat ≤ 90 then c.toNat + 32 else c.toNat := by
  have hupper : (c.val ≥ 'A'.val ∧ c.val ≤ 'Z'.val) ↔ 65 ≤ c.toNat ∧ c.toNat ≤ 90 := by
    rw [ge_iff_le, UInt32.le_iff_toNat_le, UInt32.le_iff_toNat_le]
    rfl
  unfold Char.toLower
  by_cases h : 65 ≤ c.toNat ∧ c.toNat ≤ 90
  · rw [dif_pos (hupper.mpr h), if_pos h]
    show (c.val + 32).toNat = c.val.toNat + 32
    have hle : c.val.toNat ≤ 90 := h.2
    rw [UInt32.toNat_add]
    exact Nat.mod_eq_of_lt (by simp; omega)
  · rw [dif_neg (mt hupper.mp h), if_neg h]

theorem toLower_toLower (c : Char) : c.toLower.toLower = c.toLower := by
  apply Char.toNat_inj.mp
  rw [toNat_toLower c.toLower, toNat_toLower c]
  by_cases h : 65 ≤ c.toNat ∧ c.toNat ≤ 90
  · rw [if_pos h, if_neg (by omega)]
  · rw [if_neg h, if_neg h]

theorem isWhitespace_toLower (c : Char) : isWhitespace c.toLower = isWhitespace c := by
  by_cases h : 65 ≤ c.toNat ∧ c.toNat ≤ 90
  · have hplain : ∀ d : Char, 65 ≤ d.toNat ∧ d.toNat ≤ 122 → isWhitespace d = false := by
      intro d hd
      simp only [isWhitespace, Bool.or_eq_false_iff, Bool.and_eq_false_iff,
        decide_eq_false_iff_not, beq_eq_false_iff_ne, ne_eq]
      omega
    rw [hplain c (by omega), hplain c.toLower (by rw [toNat_toLower, if_pos h]; omega)]
  · rw [show c.toLower = c from Char.toNat_inj.mp (by rw [toNat_toLower, if_neg h])]

/-- Only a letter becomes another character. -/
theorem toLower_eq_iff {c d : Char} (hd : d.toNat < 65) : c.toLower = d ↔ c = d := by
  rw [← Char.toNat_inj, ← Char.toNat_inj, toNat_toLower]
  split <;> omega

/-- `strip_prefix("*.")`, or else the text itself. -/
def stripWildcard : List Char → List Char
  | '*' :: '.' :: rest => rest
  | domain => domain

theorem stripWildcard_of_not {domain : List Char} (h : ¬ ['*', '.'] <+: domain) :
    stripWildcard domain = domain := by
  unfold stripWildcard
  split
  · rename_i rest
    exact absurd ⟨rest, rfl⟩ h
  · rfl

/-- The text that `canonicalize_domain` lowers: without the white space around it, the dots at its
end and one leading `*.`. -/
def domainText (value : String) : List Char :=
  stripWildcard (trimEndMatches (· == '.') (trim value).toList)

theorem wildcard_map_toLower {domain : List Char} :
    ['*', '.'] <+: domain.map Char.toLower ↔ ['*', '.'] <+: domain := by
  have hstar : ∀ c : Char, c.toLower = '*' ↔ c = '*' := fun c => toLower_eq_iff (by decide)
  have hdot : ∀ c : Char, c.toLower = '.' ↔ c = '.' := fun c => toLower_eq_iff (by decide)
  rcases domain with _ | ⟨c, _ | ⟨d, domain⟩⟩ <;>
    simp [List.cons_prefix_cons, eq_comm (a := '*'), eq_comm (a := '.'), hstar, hdot]

theorem stripWildcard_map_toLower (domain : List Char) :
    stripWildcard (domain.map Char.toLower) = (stripWildcard domain).map Char.toLower := by
  by_cases h : ['*', '.'] <+: domain
  · obtain ⟨rest, rfl⟩ := h
    rfl
  · rw [stripWildcard_of_not h, stripWildcard_of_not (mt wildcard_map_toLower.mp h)]

/-- What `canonicalize_domain` accepts, and what it returns. -/
theorem canonicalizeDomain_ok_iff {value domain : String} :
    canonicalizeDomain value = .ok domain ↔
      domain = String.ofList ((domainText value).map Char.toLower) ∧ "" ∉ splitDots domain := by
  have hempty : ∀ text : String, (text = "" ∨ (splitDots text).any (· == "") = true) ↔
      "" ∈ splitDots text := by
    intro text
    rw [List.any_eq_true]
    constructor
    · rintro (rfl | ⟨label, hmem, hlabel⟩)
      · decide
      · rwa [← eq_of_beq hlabel]
    · exact fun h => Or.inr ⟨_, h, rfl⟩
  have hcanon : canonicalizeDomain value =
      if "" ∈ splitDots (String.ofList ((domainText value).map Char.toLower)) then
        .error (.parse s!"invalid domain suffix {debugStr value}")
      else .ok (String.ofList ((domainText value).map Char.toLower)) := by
    unfold canonicalizeDomain
    extract_lets text stripped
    have hstripped : stripped = String.ofList (stripWildcard text.toList) := by
      dsimp only [stripped]
      split
      · rename_i rest htext
        rw [htext]
        rfl
      · rename_i hne
        rw [stripWildcard_of_not fun ⟨rest, h⟩ => hne rest h.symm, String.ofList_toList]
    simp only [hempty, hstripped, text, toAsciiLowercase, String.toList_ofList,
      stripWildcard_map_toLower, domainText]
    congr
  rw [hcanon]
  split
  · rename_i hmem
    constructor
    · intro h
      cases h
    · rintro ⟨rfl, hnot⟩
      exact absurd hmem hnot
  · rename_i hnot
    rw [Except.ok.injEq]
    constructor
    · rintro rfl
      exact ⟨rfl, hnot⟩
    · rintro ⟨rfl, -⟩
      rfl

/-! ## Canonical domains -/

/-- The domain has no leading `*.`, and no white space at either end. -/
def Bare (domain : List Char) : Prop :=
  ¬ ['*', '.'] <+: domain ∧ (∀ c ∈ domain.head?, isWhitespace c = false) ∧
    ∀ c ∈ domain.getLast?, isWhitespace c = false

instance (domain : List Char) : Decidable (Bare domain) :=
  @instDecidableAnd _ _ _
    (@instDecidableAnd _ _ (Option.decidableForallMem _) (Option.decidableForallMem _))

theorem bare_map_toLower {domain : List Char} :
    Bare (domain.map Char.toLower) ↔ Bare domain := by
  simp only [Bare, wildcard_map_toLower, List.head?_map, List.getLast?_map, Option.mem_map,
    forall_exists_index, and_imp, forall_apply_eq_imp_iff₂, isWhitespace_toLower]

theorem dropWhile_eq_self {p : Char → Bool} {cs : List Char} :
    cs.dropWhile p = cs ↔ ∀ c ∈ cs.head?, p c = false := by
  rw [List.dropWhile_eq_self_iff]
  cases cs <;> simp

theorem trimEndMatches_eq_self {p : Char → Bool} {cs : List Char} :
    trimEndMatches p cs = cs ↔ ∀ c ∈ cs.getLast?, p c = false := by
  rw [show trimEndMatches p cs = cs.rdropWhile p from rfl, List.rdropWhile_eq_self_iff]
  rcases cs.eq_nil_or_concat with rfl | ⟨l, c, rfl⟩ <;> simp

theorem trimEndMatches_sublist (p : Char → Bool) (cs : List Char) :
    (trimEndMatches p cs).Sublist cs :=
  (List.rdropWhile_prefix p cs).sublist

theorem trim_sublist (value : String) : (trim value).toList.Sublist value.toList := by
  rw [trim, String.toList_ofList]
  exact (trimEndMatches_sublist _ _).trans (List.dropWhile_sublist _)

theorem stripWildcard_sublist (domain : List Char) : (stripWildcard domain).Sublist domain := by
  by_cases h : ['*', '.'] <+: domain
  · obtain ⟨rest, rfl⟩ := h
    exact List.sublist_append_right _ _
  · rw [stripWildcard_of_not h]

/-- Trimming keeps exactly the texts without white space at either end. -/
theorem trim_eq_self_iff {value : String} :
    trim value = value ↔ (∀ c ∈ value.toList.head?, isWhitespace c = false) ∧
      ∀ c ∈ value.toList.getLast?, isWhitespace c = false := by
  refine ⟨fun h => ?_, fun h => trim_eq_self h.1 h.2⟩
  have hlist : trimEndMatches isWhitespace (value.toList.dropWhile isWhitespace) =
      value.toList := by
    rw [← String.toList_ofList (l := trimEndMatches _ _)]
    exact congrArg String.toList h
  have hle := (trimEndMatches_sublist isWhitespace (value.toList.dropWhile isWhitespace)).length_le
  rw [hlist] at hle
  have hdrop : value.toList.dropWhile isWhitespace = value.toList :=
    (List.dropWhile_sublist _).eq_of_length_le hle
  rw [hdrop] at hlist
  exact ⟨dropWhile_eq_self.mp hdrop, trimEndMatches_eq_self.mp hlist⟩

theorem domainText_sublist (value : String) : (domainText value).Sublist value.toList :=
  (stripWildcard_sublist _).trans ((trimEndMatches_sublist _ _).trans (trim_sublist value))

/-- A domain without an empty label does not end with a dot. -/
theorem getLast_ne_dot {domain : String} (h : "" ∉ splitDots domain) :
    ∀ c ∈ domain.toList.getLast?, (c == '.') = false := by
  intro c hc
  rw [beq_eq_false_iff_ne]
  rintro rfl
  obtain ⟨cs, hcs⟩ := List.getLast?_eq_some_iff.mp hc
  have hdomain : domain = String.ofList cs ++ "." ++ "" := by
    apply String.toList_inj.mp
    simp [hcs]
  rw [hdomain, splitDots_append] at h
  exact h (List.mem_append_right _ (by decide))

/-- Nothing is taken off a bare domain, and something off any other. -/
theorem domainText_eq_self {domain : String} (h : "" ∉ splitDots domain) :
    domainText domain = domain.toList ↔ Bare domain.toList := by
  constructor
  · intro hself
    have hstrip := stripWildcard_sublist (trimEndMatches (· == '.') (trim domain).toList)
    have hdots := trimEndMatches_sublist (· == '.') (trim domain).toList
    have hspace := trim_sublist domain
    have hlen := hstrip.length_le
    rw [show stripWildcard _ = domain.toList from hself] at hlen
    have htrim : (trim domain).toList = domain.toList :=
      hspace.eq_of_length_le (hlen.trans hdots.length_le)
    have hend : trimEndMatches (· == '.') (trim domain).toList = domain.toList :=
      (hdots.trans hspace).eq_of_length_le hlen
    refine ⟨fun ⟨rest, hrest⟩ => ?_, trim_eq_self_iff.mp (String.toList_inj.mp htrim)⟩
    have hshort : domainText domain = rest := by
      rw [domainText, hend, ← hrest]
      rfl
    rw [hself, ← hrest] at hshort
    have hlength := congrArg List.length hshort
    rw [List.length_append, List.length_cons, List.length_singleton] at hlength
    omega
  · rintro ⟨hwild, hspace⟩
    rw [domainText, trim_eq_self_iff.mpr hspace, trimEndMatches_eq_self.mpr (getLast_ne_dot h),
      stripWildcard_of_not hwild]

/-- A canonical domain is canonical again exactly if what was lowered is bare. -/
theorem canonicalizeDomain_again_iff {value domain : String}
    (h : canonicalizeDomain value = .ok domain) :
    canonicalizeDomain domain = .ok domain ↔ Bare (domainText value) := by
  obtain ⟨hdomain, hlabels⟩ := canonicalizeDomain_ok_iff.mp h
  have hlist : domain.toList = (domainText value).map Char.toLower := by
    rw [hdomain, String.toList_ofList]
  have hlower : domain.toList.map Char.toLower = domain.toList := by
    rw [hlist, List.map_map]
    exact List.map_congr_left fun c _ => toLower_toLower c
  rw [canonicalizeDomain_ok_iff, and_iff_left hlabels, ← bare_map_toLower, ← hlist,
    ← domainText_eq_self hlabels]
  constructor
  · intro hagain
    have hlen : domain.toList.length = (domainText domain).length := by
      have := congrArg (fun text => text.toList.length) hagain
      simpa using this
    exact (domainText_sublist domain).eq_of_length_le hlen.le
  · intro hself
    rw [hself, hlower, String.ofList_toList]

/-! ## What a pattern matches -/

/-- The candidates of a domain: the domain itself, and what is behind one of its dots. -/
theorem contains_domainSuffixCandidates {domain suffix : String} :
    (domainSuffixCandidates domain).contains suffix = true ↔
      domain = suffix ∨ ∃ before, domain = before ++ "." ++ suffix := by
  simp only [domainSuffixCandidates, List.contains_iff_mem, List.mem_map, List.mem_range]
  constructor
  · rintro ⟨i, hi, rfl⟩
    cases i with
    | zero =>
      refine Or.inl ?_
      rw [List.drop_zero, intercalate_splitDots]
    | succ i =>
      refine Or.inr ⟨".".intercalate ((splitDots domain).take (i + 1)), ?_⟩
      have htake : (splitDots domain).take (i + 1) ≠ [] := by
        rw [ne_eq, List.take_eq_nil_iff, not_or]
        exact ⟨Nat.succ_ne_zero i, splitDots_ne_nil domain⟩
      have hdrop : (splitDots domain).drop (i + 1) ≠ [] := by
        rw [ne_eq, List.drop_eq_nil_iff]
        omega
      rw [← String.intercalate_append_of_ne_nil htake hdrop, List.take_append_drop,
        intercalate_splitDots]
  · rintro (rfl | ⟨before, rfl⟩)
    · refine ⟨0, List.length_pos_iff.mpr (splitDots_ne_nil domain), ?_⟩
      rw [List.drop_zero, intercalate_splitDots]
    · refine ⟨(splitDots before).length, ?_, ?_⟩
      · rw [splitDots_append, List.length_append]
        have := List.length_pos_iff.mpr (splitDots_ne_nil suffix)
        omega
      · rw [splitDots_append, List.drop_left, intercalate_splitDots]

theorem formatCidr_inj {network network' : UInt32} {prefixLen prefixLen' : UInt8} :
    formatCidr network prefixLen = formatCidr network' prefixLen' ↔
      network = network' ∧ prefixLen = prefixLen' := by
  refine ⟨fun h => ?_, fun ⟨h, h'⟩ => by rw [h, h']⟩
  have hsplit := congrArg splitPattern h
  rw [splitPattern_formatCidr, splitPattern_formatCidr, Prod.mk.injEq] at hsplit
  have haddr := parseIpv4Addr_formatIpv4 network
  have hlen := parseUnsigned_toString (Nat.le_of_lt_succ prefixLen.toNat_lt)
  rw [hsplit.1, parseIpv4Addr_formatIpv4] at haddr
  rw [hsplit.2, parseUnsigned_toString (Nat.le_of_lt_succ prefixLen'.toNat_lt)] at hlen
  exact ⟨(Except.ok.inj haddr).symm, UInt8.toNat_inj.mp (Except.ok.inj hlen).symm⟩

/-- The rule carries what the pattern was compiled to. -/
def RuleEntry.CompiledFrom (rule : RuleEntry) (pattern : String) : Prop :=
  compileRulePattern rule.kind pattern =
    .ok ⟨rule.pattern, rule.ipv4Network, rule.ipv4PrefixLen, rule.domainSuffix⟩

/-- The network of a compiled CIDR rule is the block of the pattern's address. -/
theorem RuleEntry.CompiledFrom.network {rule : RuleEntry} {pattern : String}
    (h : rule.CompiledFrom pattern) (hkind : rule.kind = .ipv4Cidr) :
    rule.ipv4PrefixLen ≤ 32 ∧ ∃ ip, patternAddr pattern = .ok ip ∧
      rule.ipv4Network = maskIpv4 ip rule.ipv4PrefixLen := by
  unfold CompiledFrom compileRulePattern at h
  rw [hkind] at h
  simp only at h
  split at h
  · cases h
  · rename_i network prefixLen canonical hparse
    obtain ⟨hle, -, ip, hip, hnetwork, -⟩ := parseIpv4Cidr_ok_iff.mp hparse
    simp only [Except.ok.injEq, CompiledRulePattern.mk.injEq] at h
    obtain ⟨-, rfl, rfl, -⟩ := h
    exact ⟨hle, ip, hip, hnetwork⟩

/-- A compiled CIDR rule matches the addresses with the network's top bits. -/
theorem RuleEntry.CompiledFrom.matches_ipv4 {rule : RuleEntry} {pattern : String}
    (h : rule.CompiledFrom pattern) (hkind : rule.kind = .ipv4Cidr) {namespace' : String}
    (hnamespace : ruleKindForNamespace namespace' = some .ipv4Cidr) (rawValue : String) :
    ruleMatchesNamespace rule namespace' rawValue = true ↔
      ∃ ip, parseIpv4Addr rawValue = .ok ip ∧
        topBits rule.ipv4PrefixLen ip = topBits rule.ipv4PrefixLen rule.ipv4Network := by
  obtain ⟨hle, addr, -, hnetwork⟩ := h.network hkind
  have hmask : maskIpv4 rule.ipv4Network rule.ipv4PrefixLen = rule.ipv4Network := by
    rw [hnetwork, maskIpv4_maskIpv4 hle]
  unfold ruleMatchesNamespace
  rw [if_neg (by rw [hnamespace, hkind]; exact fun h => h rfl), hkind]
  cases hparse : parseIpv4Addr rawValue with
  | error err => simp
  | ok ip =>
    simp only [beq_iff_eq, Except.ok.injEq, exists_eq_left', ← maskIpv4_inj hle, hmask]

/-- A compiled domain rule matches the values at or below its suffix. -/
theorem matches_domain {rule : RuleEntry} (hkind : rule.kind = .domainSuffix)
    {namespace' : String} (hnamespace : ruleKindForNamespace namespace' = some .domainSuffix)
    (rawValue : String) :
    ruleMatchesNamespace rule namespace' rawValue = true ↔
      ∃ domain, canonicalizeDomain rawValue = .ok domain ∧
        (domain = rule.domainSuffix ∨ ∃ before, domain = before ++ "." ++ rule.domainSuffix) := by
  unfold ruleMatchesNamespace
  rw [if_neg (by rw [hnamespace, hkind]; exact fun h => h rfl), hkind]
  cases hparse : canonicalizeDomain rawValue with
  | error err => simp
  | ok domain =>
    simp only [contains_domainSuffixCandidates, Except.ok.injEq, exists_eq_left']

theorem topBits_zero (ip : UInt32) : topBits 0 ip = 0 := by
  rw [topBits, Nat.shiftRight_eq_div_pow]
  exact Nat.div_eq_of_lt ip.toNat_lt

theorem topBits_full (ip : UInt32) : topBits 32 ip = ip.toNat := rfl

/-- Two accepted CIDR patterns have one canonical text exactly if they name one block. A compiled
CIDR rule matches the addresses of its block, and a compiled domain rule the values at or below its
suffix. -/
theorem patterns_denote :
    (∀ left right network network' prefixLen prefixLen' canonical canonical',
      parseIpv4Cidr left = .ok (network, prefixLen, canonical) →
      parseIpv4Cidr right = .ok (network', prefixLen', canonical') →
        ∃ ip ip', patternAddr left = .ok ip ∧ patternAddr right = .ok ip' ∧
          (canonical = canonical' ↔ prefixLen = prefixLen' ∧
            topBits prefixLen ip = topBits prefixLen ip')) ∧
    (∀ (rule : RuleEntry) (pattern nspace rawValue : String), rule.CompiledFrom pattern →
      rule.kind = .ipv4Cidr → ruleKindForNamespace nspace = some .ipv4Cidr →
        (ruleMatchesNamespace rule nspace rawValue = true ↔
          ∃ ip, parseIpv4Addr rawValue = .ok ip ∧
            topBits rule.ipv4PrefixLen ip = topBits rule.ipv4PrefixLen rule.ipv4Network) ∧
        (∃ ip, patternAddr pattern = .ok ip ∧
          topBits rule.ipv4PrefixLen rule.ipv4Network = topBits rule.ipv4PrefixLen ip) ∧
        (rule.ipv4PrefixLen = 0 → (ruleMatchesNamespace rule nspace rawValue = true ↔
          ∃ ip, parseIpv4Addr rawValue = .ok ip)) ∧
        (rule.ipv4PrefixLen = 32 → (ruleMatchesNamespace rule nspace rawValue = true ↔
          parseIpv4Addr rawValue = .ok rule.ipv4Network))) ∧
    ∀ (rule : RuleEntry) (pattern nspace rawValue : String), rule.CompiledFrom pattern →
      rule.kind = .domainSuffix → ruleKindForNamespace nspace = some .domainSuffix →
        (ruleMatchesNamespace rule nspace rawValue = true ↔
          ∃ domain, canonicalizeDomain rawValue = .ok domain ∧ (domain = rule.domainSuffix ∨
            ∃ before, domain = before ++ "." ++ rule.domainSuffix)) := by
  refine ⟨?_, ?_, ?_⟩
  · intro left right network network' prefixLen prefixLen' canonical canonical' hleft hright
    obtain ⟨hle, -, ip, hip, rfl, rfl⟩ := parseIpv4Cidr_ok_iff.mp hleft
    obtain ⟨-, -, ip', hip', rfl, rfl⟩ := parseIpv4Cidr_ok_iff.mp hright
    refine ⟨ip, ip', hip, hip', ?_⟩
    rw [formatCidr_inj]
    constructor
    · rintro ⟨hnetwork, rfl⟩
      exact ⟨rfl, (maskIpv4_inj hle).mp hnetwork⟩
    · rintro ⟨rfl, hbits⟩
      exact ⟨(maskIpv4_inj hle).mpr hbits, rfl⟩
  · intro rule pattern nspace rawValue h hkind hnamespace
    have hmatch := h.matches_ipv4 hkind hnamespace rawValue
    obtain ⟨hle, addr, haddr, hnetwork⟩ := h.network hkind
    refine ⟨hmatch, ⟨addr, haddr, by rw [hnetwork, topBits_maskIpv4 hle]⟩, ?_, ?_⟩
    · intro hzero
      simp only [hmatch, hzero, topBits_zero, and_true]
    · intro hfull
      simp only [hmatch, hfull, topBits_full, UInt32.toNat_inj, exists_eq_right]
  · intro rule pattern nspace rawValue _ hkind hnamespace
    exact matches_domain hkind hnamespace rawValue

/-! ## Rules that are deleted by their pattern -/

/-- The request deletes the rule by the pattern that is shown for it, under an operation id that is
new to the state. -/
structure DeletesShown (st : SourceOfTruth) (rule : RuleEntry) (request : RuleRequest) : Prop where
  opId : trim request.opId ≠ ""
  fresh : request.opId ∉ st.opIndex
  tenantId : request.tenantId = rule.tenantId
  kind : request.kind = rule.kind
  pattern : request.pattern = rule.pattern
  action : request.action = .delete

/-- The request gets the rule's hash, and its commit takes the rule out and nothing else. -/
def RemovesExactly (now : Nat) (st : SourceOfTruth) (rule : RuleEntry) (request : RuleRequest) :
    Prop :=
  ∃ m deleted st', st.prepareRuleCommit now request = .ok ⟨m, false⟩ ∧ m.rule = some deleted ∧
    deleted.ruleHash = rule.ruleHash ∧ st.applyReplicatedMutation m = .ok (.applied, st') ∧
    st'.entries = st.entries ∧
    ∀ key, st'.rules.lookup key = if key = rule.ruleKey then none else st.rules.lookup key

/-- A rule whose pattern is compiled to itself again is removed by it. -/
theorem DeletesShown.removesExactly {st : SourceOfTruth} {rule : RuleEntry} {request : RuleRequest}
    (h : DeletesShown st rule request) {compiled : CompiledRulePattern}
    (hcompiled : compileRulePattern rule.kind rule.pattern = .ok compiled)
    (hcanonical : compiled.canonicalPattern = rule.pattern)
    (hhash : rule.ruleHash = stableKeyHash rule.tenantId rule.kind.asStr rule.pattern) (now : Nat) :
    RemovesExactly now st rule request := by
  have hnew : ∃ m, st.prepareRuleCommit now request = .ok ⟨m, false⟩ := by
    unfold SourceOfTruth.prepareRuleCommit
    rw [if_neg h.opId, HashMap.not_mem_iff_lookup.mp h.fresh, h.kind, h.pattern, hcompiled]
    exact ⟨_, rfl⟩
  obtain ⟨m, hm⟩ := hnew
  obtain ⟨hnext, -⟩ : st.Next m ∧ m.opId = request.opId := SourceOfTruth.prepareRuleCommit_ok hm
  obtain ⟨deleted, hrule, hversion⟩ := SourceOfTruth.prepareRuleCommit_new hm rfl
  simp only [RuleRequest.version, h.kind, h.pattern, hcompiled, h.tenantId, h.action,
    hcanonical, ← hhash, Option.some.injEq] at hversion
  have hkey : deleted.ruleKey = rule.ruleKey := by
    rw [← hversion]
    rfl
  have haction : deleted.action = .delete := by rw [← hversion]
  refine ⟨m, deleted, _, hm, hrule, by rw [← hversion], hnext.applyReplicatedMutation, ?_, ?_⟩
  · show (if m.rule.isSome then st.entries else _) = st.entries
    rw [hrule]
    rfl
  · intro key
    have hwrite : m.ruleWrite = some (rule.ruleKey, none) := by
      unfold Mutation.ruleWrite
      rw [hrule, Option.map_some, hkey, haction, if_pos rfl]
    refine (SourceOfTruth.advance_rules st m key).trans ?_
    unfold writeAt
    rw [hwrite]

/-- What `prepare_rule_commit` stores under a rule's pattern. -/
theorem prepareRuleCommit_pattern {now : Nat} {st : SourceOfTruth} {request : RuleRequest}
    {m : Mutation} {rule : RuleEntry} {compiled : CompiledRulePattern}
    (h : st.prepareRuleCommit now request = .ok ⟨m, false⟩) (hrule : m.rule = some rule)
    (hcompiled : compileRulePattern request.kind request.pattern = .ok compiled) :
    rule.kind = request.kind ∧ rule.pattern = compiled.canonicalPattern ∧
      rule.ruleHash = stableKeyHash rule.tenantId rule.kind.asStr rule.pattern := by
  obtain ⟨rule', hrule', hversion⟩ := SourceOfTruth.prepareRuleCommit_new h rfl
  rw [hrule', Option.some.injEq] at hrule
  subst hrule
  rw [RuleRequest.version, hcompiled, Option.some.injEq] at hversion
  rw [← hversion]
  exact ⟨rfl, rfl, rfl⟩

/-- A CIDR pattern is compiled to itself again. A domain pattern is so exactly if it is bare without
the white space around it, the dots at its end and one leading `*.`. -/
theorem compileRulePattern_again_iff {kind : RuleKind} {pattern : String}
    {compiled : CompiledRulePattern} (h : compileRulePattern kind pattern = .ok compiled) :
    compileRulePattern kind compiled.canonicalPattern = .ok compiled ↔
      kind = .ipv4Cidr ∨ Bare (domainText pattern) := by
  cases kind with
  | ipv4Cidr =>
    simp only [true_or, iff_true]
    unfold compileRulePattern at h ⊢
    simp only at h ⊢
    split at h
    · cases h
    · rename_i network prefixLen canonical hparse
      obtain ⟨hle, -, ip, -, rfl, rfl⟩ := parseIpv4Cidr_ok_iff.mp hparse
      cases h
      simp only [parseIpv4Cidr_formatCidr hle, maskIpv4_maskIpv4 hle]
  | domainSuffix =>
    simp only [reduceCtorEq, false_or]
    unfold compileRulePattern at h ⊢
    simp only at h ⊢
    split at h
    · cases h
    · rename_i suffix hcanonical
      cases h
      rw [← canonicalizeDomain_again_iff hcanonical]
      cases hagain : canonicalizeDomain suffix with
      | error err => simp
      | ok suffix' => simp

/-- The shown pattern of a rule is compiled to the same rule again, and a request that deletes the
rule by it removes exactly that rule, for a CIDR pattern and for a domain pattern that is bare
without the white space around it, the dots at its end and one leading `*.`, and for no other. -/
theorem pattern_namesRule_iff {kind : RuleKind} {pattern : String} {compiled : CompiledRulePattern}
    (h : compileRulePattern kind pattern = .ok compiled) :
    (compileRulePattern kind compiled.canonicalPattern = .ok compiled ∧
      ∀ now st request m rule, request.kind = kind → request.pattern = pattern →
        SourceOfTruth.prepareRuleCommit now st request = .ok ⟨m, false⟩ → m.rule = some rule →
          ∀ now' st' delete, DeletesShown st' rule delete → RemovesExactly now' st' rule delete) ↔
      kind = .ipv4Cidr ∨ Bare (domainText pattern) := by
  rw [← compileRulePattern_again_iff h]
  refine ⟨And.left, fun hagain => ⟨hagain, ?_⟩⟩
  rintro now st request m rule rfl rfl hm hrule now' st' delete hdelete
  obtain ⟨hkind, hpattern, hhash⟩ := prepareRuleCommit_pattern hm hrule h
  have hstored : compileRulePattern rule.kind rule.pattern = .ok compiled := by
    rw [hkind, hpattern, hagain]
  exact hdelete.removesExactly hstored hpattern.symm hhash now'

/-- A pattern with white space, a wildcard and a dot to take off. -/
theorem pattern_namesRule_example :
    compileRulePattern .domainSuffix "example.com" =
      .ok ⟨"example.com", 0, 0, "example.com"⟩ :=
  ((@pattern_namesRule_iff .domainSuffix " *.Example.com. " ⟨"example.com", 0, 0, "example.com"⟩
    (by decide +kernel)).mpr (Or.inr (by decide +kernel))).1

/-- A request about the domain pattern of a rule. -/
def domainRequest (opId pattern : String) (action : Action) : RuleRequest :=
  { opId, tenantId := "acme", kind := .domainSuffix, pattern, action, priority := 10,
    reasonCode := "policy", expiresAt := 0, createdBy := "admin",
    deliveryPriority := .p1 }

/-- The state after the requests, each of which is prepared and applied. -/
def afterRequests (requests : List RuleRequest) : Result SourceOfTruth :=
  requests.foldlM (fun st request => do
    let outcome ← st.prepareRuleCommit 0 request
    let (_, st) ← st.applyReplicatedMutation outcome.mutation
    pure st) (SourceOfTruth.new 1 "eu")

/-- The rule that is stored for `*.*.example.com` is shown as `*.example.com`, which is compiled to
another domain. The deletion by the shown pattern leaves the rule in place. -/
theorem not_pattern_namesRule :
    (afterRequests [domainRequest "op-1" "*.*.example.com" .deny]).map
        (fun st => (st.rules.values .given).map RuleEntry.pattern) = .ok ["*.example.com"] ∧
      compileRulePattern .domainSuffix "*.*.example.com" =
        .ok ⟨"*.example.com", 0, 0, "*.example.com"⟩ ∧
      compileRulePattern .domainSuffix "*.example.com" = .ok ⟨"example.com", 0, 0, "example.com"⟩ ∧
      (afterRequests [domainRequest "op-1" "*.*.example.com" .deny,
        domainRequest "op-2" "*.example.com" .delete]).map
          (fun st => (st.rules.values .given).map RuleEntry.pattern) = .ok ["*.example.com"] := by
  decide +kernel

end Globacl
