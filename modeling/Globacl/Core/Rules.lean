import Globacl.Core.Hash
import Globacl.Lib.Best

/-!
# Rules (`globacl-core/src/lib/rules.rs`)

Rule patterns, the values that they match, and the order in which matching rules are preferred.
The text functions follow Rust's: `trim` takes off Unicode white space, `split` on an empty text
gives one empty part, and an integer may have a leading plus sign.

* `ruleMatchesNamespace`: whether a rule covers a value, as the source of truth decides it.
* `compareRulesForMatch`: a rule that is `Less` is preferred: higher priority, then deny before
  allow, then the later commit.
-/

namespace Globacl

open Lib

/-! ## Text -/

/-- The Unicode property `White_Space`, as `char::is_whitespace`. -/
def isWhitespace (c : Char) : Bool :=
  (9 ≤ c.toNat && c.toNat ≤ 13) || c.toNat == 0x20 || c.toNat == 0x85 || c.toNat == 0xa0 ||
    c.toNat == 0x1680 || (0x2000 ≤ c.toNat && c.toNat ≤ 0x200a) || c.toNat == 0x2028 ||
    c.toNat == 0x2029 || c.toNat == 0x202f || c.toNat == 0x205f || c.toNat == 0x3000

/-- The text without the characters at its end that satisfy `p`. -/
def trimEndMatches (p : Char → Bool) (cs : List Char) : List Char :=
  (cs.reverse.dropWhile p).reverse

/-- `str::trim`. -/
def trim (value : String) : String :=
  String.ofList (trimEndMatches isWhitespace (value.toList.dropWhile isWhitespace))

/-- `str::to_ascii_lowercase`. -/
def toAsciiLowercase (value : String) : String := String.ofList (value.toList.map Char.toLower)

/-- `str::split('.')`. -/
def splitDots (value : String) : List String := (value.toList.splitOn '.').map String.ofList

/-- The digits of an integer, from the left: the value so far, or the text of the error. -/
def parseDigits (bound : Nat) : List Char → Nat → Except String Nat
  | [], n => .ok n
  | c :: cs, n =>
    if c.isDigit then
      let n := n * 10 + (c.toNat - '0'.toNat)
      if n > bound then .error "number too large to fit in target type"
      else parseDigits bound cs n
    else .error "invalid digit found in string"

/-- `str::parse` of an unsigned integer up to `bound`. -/
def parseUnsigned (bound : Nat) (value : String) : Except String Nat :=
  match value.toList with
  | [] => .error "cannot parse integer from empty string"
  | ['+'] => .error "invalid digit found in string"
  | '+' :: cs => parseDigits bound cs 0
  | cs => parseDigits bound cs 0

/-! ## Patterns -/

/-- `u32::from_be_bytes`. -/
def fromBeBytes (a b c d : UInt8) : UInt32 :=
  (a.toUInt32 <<< 24) ||| (b.toUInt32 <<< 16) ||| (c.toUInt32 <<< 8) ||| d.toUInt32

/-- The loop of `parse_ipv4_addr` over the parts, with the octets read so far. -/
def parseOctets (value : String) : List String → List UInt8 → Result (List UInt8)
  | [], octets => .ok octets
  | part :: parts, octets =>
    if octets.length ≥ 4 then .error (.parse s!"invalid IPv4 address {debugStr value}")
    else
      match parseUnsigned 255 part with
      | .error err => .error (.parse s!"invalid IPv4 address {debugStr value}: {err}")
      | .ok octet => parseOctets value parts (octets ++ [octet.toUInt8])

/-- `parse_ipv4_addr`. -/
def parseIpv4Addr (value : String) : Result UInt32 :=
  match parseOctets value (splitDots (trim value)) [] with
  | .error err => .error err
  | .ok [a, b, c, d] => .ok (fromBeBytes a b c d)
  | .ok _ => .error (.parse s!"invalid IPv4 address {debugStr value}")

/-- `format_ipv4`. -/
def formatIpv4 (value : UInt32) : String :=
  s!"{(value >>> 24).toUInt8.toNat}.{(value >>> 16).toUInt8.toNat}.{(value >>> 8).toUInt8.toNat}" ++
    s!".{value.toUInt8.toNat}"

/-- `mask_ipv4`. A prefix above `32` is as in a build without overflow checks: the subtraction
wraps, and the shift is taken modulo the width. -/
def maskIpv4 (value : UInt32) (prefixLen : UInt8) : UInt32 :=
  if prefixLen = 0 then 0 else value &&& (~~~(0 : UInt32) <<< (32 - prefixLen).toUInt32)

/-- `parse_ipv4_cidr`: the network, the prefix length and the canonical text. -/
def parseIpv4Cidr (pattern : String) : Result (UInt32 × UInt8 × String) :=
  let trimmed := trim pattern
  let (addr, prefix') :=
    match trimmed.toList.span (· != '/') with
    | (addr, _ :: rest) => (String.ofList addr, String.ofList rest)
    | (_, []) => (trimmed, "32")
  match parseUnsigned 255 prefix' with
  | .error err => .error (.parse s!"invalid IPv4 CIDR prefix: {err}")
  | .ok prefixLen =>
    if prefixLen > 32 then .error (.parse s!"IPv4 CIDR prefix {prefixLen} is greater than 32")
    else
      match parseIpv4Addr addr with
      | .error err => .error err
      | .ok ip =>
        let network := maskIpv4 ip prefixLen.toUInt8
        .ok (network, prefixLen.toUInt8, s!"{formatIpv4 network}/{prefixLen}")

/-- `canonicalize_domain`. -/
def canonicalizeDomain (value : String) : Result String :=
  let domain := toAsciiLowercase
    (String.ofList (trimEndMatches (· == '.') (trim value).toList))
  let domain :=
    match domain.toList with
    | '*' :: '.' :: rest => String.ofList rest
    | _ => domain
  if domain = "" ∨ (splitDots domain).any (· == "") then
    .error (.parse s!"invalid domain suffix {debugStr value}")
  else .ok domain

/-- `domain_suffix_candidates`. -/
def domainSuffixCandidates (domain : String) : List String :=
  let labels := splitDots domain
  (List.range labels.length).map fun index => ".".intercalate (labels.drop index)

structure CompiledRulePattern where
  canonicalPattern : String
  ipv4Network : UInt32
  ipv4PrefixLen : UInt8
  domainSuffix : String
  deriving DecidableEq, Repr

/-- `compile_rule_pattern`. -/
def compileRulePattern (kind : RuleKind) (pattern : String) : Result CompiledRulePattern :=
  match kind with
  | .ipv4Cidr =>
    match parseIpv4Cidr pattern with
    | .error err => .error err
    | .ok (network, prefixLen, canonical) => .ok ⟨canonical, network, prefixLen, ""⟩
  | .domainSuffix =>
    match canonicalizeDomain pattern with
    | .error err => .error err
    | .ok suffix => .ok ⟨suffix, 0, 0, suffix⟩

/-! ## Matching -/

/-- `rule_kind_for_namespace`. -/
def ruleKindForNamespace (namespace' : String) : Option RuleKind :=
  match toAsciiLowercase (trim namespace') with
  | "ip" | "ipv4" | "ipv4_cidr" => some .ipv4Cidr
  | "domain" | "host" | "hostname" | "dns" => some .domainSuffix
  | _ => none

/-- `rule_matches_namespace`. -/
def ruleMatchesNamespace (rule : RuleEntry) (namespace' rawValue : String) : Bool :=
  if ruleKindForNamespace namespace' ≠ some rule.kind then false
  else
    match rule.kind with
    | .ipv4Cidr =>
      match parseIpv4Addr rawValue with
      | .ok ip => maskIpv4 ip rule.ipv4PrefixLen == rule.ipv4Network
      | .error _ => false
    | .domainSuffix =>
      match canonicalizeDomain rawValue with
      | .ok domain => (domainSuffixCandidates domain).contains rule.domainSuffix
      | .error _ => false

/-- `action_rank`. -/
def actionRank : Action → Nat
  | .deny => 2
  | .allowOverride => 1
  | .delete => 0

/-- `compare_rules_for_match`: the preferred rule is `Less`. -/
def compareRulesForMatch (left right : RuleEntry) : Ordering :=
  (compare right.priority left.priority).then
    ((compare (actionRank right.action) (actionRank left.action)).then
      (compare right.commitSeq left.commitSeq))

/-- The best rule so far of the rules that match a value (`RuleMatch` in `active_state.rs`). -/
abbrev RuleMatch := Option RuleEntry

/-- `RuleMatch::consider`. -/
def RuleMatch.consider (nowUnix : Nat) (best : RuleMatch) (rule : RuleEntry) : RuleMatch :=
  if rule.isExpired nowUnix then best
  else
    match best with
    | some current =>
      if compareRulesForMatch rule current ≠ .lt then some current else some rule
    | none => some rule

/-- `RuleMatch::into_decision`. -/
def RuleMatch.intoDecision (best : RuleMatch) : Decision :=
  match best with
  | none => .allow
  | some rule =>
    match rule.action with
    | .deny => .deny rule.reasonCode rule.priority ⟨rule.shardId, rule.commitSeq, 1, ""⟩
    | .allowOverride | .delete => .allow

instance : Std.TransCmp compareRulesForMatch :=
  have : Std.TransCmp (compareLex (compareOn RuleEntry.priority)
      (compareLex (compareOn fun r : RuleEntry => actionRank r.action)
        (compareOn RuleEntry.commitSeq))) := inferInstance
  @transCmp_flip RuleEntry _ this

/-- The loop over rules that `consider` runs in. -/
theorem foldl_consider (nowUnix : Nat) (p : RuleEntry → Bool) (best : RuleMatch)
    (l : List RuleEntry) :
    l.foldl (fun best rule => if p rule then RuleMatch.consider nowUnix best rule else best) best =
      keepBest compareRulesForMatch (fun r => !p r || r.isExpired nowUnix) best l := by
  unfold keepBest
  congr 1
  funext best rule
  unfold RuleMatch.consider keepBetter
  cases hp : p rule <;> cases he : rule.isExpired nowUnix <;> cases best <;> simp [hp, he, ite_not]

/-- `compare_entries_by_key`. -/
def compareEntriesByKey (left right : DenyEntry) : Ordering :=
  (compare left.tenantId right.tenantId).then
    ((compare left.namespace' right.namespace').then (compare left.keyHash right.keyHash))

/-- `same_entry_key`. -/
def sameEntryKey (left right : DenyEntry) : Bool :=
  left.tenantId == right.tenantId && left.namespace' == right.namespace' &&
    left.keyHash == right.keyHash

/-- `compare_rules_by_key`. -/
def compareRulesByKey (left right : RuleEntry) : Ordering :=
  (compare left.tenantId right.tenantId).then
    ((compare left.kind.asStr right.kind.asStr).then (compare left.ruleHash right.ruleHash))

/-- `entry_semantically_equal`: equal up to the commit's shard and sequence number. -/
def entrySemanticallyEqual (left right : DenyEntry) : Bool :=
  left.tenantId == right.tenantId && left.namespace' == right.namespace' &&
    left.keyHash == right.keyHash && left.action == right.action &&
    left.priority == right.priority && left.reasonCode == right.reasonCode &&
    left.expiresAt == right.expiresAt && left.createdBy == right.createdBy

/-- `rule_semantically_equal`. -/
def ruleSemanticallyEqual (left right : RuleEntry) : Bool :=
  left.tenantId == right.tenantId && left.kind == right.kind && left.pattern == right.pattern &&
    left.ruleHash == right.ruleHash && left.action == right.action &&
    left.priority == right.priority && left.reasonCode == right.reasonCode &&
    left.expiresAt == right.expiresAt && left.createdBy == right.createdBy &&
    left.ipv4Network == right.ipv4Network && left.ipv4PrefixLen == right.ipv4PrefixLen &&
    left.domainSuffix == right.domainSuffix

end Globacl
