import Globacl.Core.Auth
import Globacl.Core.Words

/-!
# The forms of the write requests (`globacl-core/src/lib/domain.rs`, `rules.rs`)

A write comes as an object of texts, from which a request is read. A denial that reaches very far needs
the approval of a second person, which the form carries.

* `ruleRequiresBlastRadiusOverride_iff`: the rules that need the approval are those that deny every
  address, or all that is below one label.
-/

namespace Globacl

open Lib

/-! ## Names -/

/-- `Action::from_name`. -/
def Action.fromName (value : String) : Result Action :=
  match toAsciiLowercase (trim value) with
  | "deny" => .ok .deny
  | "allow" | "allow_override" => .ok .allowOverride
  | "delete" | "remove" | "unblock" => .ok .delete
  | other => .error (.parse s!"unknown action {debugStr other}")

/-- `RuleKind::from_name`. -/
def RuleKind.fromName (value : String) : Result RuleKind :=
  match toAsciiLowercase (trim value) with
  | "ip" | "ipv4" | "cidr" | "ipv4_cidr" => .ok .ipv4Cidr
  | "domain" | "domain_suffix" | "suffix" => .ok .domainSuffix
  | other => .error (.parse s!"unknown rule kind {debugStr other}")

/-- `DeliveryPriority::from_name`. -/
def DeliveryPriority.fromName (value : String) : Result DeliveryPriority :=
  match toAsciiLowercase (trim value) with
  | "p0" | "emergency" | "emergency_deny" => .ok .p0
  | "p1" | "normal" | "mutation" => .ok .p1
  | "p2" | "repair" | "snapshot" => .ok .p2
  | other => .error (.parse s!"unknown delivery priority {debugStr other}")

/-! ## Forms -/

/-- `parse_u32` of a field. -/
def parseU32 (value : Option String) (default : Nat) (field : String) : Result Nat :=
  match value.filter fun value => trim value ≠ "" with
  | some value =>
    match parseUnsigned (2 ^ 32 - 1) (trim value) with
    | .ok n => .ok n
    | .error err => .error (.parse s!"invalid {field}: {err}")
  | none => .ok default

/-- The delivery priority of a form, under any of its names. -/
def formDeliveryPriority (form : Form) : Result DeliveryPriority :=
  match ((form.lookup "delivery_priority").or (form.lookup "channel")).or (form.lookup "stream") with
  | some value => DeliveryPriority.fromName value
  | none => .ok .p1

/-- `DenyRequest::from_json_fields`. -/
def DenyRequest.fromJsonFields (form : Form) : Result DenyRequest := do
  let opId ← required form "op_id"
  let tenantId ← required form "tenant_id"
  let namespace' ← required form "namespace"
  let key ← required form "key"
  let action ← Action.fromName ((form.lookup "action").getD "deny")
  let priority ← parseU32 (form.lookup "priority") 0 "priority"
  let reasonCode := (form.lookup "reason_code").getD "unspecified"
  let expiresAt ← parseU64 (form.lookup "expires_at") 0 "expires_at"
  let createdBy := (form.lookup "created_by").getD "unknown"
  let deliveryPriority ← formDeliveryPriority form
  pure {
    opId, tenantId, namespace', key, action, priority, reasonCode, expiresAt, createdBy,
    deliveryPriority }

/-- `RuleRequest::from_json_fields`. -/
def RuleRequest.fromJsonFields (form : Form) : Result RuleRequest := do
  let opId ← required form "op_id"
  let tenantId ← required form "tenant_id"
  let kind ← RuleKind.fromName
    (((form.lookup "kind").or (form.lookup "rule_kind")).getD "ipv4_cidr")
  let pattern ← required form "pattern"
  let action ← Action.fromName ((form.lookup "action").getD "deny")
  let priority ← parseU32 (form.lookup "priority") 0 "priority"
  let reasonCode := (form.lookup "reason_code").getD "unspecified"
  let expiresAt ← parseU64 (form.lookup "expires_at") 0 "expires_at"
  let createdBy := (form.lookup "created_by").getD "unknown"
  let deliveryPriority ← formDeliveryPriority form
  pure {
    opId, tenantId, kind, pattern, action, priority, reasonCode, expiresAt, createdBy,
    deliveryPriority }

/-! ## The blast radius -/

/-- `deny_requires_blast_radius_override`. -/
def denyRequiresBlastRadiusOverride (request : DenyRequest) : Bool :=
  if request.action ≠ .deny then false
  else
    let namespace' := toAsciiLowercase (trim request.namespace')
    let key := toAsciiLowercase (trim request.key)
    ["*", "all", "global", "tenant"].contains namespace' || ["*", "all"].contains key

/-- `rule_requires_blast_radius_override`. -/
def ruleRequiresBlastRadiusOverride (request : RuleRequest) : Bool :=
  if request.action ≠ .deny then false
  else
    match request.kind with
    | .ipv4Cidr =>
      match parseIpv4Cidr request.pattern with
      | .ok (_, prefixLen, _) => prefixLen == 0
      | .error _ => true
    | .domainSuffix =>
      match canonicalizeDomain request.pattern with
      | .ok domain => decide ((splitDots domain).length < 2)
      | .error _ => true

/-- `blast_radius_override_enabled`, of the gateway and of the source of truth. -/
def blastRadiusOverrideEnabled (form : Form) : Bool :=
  match ((form.lookup "override_blast_radius").or (form.lookup "blast_radius_override")).or
      (form.lookup "two_person_approved") with
  | some value => ["1", "true", "yes"].contains (toAsciiLowercase (trim value))
  | none => false

/-! ## What needs an override -/

section Broad

variable {rule : RuleEntry} {request : RuleRequest} {domain label : String}

/-- The rule matches every address, or every domain with one last label. -/
def RuleEntry.Broad (rule : RuleEntry) : Prop :=
  ∀ namespace', ruleKindForNamespace namespace' = some rule.kind →
    match rule.kind with
    | .ipv4Cidr => ∀ ip, ruleMatchesNamespace rule namespace' (formatIpv4 ip) = true
    | .domainSuffix => ∀ value domain, canonicalizeDomain value = .ok domain →
        (ruleMatchesNamespace rule namespace' value = true ↔
          (splitDots domain).getLast? = some rule.domainSuffix)

/-- Any top bits are those of two addresses at least, unless there are none. -/
theorem forall_topBits_iff {prefixLen : UInt8} (hle : prefixLen ≤ 32) {network : UInt32} :
    (∀ ip, topBits prefixLen ip = topBits prefixLen network) ↔ prefixLen = 0 := by
  constructor
  · intro h
    have hlow := h 0
    have hhigh := h 0xffffffff
    rw [← hlow, topBits, topBits, Nat.shiftRight_eq_div_pow, Nat.shiftRight_eq_div_pow] at hhigh
    have hle' := UInt8.le_iff_toNat_le.mp hle
    by_contra hne
    have hpos : 0 < prefixLen.toNat := by
      rcases Nat.eq_zero_or_pos prefixLen.toNat with hzero | hpos
      · exact absurd (UInt8.toNat_inj.mp hzero) hne
      · exact hpos
    have hpow : 2 ^ (32 - prefixLen.toNat) ≤ 2 ^ 31 := Nat.pow_le_pow_right (by decide) (by omega)
    have hdiv : 0 < 0xffffffff / 2 ^ (32 - prefixLen.toNat) :=
      Nat.div_pos (hpow.trans (by decide)) (Nat.two_pow_pos _)
    simp at hhigh
    omega
  · rintro rfl ip
    rw [topBits_zero, topBits_zero]

theorem getLast?_splitDots (h : '.' ∉ label.toList) :
    (splitDots domain).getLast? = some label ↔
      domain = label ∨ ∃ before, domain = before ++ "." ++ label := by
  constructor
  · intro hlast
    obtain ⟨front, hfront⟩ := List.getLast?_eq_some_iff.mp hlast
    have hjoin := intercalate_splitDots domain
    rw [hfront] at hjoin
    cases front with
    | nil =>
      left
      rw [← hjoin]
      simp
    | cons first front =>
      right
      refine ⟨".".intercalate (first :: front), ?_⟩
      rw [← hjoin, String.intercalate_append_of_ne_nil (List.cons_ne_nil _ _) (List.cons_ne_nil _ _)]
      simp
  · rintro (rfl | ⟨before, rfl⟩)
    · rw [splitDots_of_not_mem h]
      rfl
    · rw [splitDots_append, splitDots_of_not_mem h, List.getLast?_concat]

theorem splitDots_length_lt_two : (splitDots domain).length < 2 ↔ '.' ∉ domain.toList := by
  constructor
  · intro hlength hdot
    obtain ⟨before, after, hsplit⟩ := List.append_of_mem hdot
    have hdomain : domain = String.ofList before ++ "." ++ String.ofList after := by
      apply String.toList_inj.mp
      simp [hsplit]
    rw [hdomain, splitDots_append, List.length_append] at hlength
    have hbefore := List.length_pos_iff.mpr (splitDots_ne_nil (String.ofList before))
    have hafter := List.length_pos_iff.mpr (splitDots_ne_nil (String.ofList after))
    omega
  · intro hdot
    rw [splitDots_of_not_mem hdot, List.length_singleton]
    exact Nat.one_lt_two

/-- A compiled CIDR rule matches every address exactly if its prefix is empty. -/
theorem broad_ipv4 (h : rule.CompiledFrom request.pattern) (hkind : rule.kind = .ipv4Cidr) :
    rule.Broad ↔ rule.ipv4PrefixLen = 0 := by
  obtain ⟨hle, -⟩ := h.network hkind
  have hmatch : ∀ namespace', ruleKindForNamespace namespace' = some .ipv4Cidr → ∀ ip,
      (ruleMatchesNamespace rule namespace' (formatIpv4 ip) = true ↔
        topBits rule.ipv4PrefixLen ip = topBits rule.ipv4PrefixLen rule.ipv4Network) := by
    intro namespace' hnamespace ip
    rw [h.matches_ipv4 hkind hnamespace, parseIpv4Addr_formatIpv4]
    simp
  rw [← forall_topBits_iff hle]
  unfold RuleEntry.Broad
  rw [hkind]
  constructor
  · exact fun hbroad ip => (hmatch "ip" (by decide +kernel) ip).mp (hbroad "ip" (by decide +kernel) ip)
  · exact fun hbits namespace' hnamespace ip => (hmatch namespace' hnamespace ip).mpr (hbits ip)

/-- A compiled domain rule matches all that is below one label exactly if its suffix is that label. -/
theorem broad_domain (h : rule.CompiledFrom request.pattern) (hkind : rule.kind = .domainSuffix) :
    rule.Broad ↔ (splitDots rule.domainSuffix).length < 2 := by
  have hpattern : canonicalizeDomain request.pattern = .ok rule.domainSuffix := by
    unfold RuleEntry.CompiledFrom compileRulePattern at h
    rw [hkind] at h
    dsimp only at h
    split at h
    · cases h
    · rename_i suffix hsuffix
      rw [hsuffix, ← (CompiledRulePattern.mk.inj (Except.ok.inj h)).2.2.2]
  rw [splitDots_length_lt_two]
  unfold RuleEntry.Broad
  rw [hkind]
  constructor
  · intro hbroad hdot
    have hdns : ruleKindForNamespace "dns" = some .domainSuffix := by decide +kernel
    have hself := (hbroad "dns" hdns request.pattern _ hpattern).mp
      ((matches_domain hkind hdns _).mpr ⟨_, hpattern, Or.inl rfl⟩)
    -- The last label of the suffix has no dot, the suffix has one.
    have hmem := List.mem_of_getLast? hself
    obtain ⟨label, hlabel, heq⟩ := List.mem_map.mp hmem
    rw [← heq, String.toList_ofList] at hdot
    have := forall_mem_of_mem_splitOnP hlabel '.' hdot
    exact absurd this (by decide)
  · intro hdot namespace' hnamespace value domain hdomain
    rw [matches_domain hkind hnamespace, getLast?_splitDots hdot, hdomain]
    simp

/-- A denial whose pattern is compiled needs the approval if and only if the rule is broad. -/
theorem ruleRequires_of_compiledFrom (haction : request.action = .deny)
    (hkind : rule.kind = request.kind) (h : rule.CompiledFrom request.pattern) :
    ruleRequiresBlastRadiusOverride request = true ↔ rule.Broad := by
  unfold ruleRequiresBlastRadiusOverride
  rw [if_neg (not_not.mpr haction)]
  cases hrequest : request.kind with
  | ipv4Cidr =>
    rw [broad_ipv4 h (hkind.trans hrequest)]
    unfold RuleEntry.CompiledFrom compileRulePattern at h
    rw [hkind, hrequest] at h
    dsimp only at h ⊢
    split at h
    · cases h
    · rename_i network prefixLen canonical hparse
      rw [hparse, ← (CompiledRulePattern.mk.inj (Except.ok.inj h)).2.2.1]
      exact beq_iff_eq
  | domainSuffix =>
    rw [broad_domain h (hkind.trans hrequest)]
    unfold RuleEntry.CompiledFrom compileRulePattern at h
    rw [hkind, hrequest] at h
    dsimp only at h ⊢
    split at h
    · cases h
    · rename_i suffix hsuffix
      rw [hsuffix, ← (CompiledRulePattern.mk.inj (Except.ok.inj h)).2.2.2]
      exact decide_eq_true_iff

/-- A denial whose pattern is not compiled needs the approval. -/
theorem ruleRequires_of_error (haction : request.action = .deny) {err : GlobAclError}
    (h : compileRulePattern request.kind request.pattern = .error err) :
    ruleRequiresBlastRadiusOverride request = true := by
  unfold ruleRequiresBlastRadiusOverride
  rw [if_neg (not_not.mpr haction)]
  unfold compileRulePattern at h
  cases hrequest : request.kind <;> rw [hrequest] at h <;> dsimp only at h ⊢ <;> split at h
  · rename_i hparse
    rw [hparse]
  · cases h
  · rename_i hsuffix
    rw [hsuffix]
  · cases h

/-- A rule request needs the approval of a second person exactly if it denies, and each rule that its
pattern is compiled to matches every address or all that is below one label. In particular a pattern
that is not compiled needs it. -/
theorem ruleRequiresBlastRadiusOverride_iff (request : RuleRequest) :
    ruleRequiresBlastRadiusOverride request = true ↔ request.action = .deny ∧
      ∀ rule : RuleEntry, rule.kind = request.kind → rule.CompiledFrom request.pattern → rule.Broad := by
  by_cases haction : request.action = .deny
  · constructor
    · intro hrequires
      exact ⟨haction, fun rule hkind hfrom => (ruleRequires_of_compiledFrom haction hkind hfrom).mp hrequires⟩
    · rintro ⟨-, hbroad⟩
      cases hcompile : compileRulePattern request.kind request.pattern with
      | error err => exact ruleRequires_of_error haction hcompile
      | ok compiled =>
        -- A rule with the compiled pattern, whatever its other fields are.
        let rule : RuleEntry := {
          tenantId := "", kind := request.kind, pattern := compiled.canonicalPattern, ruleHash := 0,
          action := .deny, priority := 0, reasonCode := "", expiresAt := 0, createdBy := "",
          commitSeq := 0, shardId := 0, ipv4Network := compiled.ipv4Network,
          ipv4PrefixLen := compiled.ipv4PrefixLen, domainSuffix := compiled.domainSuffix }
        have hfrom : rule.CompiledFrom request.pattern := hcompile
        exact (ruleRequires_of_compiledFrom haction rfl hfrom).mpr (hbroad rule rfl hfrom)
  · constructor
    · intro hrequires
      unfold ruleRequiresBlastRadiusOverride at hrequires
      rw [if_pos haction] at hrequires
      cases hrequires
    · exact fun h => absurd h.1 haction

end Broad

end Globacl
