import Globacl.Core.Codec
import Globacl.Core.Faults
import Globacl.Edge.Converge

/-!
# The panics of an edge

The operations of an edge with every index, slice, subtraction, remainder and shift checked. An
operation that passes its checks is the plain one of the rest of the model. Everything is in bounds
by construction except the prefix length of an IPv4 rule, which comes from the wire as any byte: it
is an index into the buckets of the compiled rules and the amount of a shift in `mask_ipv4`.

* `Checked`: the operations with their checks, and where each passes them.
* `ActiveState.Filed`: the invariant. `Filed.advance`, `Filed.compactDeltaOverlay`: a step.
* `session_faultless`: a run of calls on a loaded snapshot.
-/

namespace Globacl

open Lib

namespace Checked

/-! ## Values -/

/-- `mask_ipv4`. -/
def maskIpv4 (value : UInt32) (prefixLen : UInt8) : Result UInt32 :=
  if prefixLen = 0 then .ok 0
  else do
    let amount ← shiftAmount 32 (← subtract 32 prefixLen.toNat)
    pure (value &&& (~~~(0 : UInt32) <<< amount.toUInt32))

/-- The loop of `parse_ipv4_addr`, which writes the next of four octets. -/
def parseOctets (value : String) : List String → List UInt8 → Result (List UInt8)
  | [], octets => .ok octets
  | part :: parts, octets =>
    if octets.length ≥ 4 then .error (.parse s!"invalid IPv4 address {debugStr value}")
    else
      match parseUnsigned 255 part with
      | .error err => .error (.parse s!"invalid IPv4 address {debugStr value}: {err}")
      | .ok octet => do
        let _ ← index (List.replicate 4 (0 : UInt8)) octets.length
        parseOctets value parts (octets ++ [octet.toUInt8])

/-- `parse_ipv4_addr`. -/
def parseIpv4Addr (value : String) : Result UInt32 :=
  match parseOctets value (splitDots (trim value)) [] with
  | .error err => .error err
  | .ok [a, b, c, d] => .ok (fromBeBytes a b c d)
  | .ok _ => .error (.parse s!"invalid IPv4 address {debugStr value}")

/-- `domain_suffix_candidates`. -/
def domainSuffixCandidates (domain : String) : Result (List String) :=
  let labels := splitDots domain
  (List.range labels.length).mapM fun index => do
    pure (".".intercalate (← sliceFrom labels index))

/-- `rule_matches_namespace`. -/
def ruleMatchesNamespace (rule : RuleEntry) (namespace' rawValue : String) : Result Bool :=
  if ruleKindForNamespace namespace' ≠ some rule.kind then .ok false
  else
    match rule.kind with
    | .ipv4Cidr => do
      match ← caught (parseIpv4Addr rawValue) with
      | some ip => pure ((← maskIpv4 ip rule.ipv4PrefixLen) == rule.ipv4Network)
      | none => pure false
    | .domainSuffix =>
      match canonicalizeDomain rawValue with
      | .ok domain => do pure ((← domainSuffixCandidates domain).contains rule.domainSuffix)
      | .error _ => .ok false

/-! ## The base -/

/-- `SymbolTable::get`. -/
def get (symbols : SymbolTable) (id : Nat) : Result String := index symbols.values id

/-- `to_deny_entry`. -/
def toDenyEntry (symbols : SymbolTable) (c : CompactDenyEntry) : Result DenyEntry := do
  let tenantId ← get symbols c.tenantId
  let namespace' ← get symbols c.namespace'
  let reasonCode ← get symbols c.reasonCode
  let createdBy ← get symbols c.createdBy
  pure { tenantId, namespace', keyHash := c.keyHash, action := c.action, priority := c.priority,
         reasonCode, expiresAt := c.expiresAt, createdBy, commitSeq := c.commitSeq,
         shardId := c.shardId }

/-- `bit_index`. -/
def bitIndex (filter : NegativeFilter) (hashes : UInt64 × UInt64) (index : Nat) : Result Nat :=
  let index := index.toUInt64
  remainder (hashes.1 + index * hashes.2 + index * index).toNat filter.bitLen

/-- A step of the loop of `insert_parts`. -/
def insertBit (hashes : UInt64 × UInt64) (filter : NegativeFilter) (i : Nat) :
    Result NegativeFilter := do
  let bitIndex ← bitIndex filter hashes i
  let _ ← index filter.bits (bitIndex / 64)
  let _ ← shiftAmount 64 (bitIndex % 64)
  pure (filter.setBit bitIndex)

/-- `insert_parts`. -/
def insertParts (filter : NegativeFilter) (tenantId namespace' : String) (keyHash : UInt64) :
    Result NegativeFilter :=
  (List.range negativeFilterHashes).foldlM
    (insertBit (NegativeFilter.hashPairParts tenantId namespace' keyHash)) filter

/-- The loop of `may_contain_parts` over the indices. -/
def containsBits (hashes : UInt64 × UInt64) (filter : NegativeFilter) : List Nat → Result Bool
  | [] => .ok true
  | i :: l => do
    let bitIndex ← bitIndex filter hashes i
    let word ← index filter.bits (bitIndex / 64)
    let _ ← shiftAmount 64 (bitIndex % 64)
    if word &&& NegativeFilter.bitMask bitIndex = 0 then pure false
    else containsBits hashes filter l

/-- `may_contain_parts`. -/
def mayContainParts (filter : NegativeFilter) (tenantId namespace' : String) (keyHash : UInt64) :
    Result Bool :=
  if filter.bitLen = 0 then .ok false
  else containsBits (NegativeFilter.hashPairParts tenantId namespace' keyHash) filter
    (List.range negativeFilterHashes)

/-- The step of `from_compact_entries` that inserts an entry. -/
def insertEntry (symbols : SymbolTable) (filter : NegativeFilter) (c : CompactDenyEntry) :
    Result NegativeFilter := do
  let tenantId ← get symbols c.tenantId
  let namespace' ← get symbols c.namespace'
  insertParts filter tenantId namespace' c.keyHash

/-- `NegativeFilter::from_compact_entries`. -/
def fromCompactEntries (entries : List CompactDenyEntry) (symbols : SymbolTable) :
    Result NegativeFilter :=
  if entries.isEmpty then .ok ⟨[], 0, NegativeFilter.bits_length_nil⟩
  else
    let words := (max (entries.length * negativeFilterBitsPerEntry) 64 + 63) / 64
    entries.foldlM (insertEntry symbols)
      ⟨List.replicate words 0, words * 64, NegativeFilter.bits_length_replicate words⟩

/-- `ImmutableBase::from_entries`. The filter of the base is the one that the checks build. -/
def fromEntries (entries : List DenyEntry) : Result ImmutableBase := do
  let base ← ImmutableBase.fromEntries entries
  let _ ← fromCompactEntries base.entries base.symbols
  pure base

/-- `lookup_parts`. The binary search gives the place of an entry. -/
def lookupParts (base : ImmutableBase) (tenantId namespace' : String) (keyHash : UInt64) :
    Result (Option CompactDenyEntry) := do
  if ← mayContainParts base.filter tenantId namespace' keyHash then
    pure (base.lookupExactParts tenantId namespace' keyHash)
  else pure none

/-- `decision_for_parts`. -/
def decisionForParts (base : ImmutableBase) (tenantId namespace' : String) (keyHash : UInt64)
    (nowUnix : Nat) : Result Decision := do
  match ← lookupParts base tenantId namespace' keyHash with
  | none => pure .allow
  | some c =>
    if c.isExpired nowUnix then pure .allow
    else
      match c.action with
      | .deny => do
        pure (.deny (← get base.symbols c.reasonCode) c.priority ⟨c.shardId, c.commitSeq, 1, ""⟩)
      | .allowOverride | .delete => pure .allow

/-! ## The compiled rules -/

/-- A step of the loop of `consider_matches` over the prefix lengths. -/
def considerPrefix (c : CompiledRules) (tenantId : String) (ip : UInt32) (nowUnix : Nat)
    (removed : HashMap RuleKey Nat) (best : RuleMatch) (prefixLen : Nat) : Result RuleMatch := do
  let network ← maskIpv4 ip prefixLen.toUInt8
  let byKey ← index c.ipv4ByPrefix prefixLen
  pure (CompiledRules.considerBucket removed nowUnix best (bucket byKey (tenantId, network)))

/-- `consider_matches`. -/
def considerMatches (c : CompiledRules) (tenantId namespace' rawValue : String) (nowUnix : Nat)
    (removed : HashMap RuleKey Nat) (best : RuleMatch) : Result RuleMatch :=
  match ruleKindForNamespace namespace' with
  | some .ipv4Cidr => do
    match ← caught (parseIpv4Addr rawValue) with
    | some ip => (List.range 33).reverse.foldlM (considerPrefix c tenantId ip nowUnix removed) best
    | none => pure best
  | some .domainSuffix =>
    match canonicalizeDomain rawValue with
    | .ok domain => do
      let suffixes ← domainSuffixCandidates domain
      pure (suffixes.foldl
        (fun best suffix => CompiledRules.considerBucket removed nowUnix best
          (bucket c.domainSuffixes (tenantId, suffix))) best)
    | .error _ => .ok best
  | none => .ok best

/-! ## The state -/

/-- `ActiveState::from_snapshot`. -/
def fromSnapshot (snapshot : Snapshot) : Result ActiveState := do
  snapshot.validate
  let _ ← fromEntries snapshot.entries
  let _ ← CompiledRules.fromRules snapshot.rules
  ActiveState.fromSnapshot snapshot

/-- `apply_mutation`. -/
def applyMutation (a : ActiveState) (m : Mutation) : Result (ApplyStatus × ActiveState) :=
  if m.shard ≥ a.shardCount then
    .error (.invalidData s!"shard {m.shard} is outside shard_count {a.shardCount}")
  else do
    let currentSeq ← index a.watermarks m.shard
    if m.seq ≤ currentSeq then pure (.duplicateOrOld, a)
    else if m.seq ≠ currentSeq + 1 then .error (.gap m.shard (currentSeq + 1) m.seq)
    else pure (.applied, a.advance m)

/-- `lookup`. -/
def lookup (a : ActiveState) (tenantId namespace' rawKey : String) (nowUnix : Nat) :
    Result Decision :=
  let keyHash := stableKeyHash tenantId namespace' rawKey
  let base := decisionForParts a.base tenantId namespace' keyHash nowUnix
  if !a.deltaAdds.entries.isEmpty || !a.deltaRemoves.entries.isEmpty then
    let key : AclKey := ⟨tenantId, namespace', keyHash⟩
    match a.deltaAdds.lookup key with
    | some entry => .ok (decisionForEntry (some entry) nowUnix)
    | none => if key ∈ a.deltaRemoves then .ok .allow else base
  else base

/-- A step of the loop of `consider_delta_rules`. -/
def considerDeltaRule (tenantId namespace' rawValue : String) (nowUnix : Nat) (best : RuleMatch)
    (rule : RuleEntry) : Result RuleMatch :=
  if rule.tenantId = tenantId then do
    if ← ruleMatchesNamespace rule namespace' rawValue then
      pure (RuleMatch.consider nowUnix best rule)
    else pure best
  else .ok best

/-- `check`. -/
def check (ord : IterOrder) (a : ActiveState) (tenantId namespace' rawValue : String)
    (nowUnix : Nat) : Result Decision := do
  let point ← lookup a tenantId namespace' rawValue nowUnix
  if point.isDenied then pure point
  else do
    let best ← (a.deltaRuleAdds.values ord).foldlM
      (considerDeltaRule tenantId namespace' rawValue nowUnix) none
    let best ← considerMatches a.ruleBase tenantId namespace' rawValue nowUnix
      a.deltaRuleRemoves best
    pure best.intoDecision

/-- `materialized_entries`. -/
def materializedEntries (ord : IterOrder) (a : ActiveState) : Result (List DenyEntry) := do
  let entries ← a.base.entries.mapM (toDenyEntry a.base.symbols)
  pure ((entries.filter fun entry =>
    decide (entry.aclKey ∉ a.deltaRemoves) && decide (entry.aclKey ∉ a.deltaAdds)) ++
    a.deltaAdds.values ord)

/-- `snapshot`. -/
def snapshot (ord : IterOrder) (a : ActiveState) : Result Snapshot := do
  pure ⟨a.shardCount, a.watermarks, ← materializedEntries ord a, a.materializedRules ord⟩

/-- `compact_delta_overlay`. -/
def compactDeltaOverlay (ord : IterOrder) (a : ActiveState) : Result ActiveState :=
  if a.deltaAdds.entries.isEmpty && a.deltaRemoves.entries.isEmpty &&
      a.deltaRuleAdds.entries.isEmpty && a.deltaRuleRemoves.entries.isEmpty then .ok a
  else do
    let base ← fromEntries (← materializedEntries ord a)
    let ruleBase ← CompiledRules.fromRules (a.materializedRules ord)
    pure
      { a with
        base
        ruleBase
        deltaAdds := ∅
        deltaRemoves := ∅
        deltaRuleAdds := ∅
        deltaRuleRemoves := ∅
        adds_keyed := .empty _
        ruleAdds_keyed := .empty _ }

/-! ## Where the checks pass -/

theorem maskIpv4_eq {prefixLen : UInt8} (h : prefixLen ≤ 32) (value : UInt32) :
    maskIpv4 value prefixLen = .ok (Globacl.maskIpv4 value prefixLen) := by
  have hle : prefixLen.toNat ≤ 32 := UInt8.le_iff_toNat_le.mp h
  unfold maskIpv4 Globacl.maskIpv4
  split
  · rfl
  · rename_i hne
    have hpos : prefixLen.toNat ≠ 0 := fun h0 => hne (UInt8.toNat_inj.mp h0)
    have hamount : (32 - prefixLen.toNat).toUInt32 = (32 - prefixLen).toUInt32 := by
      rw [← UInt32.toNat_inj, UInt8.toNat_toUInt32, UInt8.toNat_sub_of_le _ _ h]
      exact Nat.mod_eq_of_lt (by omega)
    simp only [subtract_eq hle, bind, Except.bind,
      shiftAmount_eq (show 32 - prefixLen.toNat < 32 by omega), hamount]
    rfl

theorem parseOctets_eq (value : String) (parts : List String) (octets : List UInt8) :
    parseOctets value parts octets = Globacl.parseOctets value parts octets := by
  induction parts generalizing octets with
  | nil => rfl
  | cons part parts ih =>
    unfold parseOctets Globacl.parseOctets
    split
    · rfl
    · rename_i hlt
      have hcount : octets.length < (List.replicate 4 (0 : UInt8)).length := by
        rw [List.length_replicate]
        omega
      cases parseUnsigned 255 part with
      | error err => rfl
      | ok octet =>
        simp only [index_getD hcount 0]
        exact ih _

theorem parseIpv4Addr_eq (value : String) : parseIpv4Addr value = Globacl.parseIpv4Addr value := by
  unfold parseIpv4Addr Globacl.parseIpv4Addr
  rcases hoctets : Globacl.parseOctets value (splitDots (trim value)) [] with
      err | _ | ⟨a, _ | ⟨b, _ | ⟨c, _ | ⟨d, _ | ⟨e, l⟩⟩⟩⟩⟩ <;>
    simp only [parseOctets_eq, hoctets]

theorem caught_parseIpv4Addr (value : String) :
    caught (parseIpv4Addr value) = .ok (Globacl.parseIpv4Addr value).toOption := by
  rw [parseIpv4Addr_eq]
  cases hp : Globacl.parseIpv4Addr value with
  | ok ip => rfl
  | error err =>
    obtain ⟨message, rfl⟩ := parseIpv4Addr_error hp
    rfl

theorem domainSuffixCandidates_eq (domain : String) :
    domainSuffixCandidates domain = .ok (Globacl.domainSuffixCandidates domain) := by
  unfold domainSuffixCandidates Globacl.domainSuffixCandidates
  apply mapM_eq
  intro i hi
  rw [sliceFrom_eq (Nat.le_of_lt (List.mem_range.mp hi))]
  rfl

/-- Whether a rule matches goes through for a rule with a bucket. -/
theorem ruleMatchesNamespace_eq {rule : RuleEntry}
    (h : rule.kind = .ipv4Cidr → rule.ipv4PrefixLen ≤ 32) (namespace' rawValue : String) :
    ruleMatchesNamespace rule namespace' rawValue =
      .ok (Globacl.ruleMatchesNamespace rule namespace' rawValue) := by
  unfold ruleMatchesNamespace Globacl.ruleMatchesNamespace
  split
  · rfl
  · cases hk : rule.kind with
    | ipv4Cidr =>
      simp only [caught_parseIpv4Addr, bind, Except.bind]
      cases Globacl.parseIpv4Addr rawValue with
      | error err => rfl
      | ok ip =>
        simp only [Except.toOption, maskIpv4_eq (h hk)]
        rfl
    | domainSuffix =>
      cases canonicalizeDomain rawValue with
      | error err => rfl
      | ok domain =>
        simp only [domainSuffixCandidates_eq]
        rfl

theorem get_of_getElem? {symbols : SymbolTable} {id : Nat} {value : String}
    (h : symbols.values[id]? = some value) : get symbols id = .ok (symbols.get id) := by
  rw [SymbolTable.get_eq h]
  exact index_eq h

theorem toDenyEntry_eq {symbols : SymbolTable} {c : CompactDenyEntry} {e : DenyEntry}
    (h : c.Encodes symbols e) : toDenyEntry symbols c = .ok (c.toDenyEntry symbols) := by
  unfold toDenyEntry CompactDenyEntry.toDenyEntry
  simp only [get_of_getElem? h.tenantId, get_of_getElem? h.ns, get_of_getElem? h.reasonCode,
    get_of_getElem? h.createdBy]
  rfl

section Filter

variable {filter : NegativeFilter} (h : 0 < filter.bitLen)
include h

theorem bitIndex_eq (hashes : UInt64 × UInt64) (i : Nat) :
    bitIndex filter hashes i = .ok (filter.bitIndex hashes i) := remainder_eq h

theorem bitIndex_lt (hashes : UInt64 × UInt64) (i : Nat) :
    filter.bitIndex hashes i < filter.bitLen := Nat.mod_lt _ h

theorem word_lt (hashes : UInt64 × UInt64) (i : Nat) :
    filter.bitIndex hashes i / 64 < filter.bits.length := by
  have hlt := bitIndex_lt h hashes i
  have hlen := filter.bits_length
  omega

theorem insertBit_eq (hashes : UInt64 × UInt64) (i : Nat) :
    insertBit hashes filter i = .ok (filter.setBit (filter.bitIndex hashes i)) := by
  unfold insertBit
  simp only [bitIndex_eq h, bind, Except.bind, index_getD (word_lt h hashes i) 0,
    shiftAmount_eq (Nat.mod_lt _ (by decide : 0 < 64))]
  rfl

theorem insertBits_eq (hashes : UInt64 × UInt64) (l : List Nat) :
    l.foldlM (insertBit hashes) filter = .ok (NegativeFilter.setBits hashes filter l) :=
  foldlM_eq (fun filter => 0 < filter.bitLen)
    (fun _ hf i _ => ⟨insertBit_eq hf hashes i, hf⟩) h

theorem insertParts_eq (tenantId namespace' : String) (keyHash : UInt64) :
    insertParts filter tenantId namespace' keyHash =
      .ok (filter.insertParts tenantId namespace' keyHash) := by
  unfold insertParts NegativeFilter.insertParts
  rw [insertBits_eq h]

theorem containsBits_eq (hashes : UInt64 × UInt64) (l : List Nat) :
    containsBits hashes filter l =
      .ok (l.all fun i => filter.testBit (filter.bitIndex hashes i)) := by
  induction l with
  | nil => rfl
  | cons i l ih =>
    unfold containsBits
    simp only [bitIndex_eq h, bind, Except.bind, index_getD (word_lt h hashes i) 0,
      shiftAmount_eq (Nat.mod_lt _ (by decide : 0 < 64)), List.all_cons]
    split
    · rename_i h0
      have hbit : filter.testBit (filter.bitIndex hashes i) = false := by
        rw [NegativeFilter.testBit, h0]
        rfl
      rw [hbit]
      rfl
    · rename_i h0
      have hbit : filter.testBit (filter.bitIndex hashes i) = true := by
        rw [NegativeFilter.testBit, bne_iff_ne]
        exact h0
      rw [hbit, ih]
      rfl

end Filter

theorem mayContainParts_eq (filter : NegativeFilter) (tenantId namespace' : String)
    (keyHash : UInt64) : mayContainParts filter tenantId namespace' keyHash =
      .ok (filter.mayContainParts tenantId namespace' keyHash) := by
  unfold mayContainParts NegativeFilter.mayContainParts
  split
  · rfl
  · rename_i hne
    exact containsBits_eq (Nat.pos_of_ne_zero hne) _ _

theorem fromCompactEntries_eq {entries : List CompactDenyEntry} {symbols : SymbolTable}
    (h : ∀ c ∈ entries, ∃ e, c.Encodes symbols e) :
    fromCompactEntries entries symbols = .ok (.fromCompactEntries entries symbols) := by
  unfold fromCompactEntries NegativeFilter.fromCompactEntries
  split
  · rfl
  · apply foldlM_eq (fun filter => 0 < filter.bitLen)
    · intro filter hf c hc
      obtain ⟨e, henc⟩ := h c hc
      refine ⟨?_, by simpa using hf⟩
      simp only [insertEntry, get_of_getElem? henc.tenantId, get_of_getElem? henc.ns, bind,
        Except.bind, insertParts_eq hf]
    · dsimp only
      omega

theorem fromEntries_eq (entries : List DenyEntry) :
    fromEntries entries = ImmutableBase.fromEntries entries := by
  unfold fromEntries
  cases ImmutableBase.fromEntries entries with
  | error err => rfl
  | ok base =>
    simp only [bind, Except.bind, fromCompactEntries_eq base.encodes]
    rfl

theorem decisionForParts_eq (base : ImmutableBase) (tenantId namespace' : String)
    (keyHash : UInt64) (nowUnix : Nat) : decisionForParts base tenantId namespace' keyHash nowUnix =
      .ok (base.decisionForParts tenantId namespace' keyHash nowUnix) := by
  have hlookup : lookupParts base tenantId namespace' keyHash =
      .ok (base.lookupParts tenantId namespace' keyHash) := by
    unfold lookupParts ImmutableBase.lookupParts
    rw [mayContainParts_eq]
    cases base.filter.mayContainParts tenantId namespace' keyHash <;> rfl
  unfold decisionForParts ImmutableBase.decisionForParts
  rw [hlookup]
  simp only [bind, Except.bind]
  cases hl : base.lookupParts tenantId namespace' keyHash with
  | none => rfl
  | some c =>
    dsimp only
    have hc : c ∈ base.entries := by
      unfold ImmutableBase.lookupParts at hl
      split at hl
      · cases hl
      · let key : AclKey := ⟨tenantId, namespace', keyHash⟩
        exact (@ImmutableBase.lookupExactParts_eq_some base key c).mp hl |>.1
    obtain ⟨e, henc⟩ := base.encodes c hc
    split
    · rfl
    · cases c.action with
      | deny =>
        simp only [get_of_getElem? henc.reasonCode]
        rfl
      | allowOverride => rfl
      | delete => rfl

theorem considerPrefix_eq (c : CompiledRules) (tenantId : String) (ip : UInt32) (nowUnix : Nat)
    (removed : HashMap RuleKey Nat) (best : RuleMatch) {prefixLen : Nat} (h : prefixLen < 33) :
    considerPrefix c tenantId ip nowUnix removed best prefixLen =
      .ok (CompiledRules.considerBucket removed nowUnix best (ipv4Bucket c.ipv4ByPrefix prefixLen
        (tenantId, Globacl.maskIpv4 ip prefixLen.toUInt8))) := by
  have hle : prefixLen.toUInt8 ≤ 32 := by
    have hnat : prefixLen.toUInt8.toNat = prefixLen := Nat.mod_eq_of_lt (by omega)
    rw [UInt8.le_iff_toNat_le, hnat]
    exact Nat.lt_succ_iff.mp h
  unfold considerPrefix ipv4Bucket
  simp only [maskIpv4_eq hle, bind, Except.bind, index_getD (c.prefixes ▸ h) ∅]
  rfl

theorem considerPrefixes_eq (c : CompiledRules) (tenantId : String) (ip : UInt32) (nowUnix : Nat)
    (removed : HashMap RuleKey Nat) (best : RuleMatch) {l : List Nat} (h : ∀ p ∈ l, p < 33) :
    l.foldlM (considerPrefix c tenantId ip nowUnix removed) best =
      .ok (l.foldl (fun best prefixLen => CompiledRules.considerBucket removed nowUnix best
        (ipv4Bucket c.ipv4ByPrefix prefixLen (tenantId, Globacl.maskIpv4 ip prefixLen.toUInt8)))
        best) :=
  foldlM_eq (fun _ => True)
    (fun best _ p hp => ⟨considerPrefix_eq c tenantId ip nowUnix removed best (h p hp), trivial⟩)
    trivial

theorem considerMatches_eq (c : CompiledRules) (tenantId namespace' rawValue : String)
    (nowUnix : Nat) (removed : HashMap RuleKey Nat) (best : RuleMatch) :
    considerMatches c tenantId namespace' rawValue nowUnix removed best =
      .ok (c.considerMatches tenantId namespace' rawValue nowUnix removed best) := by
  have hlt : ∀ p ∈ (List.range 33).reverse, p < 33 := fun p hp =>
    List.mem_range.mp (List.mem_reverse.mp hp)
  unfold considerMatches CompiledRules.considerMatches
  generalize (List.range 33).reverse = prefixes at hlt ⊢
  cases ruleKindForNamespace namespace' with
  | none => rfl
  | some kind =>
    cases kind with
    | ipv4Cidr =>
      dsimp only
      rw [caught_parseIpv4Addr]
      cases Globacl.parseIpv4Addr rawValue with
      | error err => rfl
      | ok ip => exact considerPrefixes_eq c tenantId ip nowUnix removed best hlt
    | domainSuffix =>
      cases canonicalizeDomain rawValue with
      | error err => rfl
      | ok domain =>
        dsimp only
        rw [domainSuffixCandidates_eq]
        rfl

/-! ## The operations -/

theorem fromSnapshot_eq (snapshot : Snapshot) :
    fromSnapshot snapshot = ActiveState.fromSnapshot snapshot := by
  unfold fromSnapshot
  rw [fromEntries_eq]
  cases hv : snapshot.validate with
  | error err =>
    unfold ActiveState.fromSnapshot
    split
    · simp_all [bind, Except.bind]
    · simp_all
  | ok _ =>
    cases hb : ImmutableBase.fromEntries snapshot.entries with
    | error err =>
      unfold ActiveState.fromSnapshot
      split
      · simp_all
      · simp_all [bind, Except.bind]
    | ok base =>
      cases hr : CompiledRules.fromRules snapshot.rules with
      | error err =>
        unfold ActiveState.fromSnapshot
        split
        · simp_all
        · simp_all [bind, Except.bind]
      | ok ruleBase => rfl

theorem applyMutation_eq (a : ActiveState) (m : Mutation) :
    applyMutation a m = a.applyMutation m := by
  unfold applyMutation ActiveState.applyMutation
  split
  · rfl
  · rename_i hlt
    have hindex : m.shard < a.watermarks.length := by
      rw [a.watermarks_length]
      omega
    rw [index_getD hindex 0]
    rfl

theorem lookup_eq (a : ActiveState) (tenantId namespace' rawKey : String) (nowUnix : Nat) :
    lookup a tenantId namespace' rawKey nowUnix =
      .ok (a.lookup tenantId namespace' rawKey nowUnix) := by
  unfold lookup ActiveState.lookup
  dsimp only
  rw [decisionForParts_eq]
  split
  · cases a.deltaAdds.lookup ⟨tenantId, namespace', stableKeyHash tenantId namespace' rawKey⟩ with
    | some entry => rfl
    | none => exact (apply_ite Except.ok _ _ _).symm
  · rfl

theorem materializedEntries_eq (ord : IterOrder) (a : ActiveState) :
    materializedEntries ord a = .ok (a.materializedEntries ord) := by
  have hentries : a.base.entries.mapM (toDenyEntry a.base.symbols) =
      .ok a.base.materializedEntries := by
    refine mapM_eq fun c hc => ?_
    obtain ⟨e, henc⟩ := a.base.encodes c hc
    exact toDenyEntry_eq henc
  unfold materializedEntries
  rw [hentries]
  rfl

theorem snapshot_eq (ord : IterOrder) (a : ActiveState) :
    snapshot ord a = .ok (a.snapshot ord) := by
  unfold snapshot
  rw [materializedEntries_eq]
  rfl

theorem compactDeltaOverlay_eq (ord : IterOrder) (a : ActiveState) :
    compactDeltaOverlay ord a = a.compactDeltaOverlay ord := by
  unfold compactDeltaOverlay ActiveState.compactDeltaOverlay
  split
  · rfl
  · rw [materializedEntries_eq]
    simp only [bind, Except.bind, fromEntries_eq]

end Checked

/-- The IPv4 rules of the overlay have buckets. -/
def ActiveState.Filed (a : ActiveState) : Prop :=
  ∀ key rule, a.deltaRuleAdds.lookup key = some rule → rule.kind = .ipv4Cidr →
    rule.ipv4PrefixLen ≤ 32

namespace ActiveState

variable {a a' : ActiveState}

theorem Filed.check_eq (h : a.Filed) (ord : IterOrder) (tenantId namespace' rawValue : String)
    (nowUnix : Nat) : Checked.check ord a tenantId namespace' rawValue nowUnix =
      .ok (a.check ord tenantId namespace' rawValue nowUnix) := by
  have hdelta : (a.deltaRuleAdds.values ord).foldlM
      (Checked.considerDeltaRule tenantId namespace' rawValue nowUnix) none =
        .ok (a.considerDeltaRules ord tenantId namespace' rawValue nowUnix none) := by
    refine foldlM_eq (fun _ => True) (fun best _ rule hr => ⟨?_, trivial⟩) trivial
    obtain ⟨key, hkey⟩ := HashMap.mem_values.mp hr
    unfold Checked.considerDeltaRule
    by_cases htenant : rule.tenantId = tenantId
    · rw [if_pos htenant, Checked.ruleMatchesNamespace_eq (h key rule hkey)]
      cases hm : ruleMatchesNamespace rule namespace' rawValue
      · rw [if_neg (by simp)]
        rfl
      · rw [if_pos ⟨htenant, rfl⟩]
        rfl
    · rw [if_neg htenant, if_neg fun h => htenant h.1]
  unfold Checked.check ActiveState.check
  rw [Checked.lookup_eq]
  simp only [bind, Except.bind, hdelta, Checked.considerMatches_eq]
  split
  · rfl
  · rfl

/-- The rules that a compaction compiles have buckets. -/
theorem Filed.materializedRules (h : a.Filed) (ord : IterOrder) :
    ∀ r ∈ a.materializedRules ord, r.HasBucket := by
  intro r hr _ hk
  rcases List.mem_append.mp hr with hr | hr
  · have hholds := CompiledRules.mem_allRules.mp (List.mem_filter.mp hr).1
    exact UInt8.le_iff_toNat_le.mpr (Nat.lt_succ_iff.mp (hholds.prefixLen_lt hk))
  · obtain ⟨key, hkey⟩ := HashMap.mem_values.mp hr
    exact h key r hkey hk

/-- A mutation whose rule has a bucket keeps the overlay in its buckets. -/
theorem Filed.advance (h : a.Filed) {m : Mutation} (hm : ∀ r ∈ m.rule, r.HasBucket) :
    (a.advance m).Filed := by
  intro key rule hkey hk
  unfold ActiveState.advance ActiveState.setWatermark at hkey
  cases hr : m.rule with
  | none =>
    simp only [hr, applyEntry] at hkey
    split at hkey <;> exact h key rule hkey hk
  | some r =>
    have hbucket : r.HasBucket := hm r hr
    simp only [hr, applyRule] at hkey
    split at hkey
    · rw [HashMap.lookup_erase_eq] at hkey
      split at hkey
      · cases hkey
      · exact h key rule hkey hk
    · rename_i hact
      rw [HashMap.lookup_insert_eq] at hkey
      split at hkey
      · cases hkey
        exact hbucket (by rw [hact]; decide) hk
      · exact h key rule hkey hk
    · rename_i hact
      rw [HashMap.lookup_insert_eq] at hkey
      split at hkey
      · cases hkey
        exact hbucket (by rw [hact]; decide) hk
      · exact h key rule hkey hk

end ActiveState

/-! ## Sessions -/

/-- A call on the state of an edge. -/
inductive Call where
  | applyMutation (m : Mutation)
  | check (tenantId namespace' rawValue : String) (nowUnix : Nat)
  | snapshot
  | compactDeltaOverlay

/-- The mutation that a call delivers. -/
def Call.mutation : Call → Option Mutation
  | .applyMutation m => some m
  | _ => none

/-- A call with its checks, and the state after it. A refused mutation leaves the state. -/
def Call.run (ord : IterOrder) (a : ActiveState) : Call → Result ActiveState
  | .applyMutation m => do
    match ← caught (Checked.applyMutation a m) with
    | some (_, a') => pure a'
    | none => pure a
  | .check tenantId namespace' rawValue nowUnix => do
    let _ ← Checked.check ord a tenantId namespace' rawValue nowUnix
    pure a
  | .snapshot => do
    let _ ← Checked.snapshot ord a
    pure a
  | .compactDeltaOverlay => Checked.compactDeltaOverlay ord a

/-- An edge loads a snapshot and then runs the calls. -/
def session (ord : IterOrder) (snapshot : Snapshot) (calls : List Call) : Result ActiveState := do
  let a ← Checked.fromSnapshot snapshot
  calls.foldlM (Call.run ord) a

/-- The mutations that an edge at the watermarks accepts, one after the other: each is the next of
its shard. -/
def accepted : List Nat → List Mutation → List Mutation
  | _, [] => []
  | watermarks, m :: ms =>
    if m.shard < watermarks.length ∧ m.seq = watermarks.getD m.shard 0 + 1 then
      m :: accepted (watermarks.set m.shard m.seq) ms
    else accepted watermarks ms

theorem SymbolTable.intern_error {symbols : SymbolTable} {value : String} {err : GlobAclError}
    (h : symbols.intern value = .error err) :
    err = .panicked "symbol table exceeded u32::MAX entries" := by
  unfold SymbolTable.intern at h
  split at h
  · cases h
  · split at h
    · cases h
      rfl
    · cases h

theorem CompactDenyEntry.fromEntry_error {entry : DenyEntry} {symbols : SymbolTable}
    {err : GlobAclError} (h : CompactDenyEntry.fromEntry entry symbols = .error err) :
    err = .panicked "symbol table exceeded u32::MAX entries" := by
  unfold CompactDenyEntry.fromEntry at h
  cases h1 : symbols.intern entry.tenantId with
  | error err => rw [h1] at h; cases h; exact SymbolTable.intern_error h1
  | ok r1 =>
  cases h2 : r1.2.intern entry.namespace' with
  | error err =>
    simp only [h1, h2, bind, Except.bind] at h; cases h; exact SymbolTable.intern_error h2
  | ok r2 =>
  cases h3 : r2.2.intern entry.reasonCode with
  | error err =>
    simp only [h1, h2, h3, bind, Except.bind] at h; cases h; exact SymbolTable.intern_error h3
  | ok r3 =>
  cases h4 : r3.2.intern entry.createdBy with
  | error err =>
    simp only [h1, h2, h3, h4, bind, Except.bind] at h; cases h; exact SymbolTable.intern_error h4
  | ok r4 => simp only [h1, h2, h3, h4, bind, Except.bind, pure, Except.pure] at h; cases h

/-- The base is built, or there are too many texts. -/
theorem ImmutableBase.fromEntries_error {entries : List DenyEntry} {err : GlobAclError}
    (h : ImmutableBase.fromEntries entries = .error err) : ¬err.IsFault := by
  have hloop : ∀ (l : List DenyEntry) (symbols : SymbolTable) {err : GlobAclError},
      compactEntries l symbols = .error err →
        err = .panicked "symbol table exceeded u32::MAX entries" := by
    intro l
    induction l with
    | nil => intro symbols err h; cases h
    | cons entry l ih =>
      intro symbols err h
      unfold compactEntries at h
      split at h
      · cases h
        exact CompactDenyEntry.fromEntry_error ‹_›
      · split at h
        · cases h
          exact ih _ ‹_›
        · cases h
  unfold ImmutableBase.fromEntries at h
  split at h
  · rename_i hc
    cases h
    obtain rfl := hloop _ _ hc
    decide
  · cases h

namespace ActiveState

variable {a a' : ActiveState}

/-- A state that is loaded from rules with buckets has an empty overlay; nothing faults. -/
theorem fromSnapshot_total {snapshot : Snapshot} (hs : ∀ r ∈ snapshot.rules, r.HasBucket) :
    (∃ a, fromSnapshot snapshot = .ok a ∧ a.watermarks = snapshot.watermarks ∧ a.Filed) ∨
      ∃ err, fromSnapshot snapshot = .error err ∧ ¬err.IsFault := by
  unfold fromSnapshot
  split
  · rename_i err hv
    obtain ⟨message, rfl⟩ := Snapshot.validate_error hv
    exact Or.inr ⟨_, rfl, not_isFault_invalidData message⟩
  · rcases CompiledRules.fromRules_eq snapshot.rules with ⟨-, c, hc⟩ | ⟨⟨r, hr, hbad⟩, -⟩
    · rw [hc]
      cases hb : ImmutableBase.fromEntries snapshot.entries with
      | error err => exact Or.inr ⟨err, rfl, ImmutableBase.fromEntries_error hb⟩
      | ok base => exact Or.inl ⟨_, rfl, rfl, fun key rule h => by simp at h⟩
    · exact absurd (hs r hr) hbad

/-- A compaction goes through but for the number of texts. -/
theorem Filed.compactDeltaOverlay (h : a.Filed) (ord : IterOrder) :
    (∃ a', a.compactDeltaOverlay ord = .ok a' ∧ a'.watermarks = a.watermarks ∧ a'.Filed) ∨
      ∃ err, a.compactDeltaOverlay ord = .error err ∧ ¬err.IsFault := by
  unfold ActiveState.compactDeltaOverlay
  split
  · exact Or.inl ⟨a, rfl, rfl, h⟩
  · rcases CompiledRules.fromRules_eq (a.materializedRules ord) with ⟨-, c, hc⟩ | ⟨⟨r, hr, hbad⟩, -⟩
    · cases hb : ImmutableBase.fromEntries (a.materializedEntries ord) with
      | error err => exact Or.inr ⟨err, rfl, ImmutableBase.fromEntries_error hb⟩
      | ok base =>
        rw [hc]
        exact Or.inl ⟨_, rfl, rfl, fun key rule h => by simp at h⟩
    · exact absurd (h.materializedRules ord r hr) hbad

end ActiveState

/-- The calls of a session, from a state whose overlay has its buckets. -/
theorem Call.run_faultless (ord : IterOrder) {a : ActiveState} (h : a.Filed) (calls : List Call)
    (hm : ∀ m ∈ accepted a.watermarks (calls.filterMap Call.mutation), ∀ r ∈ m.rule, r.HasBucket) :
    Faultless (calls.foldlM (Call.run ord) a) := by
  induction calls generalizing a with
  | nil => intro err h; cases h
  | cons call calls ih =>
    intro err herr
    rw [List.foldlM_cons] at herr
    cases call with
    | applyMutation m =>
      have hwatermark : a.watermark m.shard = a.watermarks.getD m.shard 0 := rfl
      simp only [List.filterMap_cons, Call.mutation, accepted, a.watermarks_length] at hm
      simp only [Call.run, Checked.applyMutation_eq, ActiveState.applyMutation, hwatermark] at herr
      split at herr
      · rw [if_neg (by omega)] at hm
        exact ih h hm err herr
      · split at herr
        · rw [if_neg (by omega)] at hm
          exact ih h hm err herr
        · split at herr
          · rw [if_neg (by omega)] at hm
            exact ih h hm err herr
          · rw [if_pos (by omega), List.forall_mem_cons] at hm
            refine ih (h.advance hm.1) ?_ err herr
            rw [ActiveState.advance_watermarks]
            exact hm.2
    | check tenantId namespace' rawValue nowUnix =>
      simp only [Call.run, h.check_eq] at herr
      exact ih h hm err herr
    | snapshot =>
      simp only [Call.run, Checked.snapshot_eq] at herr
      exact ih h hm err herr
    | compactDeltaOverlay =>
      simp only [Call.run, Checked.compactDeltaOverlay_eq] at herr
      rcases h.compactDeltaOverlay ord with ⟨a', ha', hw, hfiled⟩ | ⟨err', he, hfault⟩
      · rw [ha'] at herr
        exact ih hfiled (hw ▸ hm) err herr
      · rw [he] at herr
        cases herr
        exact hfault

/-- A session in which every rule that is loaded or accepted has a bucket reaches no index out of
bounds, no subtraction below zero and no shift by the width or more. -/
theorem session_faultless (ord : IterOrder) (snapshot : Snapshot) (calls : List Call)
    (hs : ∀ r ∈ snapshot.rules, r.HasBucket)
    (hm : ∀ m ∈ accepted snapshot.watermarks (calls.filterMap Call.mutation),
      ∀ r ∈ m.rule, r.HasBucket) : Faultless (session ord snapshot calls) := by
  intro err h
  unfold session at h
  rw [Checked.fromSnapshot_eq] at h
  rcases ActiveState.fromSnapshot_total hs with ⟨a, ha, hw, hfiled⟩ | ⟨err', he, hfault⟩
  · rw [ha] at h
    exact Call.run_faultless ord hfiled calls (hw ▸ hm) err h
  · rw [he] at h
    cases h
    exact hfault

namespace NetworkRules

/-- A denial of an IPv4 network with a prefix length. -/
def rule (prefixLen : UInt8) : RuleEntry :=
  { tenantId := "acme", kind := .ipv4Cidr, pattern := "10.0.0.0/8", ruleHash := 1, action := .deny,
    priority := 1, reasonCode := "abuse", expiresAt := 0, createdBy := "ops", commitSeq := 1,
    shardId := 0, ipv4Network := 0x0a000000, ipv4PrefixLen := prefixLen, domainSuffix := "" }

/-- A snapshot of one shard with the rule. -/
def loaded (prefixLen : UInt8) : Snapshot := ⟨1, [1], [], [rule prefixLen]⟩

/-- The next mutation of the shard: the rule with another prefix length. -/
def changed (prefixLen : UInt8) : Mutation :=
  ⟨"op-2", ⟨0, 2, 1, "eu"⟩, SourceOfTruth.ruleShadowEntry (rule prefixLen), some (rule prefixLen),
    .p1, 0⟩

end NetworkRules

open NetworkRules in
theorem session_faultless_networkRules :
    Faultless (session .given (loaded 8) [.applyMutation (changed 32),
      .check "acme" "ip" "10.0.0.1" 0, .snapshot, .compactDeltaOverlay]) :=
  session_faultless _ _ _ (by decide) (by decide)

open NetworkRules in
/-- A snapshot that is decoded and passes its checks makes the edge panic. -/
theorem not_session_faultless :
    ¬∀ (ord : IterOrder) (bytes : List UInt8) (snapshot : Snapshot) (calls : List Call),
      decodeSnapshot bytes = .ok snapshot → snapshot.validate = .ok () →
      Faultless (session ord snapshot calls) := by
  intro h
  have hdecode : decodeSnapshot (encodeSnapshot (loaded 33)) = .ok (loaded 33) := by
    decide +kernel
  have hpanic : session .given (loaded 33) [] = .error indexOutOfBounds := rfl
  exact h .given _ _ [] hdecode (by decide +kernel) _ hpanic (by decide)

end Globacl
