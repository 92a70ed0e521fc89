import Globacl.Lib.HashMap
import Mathlib.Algebra.Group.Nat.Defs

/-!
# The domain model of globacl (`globacl-core/src/lib/domain.rs`)

The records that the source of truth commits and the edge applies. Sequence numbers, terms, shard
ids, priorities and times are natural numbers: the code only compares them and adds one to them.
Hashes, networks and prefix lengths keep their machine width, since the code computes with it.
-/

namespace Globacl

open Lib

/-- `GlobAclError`. An I/O error carries its text. -/
inductive GlobAclError where
  | io (message : String)
  | parse (message : String)
  | invalidData (message : String)
  | gap (shardId expectedSeq receivedSeq : Nat)
  /-- The thread panics or the process is aborted: no value of the code, but it returns nothing either. -/
  | panicked (message : String)
  deriving DecidableEq, Repr

/-- The error is returned, it is not a panic. -/
def Returned (err : GlobAclError) : Prop := ∀ message, err ≠ .panicked message

/-- `Result<T>`. -/
abbrev Result := Except GlobAclError

/-- A character in the `Debug` text of a string. Which characters above `U+009F` are printable is a
table of the standard library; here all of them are. -/
def escapeDebug (c : Char) : String :=
  match c.toNat with
  | 0 => "\\0"
  | 9 => "\\t"
  | 10 => "\\n"
  | 13 => "\\r"
  | 34 => "\\\""
  | 92 => "\\\\"
  | n =>
    if n < 32 ∨ (127 ≤ n ∧ n < 160) then
      "\\u\x7b" ++ String.ofList (Nat.toDigits 16 n) ++ "\x7d"
    else String.singleton c

/-- The `Debug` text of a string, as `format!` writes it for a question mark. -/
def debugStr (value : String) : String :=
  "\"" ++ String.join (value.toList.map escapeDebug) ++ "\""

inductive Action where
  | deny
  | allowOverride
  | delete
  deriving DecidableEq, Repr

inductive DeliveryPriority where
  | p0
  | p1
  | p2
  deriving DecidableEq, Repr

structure AclKey where
  (tenantId namespace' : String)
  keyHash : UInt64
  deriving DecidableEq, Repr

inductive RuleKind where
  | ipv4Cidr
  | domainSuffix
  deriving DecidableEq, Repr

/-- `RuleKind::as_str`. -/
def RuleKind.asStr : RuleKind → String
  | .ipv4Cidr => "ipv4_cidr"
  | .domainSuffix => "domain_suffix"

structure RuleKey where
  tenantId : String
  kind : RuleKind
  ruleHash : UInt64
  deriving DecidableEq, Repr

structure DenyRequest where
  opId : String
  (tenantId namespace' : String)
  key : String
  action : Action
  priority : Nat
  reasonCode : String
  expiresAt : Nat
  createdBy : String
  deliveryPriority : DeliveryPriority
  deriving DecidableEq, Repr

structure RuleRequest where
  opId : String
  tenantId : String
  kind : RuleKind
  pattern : String
  action : Action
  priority : Nat
  reasonCode : String
  expiresAt : Nat
  createdBy : String
  deliveryPriority : DeliveryPriority
  deriving DecidableEq, Repr

structure DenyEntry where
  (tenantId namespace' : String)
  keyHash : UInt64
  action : Action
  priority : Nat
  reasonCode : String
  expiresAt : Nat
  createdBy : String
  commitSeq : Nat
  shardId : Nat
  deriving DecidableEq, Repr

/-- `DenyEntry::acl_key`. -/
def DenyEntry.aclKey (e : DenyEntry) : AclKey := ⟨e.tenantId, e.namespace', e.keyHash⟩

/-- `DenyEntry::is_expired`: an expiry of `0` never expires. -/
def DenyEntry.isExpired (e : DenyEntry) (nowUnix : Nat) : Bool :=
  e.expiresAt != 0 && decide (e.expiresAt ≤ nowUnix)

structure RuleEntry where
  tenantId : String
  kind : RuleKind
  pattern : String
  ruleHash : UInt64
  action : Action
  priority : Nat
  reasonCode : String
  expiresAt : Nat
  createdBy : String
  commitSeq : Nat
  shardId : Nat
  ipv4Network : UInt32
  ipv4PrefixLen : UInt8
  domainSuffix : String
  deriving DecidableEq, Repr

/-- `RuleEntry::rule_key`. -/
def RuleEntry.ruleKey (r : RuleEntry) : RuleKey := ⟨r.tenantId, r.kind, r.ruleHash⟩

/-- `RuleEntry::is_expired`. -/
def RuleEntry.isExpired (r : RuleEntry) (nowUnix : Nat) : Bool :=
  r.expiresAt != 0 && decide (r.expiresAt ≤ nowUnix)

structure CommitId where
  shardId : Nat
  seq : Nat
  epoch : Nat
  sourceRegion : String
  deriving DecidableEq, Repr

structure Mutation where
  opId : String
  commitId : CommitId
  entry : DenyEntry
  rule : Option RuleEntry
  deliveryPriority : DeliveryPriority
  committedAtUnix : Nat
  deriving DecidableEq, Repr

/-- The shard of a mutation. -/
abbrev Mutation.shard (m : Mutation) : Nat := m.commitId.shardId

/-- The sequence number of a mutation in its shard. -/
abbrev Mutation.seq (m : Mutation) : Nat := m.commitId.seq

/-- The term under which a mutation was proposed. -/
abbrev Mutation.epoch (m : Mutation) : Nat := m.commitId.epoch

structure CommitOutcome where
  mutation : Mutation
  duplicate : Bool
  deriving DecidableEq, Repr

inductive Decision where
  | allow
  | deny (reasonCode : String) (priority : Nat) (commitId : CommitId)
  deriving DecidableEq, Repr

/-- `Decision::is_denied`. -/
def Decision.isDenied : Decision → Bool
  | .allow => false
  | .deny .. => true

inductive ApplyStatus where
  | applied
  | duplicateOrOld
  deriving DecidableEq, Repr

/-- `decision_for_entry` (`codec.rs`): the decision of a point lookup that found `entry`. -/
def decisionForEntry (entry : Option DenyEntry) (nowUnix : Nat) : Decision :=
  match entry with
  | none => .allow
  | some e =>
    if e.isExpired nowUnix then .allow
    else
      match e.action with
      | .deny => .deny e.reasonCode e.priority ⟨e.shardId, e.commitSeq, 1, ""⟩
      | .allowOverride | .delete => .allow

/-- `Snapshot` (`signatures.rs`). -/
structure Snapshot where
  shardCount : Nat
  watermarks : List Nat
  entries : List DenyEntry
  rules : List RuleEntry
  deriving DecidableEq, Repr

/-- `Snapshot::validate`: the first entry, then the first rule outside the shard count is
reported. -/
def Snapshot.validate (s : Snapshot) : Result Unit := do
  if s.watermarks.length ≠ s.shardCount then
    throw (.invalidData
      s!"snapshot has {s.watermarks.length} watermarks for {s.shardCount} shards")
  for entry in s.entries do
    if entry.shardId ≥ s.shardCount then
      throw (.invalidData
        s!"entry shard {entry.shardId} is outside shard_count {s.shardCount}")
  for rule in s.rules do
    if rule.shardId ≥ s.shardCount then
      throw (.invalidData
        s!"rule shard {rule.shardId} is outside shard_count {s.shardCount}")

theorem Snapshot.validate_ok {s : Snapshot} (h : s.validate = .ok ()) :
    s.watermarks.length = s.shardCount := by
  by_contra hne
  simp [Snapshot.validate, hne, throw, throwThe, MonadExceptOf.throw, bind, Except.bind] at h

/-- Watermarks that are in no shard below others. -/
def AtLeast (w w' : List Nat) : Prop := ∀ s, w.getD s 0 ≤ w'.getD s 0

theorem AtLeast.refl (w : List Nat) : AtLeast w w := fun _ => Nat.le_refl _

theorem AtLeast.trans {w w' w'' : List Nat} (h : AtLeast w w') (h' : AtLeast w' w'') :
    AtLeast w w'' := fun s => Nat.le_trans (h s) (h' s)

/-- A watermark that is set forward. -/
theorem AtLeast.set {w : List Nat} {s seq : Nat} (h : w.getD s 0 ≤ seq) : AtLeast w (w.set s seq) := by
  intro s'
  rw [List.getD_eq_getElem?_getD, List.getD_eq_getElem?_getD, List.getElem?_set]
  by_cases hs : s = s'
  · subst hs
    by_cases hlen : s < w.length
    · rw [if_pos rfl, if_pos hlen, ← List.getD_eq_getElem?_getD]
      exact h
    · rw [List.getElem?_eq_none (by omega)]
      exact Nat.zero_le _
  · rw [if_neg hs]

end Globacl
