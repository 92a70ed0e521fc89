import Globacl.Core.Domain

/-!
# Hashes (`globacl-core/src/lib/rules.rs`, `snapshots.rs`)

The 64-bit hashes of keys and rules, with wrapping arithmetic as in the code, and the shard of a
hash. `stableKeyHash` is not injective: two keys can share a hash, and then the code treats them
as one key.
-/

namespace Globacl

open Lib

def fnvOffset : UInt64 := 0xcbf29ce484222325

def fnvPrime : UInt64 := 0x100000001b3

/-- One chunk of a hash: its bytes, then the separator `0xff`. -/
def hashChunk (hash : UInt64) (chunk : List UInt8) : UInt64 :=
  ((chunk.foldl (fun h byte => (h ^^^ byte.toUInt64) * fnvPrime) hash) ^^^ 0xff) * fnvPrime

/-- `stable_key_hash`. -/
def stableKeyHash (tenantId namespace' rawKey : String) : UInt64 :=
  [tenantId.toUTF8.toList, namespace'.toUTF8.toList, rawKey.toUTF8.toList].foldl hashChunk fnvOffset

/-- `u64::to_le_bytes`. -/
def toLeBytes (value : UInt64) : List UInt8 :=
  ([0, 8, 16, 24, 32, 40, 48, 56] : List UInt64).map fun shift => (value >>> shift).toUInt8

/-- `fingerprint_acl_key_parts`. -/
def fingerprintAclKeyParts (tenantId namespace' : String) (keyHash : UInt64) : UInt64 :=
  [tenantId.toUTF8.toList, namespace'.toUTF8.toList, toLeBytes keyHash].foldl hashChunk fnvOffset

/-- `splitmix64`. -/
def splitmix64 (value : UInt64) : UInt64 :=
  let value := value + 0x9e3779b97f4a7c15
  let value := (value ^^^ (value >>> 30)) * 0xbf58476d1ce4e5b9
  let value := (value ^^^ (value >>> 27)) * 0x94d049bb133111eb
  value ^^^ (value >>> 31)

/-- `shard_for_hash`. -/
def shardForHash (keyHash : UInt64) (shardCount : Nat) : Nat := keyHash.toNat % max shardCount 1

theorem shardForHash_lt {keyHash : UInt64} {shardCount : Nat} (h : 0 < shardCount) :
    shardForHash keyHash shardCount < shardCount := by
  unfold shardForHash
  rw [Nat.max_eq_left h]
  exact Nat.mod_lt _ h

/-- `AclKey::from_raw`. -/
def AclKey.fromRaw (tenantId namespace' rawKey : String) : AclKey :=
  ⟨tenantId, namespace', stableKeyHash tenantId namespace' rawKey⟩

end Globacl
