import Globacl.Core.Rules

/-!
# Compact entries (`globacl-core/src/lib/active_state.rs`)

The parts of the immutable base of an edge: texts interned to ids, entries that refer to texts by
id, and a Bloom filter that answers most negative lookups without a search. A structure carries
what its construction establishes.

* `SymbolTable.intern_ok`: interning gives an id of the text and keeps the other ids.
* `CompactDenyEntry.fromEntry_ok`: a compact entry stands for the entry that it was made from.
* `NegativeFilter.covers_insertParts`, `NegativeFilter.Covers.insertParts`: the filter has no false
  negatives.
-/

namespace Globacl

open Lib

/-! ## Symbols -/

structure SymbolTable where
  values : List String
  ids : HashMap String Nat
  /-- The index and the list of values agree. -/
  ids_spec : ∀ value id, ids.lookup value = some id ↔ values[id]? = some value

namespace SymbolTable

/-- `SymbolTable::default`. -/
def empty : SymbolTable := ⟨[], ∅, fun value id => by simp⟩

/-- `SymbolTable::intern`: the id of a text, which is new if the text is. -/
def intern (symbols : SymbolTable) (value : String) : Result (Nat × SymbolTable) :=
  match h : symbols.ids.lookup value with
  | some id => .ok (id, symbols)
  | none =>
    if symbols.values.length ≥ 2 ^ 32 then
      .error (.panicked "symbol table exceeded u32::MAX entries")
    else
      .ok (symbols.values.length,
        { values := symbols.values ++ [value]
          ids := symbols.ids.insert value symbols.values.length
          ids_spec := fun value' id => by
            have hspec := symbols.ids_spec value' id
            rw [HashMap.lookup_insert_eq]
            split
            · subst_vars
              rw [h] at hspec
              rcases Nat.lt_trichotomy id symbols.values.length with hlt | heq | hgt
              · rw [List.getElem?_append_left hlt, ← hspec]
                simp only [Option.some.injEq, reduceCtorEq, iff_false]
                omega
              · simp [heq]
              · rw [List.getElem?_eq_none (by simp; omega)]
                simp only [Option.some.injEq, reduceCtorEq, iff_false]
                omega
            · rw [hspec]
              rcases Nat.lt_or_ge id symbols.values.length with hlt | hge
              · rw [List.getElem?_append_left hlt]
              · rw [List.getElem?_eq_none hge, List.getElem?_append_right hge]
                rcases Nat.eq_zero_or_pos (id - symbols.values.length) with h0 | hpos
                · rw [h0]
                  simpa using Ne.symm ‹¬value' = value›
                · rw [List.getElem?_eq_none (by simp only [List.length_singleton]; omega)] })

/-- `SymbolTable::id`. -/
def id (symbols : SymbolTable) (value : String) : Option Nat := symbols.ids.lookup value

/-- `SymbolTable::get`. -/
def get (symbols : SymbolTable) (id : Nat) : String := symbols.values.getD id ""

/-- `symbols` has the ids of `smaller` and maybe more. -/
def Extends (symbols smaller : SymbolTable) : Prop := smaller.values <+: symbols.values

theorem Extends.refl (symbols : SymbolTable) : symbols.Extends symbols := List.prefix_refl _

theorem Extends.trans {a b c : SymbolTable} (h : a.Extends b) (h' : b.Extends c) : a.Extends c :=
  List.IsPrefix.trans h' h

theorem Extends.getElem? {symbols smaller : SymbolTable} (h : symbols.Extends smaller) {id : Nat}
    {value : String} (hv : smaller.values[id]? = some value) :
    symbols.values[id]? = some value := by
  obtain ⟨rest, hrest⟩ := h
  obtain ⟨hlt, -⟩ := List.getElem?_eq_some_iff.mp hv
  rw [← hrest, List.getElem?_append_left hlt, hv]

theorem get_eq {symbols : SymbolTable} {id : Nat} {value : String}
    (h : symbols.values[id]? = some value) : symbols.get id = value := by
  simp [get, List.getD, h]

theorem id_eq_some {symbols : SymbolTable} {value : String} {id : Nat} :
    symbols.id value = some id ↔ symbols.values[id]? = some value := symbols.ids_spec value id

/-- Interning a text gives an id for it and keeps the ids of the others. -/
theorem intern_ok {symbols symbols' : SymbolTable} {value : String} {id : Nat}
    (h : symbols.intern value = .ok (id, symbols')) :
    symbols'.Extends symbols ∧ symbols'.values[id]? = some value := by
  unfold intern at h
  split at h
  · cases h
    exact ⟨.refl _, (symbols.ids_spec value id).mp ‹_›⟩
  · split at h
    · cases h
    · cases h
      exact ⟨List.prefix_append _ _, by simp⟩

end SymbolTable

/-! ## The negative filter -/

/-- `NEGATIVE_FILTER_BITS_PER_ENTRY`. -/
def negativeFilterBitsPerEntry : Nat := 20

/-- `NEGATIVE_FILTER_HASHES`. -/
def negativeFilterHashes : Nat := 8

structure NegativeFilter where
  bits : List UInt64
  bitLen : Nat
  /-- Every bit of the filter has its word. -/
  bits_length : bits.length * 64 = bitLen

namespace NegativeFilter

theorem bits_length_nil : ([] : List UInt64).length * 64 = 0 := rfl

theorem bits_length_replicate (words : Nat) :
    (List.replicate words (0 : UInt64)).length * 64 = words * 64 := by
  rw [List.length_replicate]

/-- `hash_pair_parts`. -/
def hashPairParts (tenantId namespace' : String) (keyHash : UInt64) : UInt64 × UInt64 :=
  let seed := fingerprintAclKeyParts tenantId namespace' keyHash
  (splitmix64 seed, splitmix64 (seed ^^^ 0x9e3779b97f4a7c15) ||| 1)

/-- `bit_index`. -/
def bitIndex (filter : NegativeFilter) (hashes : UInt64 × UInt64) (index : Nat) : Nat :=
  let index := index.toUInt64
  (hashes.1 + index * hashes.2 + index * index).toNat % filter.bitLen

/-- The word with the bit of an index set: `1u64 << (bit_index % 64)`. -/
def bitMask (bitIndex : Nat) : UInt64 := 1 <<< (bitIndex % 64).toUInt64

/-- `self.bits[bit_index / 64] |= 1u64 << (bit_index % 64)`. -/
def setBit (filter : NegativeFilter) (bitIndex : Nat) : NegativeFilter where
  bits := filter.bits.modify (bitIndex / 64) (· ||| bitMask bitIndex)
  bitLen := filter.bitLen
  bits_length := by rw [List.length_modify]; exact filter.bits_length

/-- Whether the bit of an index is set. -/
def testBit (filter : NegativeFilter) (bitIndex : Nat) : Bool :=
  filter.bits.getD (bitIndex / 64) 0 &&& bitMask bitIndex != 0

/-- The loop of `insert_parts` over the indices `l`. -/
def setBits (hashes : UInt64 × UInt64) (filter : NegativeFilter) (l : List Nat) : NegativeFilter :=
  l.foldl (fun filter index => filter.setBit (filter.bitIndex hashes index)) filter

/-- `insert_parts`. -/
def insertParts (filter : NegativeFilter) (tenantId namespace' : String) (keyHash : UInt64) :
    NegativeFilter :=
  setBits (hashPairParts tenantId namespace' keyHash) filter (List.range negativeFilterHashes)

/-- `may_contain_parts`. -/
def mayContainParts (filter : NegativeFilter) (tenantId namespace' : String) (keyHash : UInt64) :
    Bool :=
  if filter.bitLen = 0 then false
  else
    let hashes := hashPairParts tenantId namespace' keyHash
    (List.range negativeFilterHashes).all fun index =>
      filter.testBit (filter.bitIndex hashes index)

@[simp] theorem setBit_bitLen (filter : NegativeFilter) (i : Nat) :
    (filter.setBit i).bitLen = filter.bitLen := rfl

@[simp] theorem bitIndex_setBit (filter : NegativeFilter) (i : Nat) (hashes : UInt64 × UInt64) :
    (filter.setBit i).bitIndex hashes = filter.bitIndex hashes := rfl

theorem bitMask_ne_zero (i : Nat) : bitMask i ≠ 0 := by
  intro h
  have hlt : i % 64 < 64 := Nat.mod_lt _ (by decide)
  have hnat := congrArg UInt64.toNat h
  have hpow : 2 ^ (i % 64) < 2 ^ 64 := Nat.pow_lt_pow_right (by decide) hlt
  simp only [bitMask, UInt64.toNat_shiftLeft, UInt64.toNat_one, UInt64.toNat_zero,
    Nat.shiftLeft_eq, Nat.one_mul] at hnat
  have hi : (i % 64).toUInt64.toNat = i % 64 := Nat.mod_eq_of_lt (by omega)
  rw [hi, Nat.mod_mod, Nat.mod_eq_of_lt hpow] at hnat
  exact Nat.two_pow_pos _ |>.ne' hnat

/-- Setting a bit sets it. -/
theorem testBit_setBit_self {filter : NegativeFilter} {i : Nat} (h : i < filter.bitLen) :
    (filter.setBit i).testBit i = true := by
  have hlen := filter.bits_length
  have hw : i / 64 < filter.bits.length := by omega
  have habs : (filter.bits[i / 64] ||| bitMask i) &&& bitMask i = bitMask i := by
    rw [UInt64.and_comm, ← UInt64.toBitVec_inj]
    ext j hj
    simp only [UInt64.toBitVec_and, UInt64.toBitVec_or, BitVec.getElem_and, BitVec.getElem_or]
    cases (bitMask i).toBitVec[j] <;> simp
  simp [testBit, setBit, List.getD, hw, habs, bitMask_ne_zero]

/-- Setting a bit keeps the bits that are set. -/
theorem testBit_setBit {filter : NegativeFilter} {i j : Nat} (h : filter.testBit j = true) :
    (filter.setBit i).testBit j = true := by
  simp only [testBit, setBit, List.getD, List.getElem?_modify, bne_iff_ne, ne_eq] at h ⊢
  by_cases hij : i / 64 = j / 64
  · cases hw : filter.bits[j / 64]? with
    | none => simp [hw] at h
    | some w =>
      simp only [hw, Option.getD_some, hij, if_true, Option.map_eq_map, Option.map_some] at h ⊢
      intro h0
      apply h
      rw [← UInt64.toBitVec_inj] at h0 ⊢
      ext k hk
      have hbit := congrArg (fun v : BitVec 64 => v[k]) h0
      simp only [UInt64.toBitVec_and, UInt64.toBitVec_or, BitVec.getElem_and,
        BitVec.getElem_or] at hbit ⊢
      revert hbit
      cases w.toBitVec[k] <;> cases (bitMask i).toBitVec[k] <;> cases (bitMask j).toBitVec[k] <;>
        simp
  · simpa [hij] using h

/-- The bits of a key are set: a lookup of the key passes the filter. -/
def Covers (filter : NegativeFilter) (hashes : UInt64 × UInt64) : Prop :=
  ∀ index ∈ List.range negativeFilterHashes, filter.testBit (filter.bitIndex hashes index) = true

theorem mayContainParts_iff {filter : NegativeFilter} (h : 0 < filter.bitLen)
    {tenantId namespace' : String} {keyHash : UInt64} :
    filter.mayContainParts tenantId namespace' keyHash = true ↔
      filter.Covers (hashPairParts tenantId namespace' keyHash) := by
  simp only [mayContainParts, if_neg (Nat.ne_of_gt h), List.all_eq_true, Covers]

@[simp] theorem setBits_cons (hashes : UInt64 × UInt64) (filter : NegativeFilter) (index : Nat)
    (l : List Nat) : setBits hashes filter (index :: l) =
      setBits hashes (filter.setBit (filter.bitIndex hashes index)) l := rfl

@[simp] theorem setBits_bitLen (hashes : UInt64 × UInt64) (filter : NegativeFilter)
    (l : List Nat) : (setBits hashes filter l).bitLen = filter.bitLen := by
  induction l generalizing filter with
  | nil => rfl
  | cons index l ih => rw [setBits_cons, ih, setBit_bitLen]

theorem testBit_setBits {hashes : UInt64 × UInt64} {filter : NegativeFilter} {l : List Nat}
    {i : Nat} (h : filter.testBit i = true) : (setBits hashes filter l).testBit i = true := by
  induction l generalizing filter with
  | nil => exact h
  | cons index l ih => exact ih (testBit_setBit h)

theorem testBit_setBits_of_mem {hashes : UInt64 × UInt64} {filter : NegativeFilter}
    (h : 0 < filter.bitLen) {l : List Nat} {index : Nat} (hmem : index ∈ l) :
    (setBits hashes filter l).testBit (filter.bitIndex hashes index) = true := by
  induction l generalizing filter with
  | nil => cases hmem
  | cons index' l ih =>
    rw [setBits_cons]
    rcases List.mem_cons.mp hmem with rfl | hmem
    · exact testBit_setBits (testBit_setBit_self (Nat.mod_lt _ h))
    · exact ih h hmem

theorem bitIndex_of_bitLen {filter filter' : NegativeFilter} (h : filter'.bitLen = filter.bitLen)
    (hashes : UInt64 × UInt64) (index : Nat) :
    filter'.bitIndex hashes index = filter.bitIndex hashes index := by
  rw [bitIndex, h, bitIndex]

@[simp] theorem insertParts_bitLen (filter : NegativeFilter) (tenantId namespace' : String)
    (keyHash : UInt64) : (filter.insertParts tenantId namespace' keyHash).bitLen = filter.bitLen :=
  setBits_bitLen _ _ _

/-- An inserted key passes the filter. -/
theorem covers_insertParts {filter : NegativeFilter} (h : 0 < filter.bitLen)
    (tenantId namespace' : String) (keyHash : UInt64) :
    (filter.insertParts tenantId namespace' keyHash).Covers
      (hashPairParts tenantId namespace' keyHash) := by
  intro index hmem
  rw [bitIndex_of_bitLen (insertParts_bitLen ..)]
  exact testBit_setBits_of_mem h hmem

/-- An insertion keeps the keys that pass. -/
theorem Covers.insertParts {filter : NegativeFilter} {hashes : UInt64 × UInt64}
    (hc : filter.Covers hashes) (tenantId namespace' : String) (keyHash : UInt64) :
    (filter.insertParts tenantId namespace' keyHash).Covers hashes := by
  intro index hmem
  rw [bitIndex_of_bitLen (insertParts_bitLen ..)]
  exact testBit_setBits (hc index hmem)

end NegativeFilter

/-! ## Compact entries -/

structure CompactDenyEntry where
  keyHash : UInt64
  expiresAt : Nat
  commitSeq : Nat
  priority : Nat
  (tenantId namespace' : Nat)
  reasonCode : Nat
  createdBy : Nat
  shardId : Nat
  action : Action
  deriving DecidableEq, Repr

namespace CompactDenyEntry

/-- `CompactDenyEntry::from_entry`. -/
def fromEntry (entry : DenyEntry) (symbols : SymbolTable) :
    Result (CompactDenyEntry × SymbolTable) := do
  let (tenantId, symbols) ← symbols.intern entry.tenantId
  let (namespace', symbols) ← symbols.intern entry.namespace'
  let (reasonCode, symbols) ← symbols.intern entry.reasonCode
  let (createdBy, symbols) ← symbols.intern entry.createdBy
  pure ({ keyHash := entry.keyHash, expiresAt := entry.expiresAt, commitSeq := entry.commitSeq,
          priority := entry.priority, tenantId, namespace', reasonCode, createdBy,
          shardId := entry.shardId, action := entry.action }, symbols)

/-- `is_expired`. -/
def isExpired (c : CompactDenyEntry) (nowUnix : Nat) : Bool :=
  c.expiresAt != 0 && decide (c.expiresAt ≤ nowUnix)

/-- `to_deny_entry`. -/
def toDenyEntry (c : CompactDenyEntry) (symbols : SymbolTable) : DenyEntry :=
  { tenantId := symbols.get c.tenantId, namespace' := symbols.get c.namespace',
    keyHash := c.keyHash, action := c.action, priority := c.priority,
    reasonCode := symbols.get c.reasonCode, expiresAt := c.expiresAt,
    createdBy := symbols.get c.createdBy, commitSeq := c.commitSeq, shardId := c.shardId }

/-- `compare_compact_entry_to_key`. -/
def compareToKey (c : CompactDenyEntry) (tenantId namespace' : Nat) (keyHash : UInt64) :
    Ordering :=
  (compare c.tenantId tenantId).then
    ((compare c.namespace' namespace').then (compare c.keyHash keyHash))

/-- `compare_compact_entries_by_key`. -/
def compareByKey (left right : CompactDenyEntry) : Ordering :=
  left.compareToKey right.tenantId right.namespace' right.keyHash

/-- The compact form `c` of the entry `e` under the symbols. -/
structure Encodes (symbols : SymbolTable) (c : CompactDenyEntry) (e : DenyEntry) : Prop where
  tenantId : symbols.values[c.tenantId]? = some e.tenantId
  ns : symbols.values[c.namespace']? = some e.namespace'
  reasonCode : symbols.values[c.reasonCode]? = some e.reasonCode
  createdBy : symbols.values[c.createdBy]? = some e.createdBy
  rest : e = { e with keyHash := c.keyHash, expiresAt := c.expiresAt, commitSeq := c.commitSeq,
                      priority := c.priority, shardId := c.shardId, action := c.action }

theorem Encodes.extend {symbols smaller : SymbolTable} {c : CompactDenyEntry} {e : DenyEntry}
    (h : Encodes smaller c e) (hext : symbols.Extends smaller) : Encodes symbols c e :=
  ⟨hext.getElem? h.tenantId, hext.getElem? h.ns, hext.getElem? h.reasonCode,
    hext.getElem? h.createdBy, h.rest⟩

theorem Encodes.toDenyEntry {symbols : SymbolTable} {c : CompactDenyEntry} {e : DenyEntry}
    (h : Encodes symbols c e) : c.toDenyEntry symbols = e := by
  rw [CompactDenyEntry.toDenyEntry, SymbolTable.get_eq h.tenantId, SymbolTable.get_eq h.ns,
    SymbolTable.get_eq h.reasonCode, SymbolTable.get_eq h.createdBy]
  exact h.rest.symm

theorem fromEntry_ok {entry : DenyEntry} {symbols symbols' : SymbolTable} {c : CompactDenyEntry}
    (h : fromEntry entry symbols = .ok (c, symbols')) :
    symbols'.Extends symbols ∧ Encodes symbols' c entry := by
  unfold fromEntry at h
  cases h1 : symbols.intern entry.tenantId with
  | error err => simp [h1, bind, Except.bind] at h
  | ok r1 =>
  obtain ⟨tenantId, s1⟩ := r1
  cases h2 : s1.intern entry.namespace' with
  | error err => simp [h1, h2, bind, Except.bind] at h
  | ok r2 =>
  obtain ⟨namespace', s2⟩ := r2
  cases h3 : s2.intern entry.reasonCode with
  | error err => simp [h1, h2, h3, bind, Except.bind] at h
  | ok r3 =>
  obtain ⟨reasonCode, s3⟩ := r3
  cases h4 : s3.intern entry.createdBy with
  | error err => simp [h1, h2, h3, h4, bind, Except.bind] at h
  | ok r4 =>
  obtain ⟨createdBy, s4⟩ := r4
  simp only [h1, h2, h3, h4, bind, Except.bind, pure, Except.pure, Except.ok.injEq,
    Prod.mk.injEq] at h
  obtain ⟨rfl, rfl⟩ := h
  obtain ⟨e1, v1⟩ := SymbolTable.intern_ok h1
  obtain ⟨e2, v2⟩ := SymbolTable.intern_ok h2
  obtain ⟨e3, v3⟩ := SymbolTable.intern_ok h3
  obtain ⟨e4, v4⟩ := SymbolTable.intern_ok h4
  exact ⟨((e4.trans e3).trans e2).trans e1,
    ⟨(e4.trans (e3.trans e2)).getElem? v1, (e4.trans e3).getElem? v2, e4.getElem? v3, v4, rfl⟩⟩

end CompactDenyEntry

end Globacl
