import Globacl.Edge.Compact

/-!
# The immutable base (`globacl-core/src/lib/active_state.rs`)

The compact, sorted form in which an edge keeps the entries of a snapshot. `ImmutableBase` carries
its invariant: each compact entry stands for an entry under the symbol table, the entries are
strictly sorted by interned key, and the filter passes each of them. So the filter and the binary
search together are an exact lookup.

* `find_eq_some`: the binary search finds exactly the entry with the key.
* `decisionForParts_eq`: the decision through filter, search and symbols is the plain one.
* `mem_materializedEntries`: a base built from entries with one entry per key holds these entries.
-/

namespace Globacl

open Lib

instance : Std.TransCmp compareEntriesByKey :=
  inferInstanceAs (Std.TransCmp (compareLex (compareOn DenyEntry.tenantId)
    (compareLex (compareOn DenyEntry.namespace') (compareOn DenyEntry.keyHash))))

instance : Std.TransCmp CompactDenyEntry.compareByKey :=
  inferInstanceAs (Std.TransCmp (compareLex (compareOn CompactDenyEntry.tenantId)
    (compareLex (compareOn CompactDenyEntry.namespace') (compareOn CompactDenyEntry.keyHash))))

theorem compareEntriesByKey_eq {a b : DenyEntry} :
    compareEntriesByKey a b = .eq ↔ a.aclKey = b.aclKey := by
  simp [compareEntriesByKey, Ordering.then_eq_eq, DenyEntry.aclKey]

theorem sameEntryKey_iff {a b : DenyEntry} : sameEntryKey a b = true ↔ a.aclKey = b.aclKey := by
  simp [sameEntryKey, DenyEntry.aclKey, and_assoc]

/-- No two different elements of the list have the same key. -/
def UniqueKeys {α κ : Type} (key : α → κ) (l : List α) : Prop :=
  ∀ a ∈ l, ∀ b ∈ l, key a = key b → a = b

theorem UniqueKeys.perm {α κ : Type} {key : α → κ} {l l' : List α} (h : UniqueKeys key l)
    (hp : l'.Perm l) : UniqueKeys key l' :=
  fun a ha b hb => h a (hp.mem_iff.mp ha) b (hp.mem_iff.mp hb)

/-! ## Deduplication -/

/-- The deduplication loop of `from_entries` after the entry `last` was pushed. -/
def dedupFrom (last : DenyEntry) : List DenyEntry → List DenyEntry
  | [] => [last]
  | entry :: entries =>
    if sameEntryKey last entry then
      dedupFrom (if entry.commitSeq ≥ last.commitSeq then entry else last) entries
    else last :: dedupFrom entry entries

/-- The deduplication loop of `from_entries`: of the entries with one key, which are neighbours,
the last with the highest sequence number stays. -/
def dedup : List DenyEntry → List DenyEntry
  | [] => []
  | entry :: entries => dedupFrom entry entries

theorem mem_of_mem_dedupFrom {last e : DenyEntry} {l : List DenyEntry} (h : e ∈ dedupFrom last l) :
    e ∈ last :: l := by
  induction l generalizing last with
  | nil => exact h
  | cons entry l ih =>
    unfold dedupFrom at h
    split at h
    · have := ih h
      split at this <;> simp only [List.mem_cons] at this ⊢ <;> tauto
    · rcases List.mem_cons.mp h with rfl | h
      · exact List.mem_cons_self
      · exact List.mem_cons_of_mem _ (ih h)

/-- From sorted entries, deduplication leaves strictly sorted ones. -/
theorem dedupFrom_pairwise {last : DenyEntry} {l : List DenyEntry}
    (h : (last :: l).Pairwise fun a b => compareEntriesByKey a b ≠ .gt) :
    (dedupFrom last l).Pairwise fun a b => compareEntriesByKey a b = .lt := by
  induction l generalizing last with
  | nil => exact List.pairwise_singleton _ _
  | cons entry l ih =>
    obtain ⟨hlast, htail⟩ := List.pairwise_cons.mp h
    unfold dedupFrom
    split
    · apply ih
      split
      · exact htail
      · exact List.pairwise_cons.mpr
          ⟨fun b hb => hlast b (List.mem_cons_of_mem _ hb), (List.pairwise_cons.mp htail).2⟩
    · rename_i hne
      refine List.pairwise_cons.mpr ⟨fun b hb => ?_, ih htail⟩
      have hle : compareEntriesByKey last entry = .lt := by
        have h1 := hlast entry List.mem_cons_self
        have h2 : compareEntriesByKey last entry ≠ .eq := fun h =>
          hne (sameEntryKey_iff.mpr (compareEntriesByKey_eq.mp h))
        cases hc : compareEntriesByKey last entry <;> simp_all
      rcases List.mem_cons.mp (mem_of_mem_dedupFrom hb) with rfl | hb
      · exact hle
      · have h1 := (List.pairwise_cons.mp htail).1 b hb
        exact Std.TransCmp.lt_of_lt_of_isLE hle (Ordering.isLE_iff_ne_gt.mpr h1)

/-- With one entry per key, deduplication keeps every entry. -/
theorem mem_dedupFrom {last : DenyEntry} {l : List DenyEntry}
    (h : UniqueKeys DenyEntry.aclKey (last :: l)) {e : DenyEntry} :
    e ∈ dedupFrom last l ↔ e ∈ last :: l := by
  refine ⟨mem_of_mem_dedupFrom, fun he => ?_⟩
  induction l generalizing last with
  | nil => exact he
  | cons entry l ih =>
    have htail : UniqueKeys DenyEntry.aclKey (entry :: l) := fun a ha b hb =>
      h a (List.mem_cons_of_mem _ ha) b (List.mem_cons_of_mem _ hb)
    unfold dedupFrom
    split
    · rename_i hsame
      have heq : last = entry := h last List.mem_cons_self entry
        (List.mem_cons_of_mem _ List.mem_cons_self) (sameEntryKey_iff.mp hsame)
      subst heq
      rw [if_pos (Nat.le_refl _)]
      exact ih htail (by simpa using he)
    · rcases List.mem_cons.mp he with rfl | he
      · exact List.mem_cons_self
      · exact List.mem_cons_of_mem _ (ih htail he)

theorem dedup_pairwise {l : List DenyEntry}
    (h : l.Pairwise fun a b => compareEntriesByKey a b ≠ .gt) :
    (dedup l).Pairwise fun a b => compareEntriesByKey a b = .lt := by
  cases l with
  | nil => exact .nil
  | cons e l => exact dedupFrom_pairwise h

theorem mem_dedup {l : List DenyEntry} (h : UniqueKeys DenyEntry.aclKey l) {e : DenyEntry} :
    e ∈ dedup l ↔ e ∈ l := by
  cases l with
  | nil => exact Iff.rfl
  | cons e l => exact mem_dedupFrom h

/-! ## Compaction of the entries -/

/-- The loop of `from_entries` that makes the entries compact. -/
def compactEntries : List DenyEntry → SymbolTable → Result (List CompactDenyEntry × SymbolTable)
  | [], symbols => .ok ([], symbols)
  | entry :: entries, symbols =>
    match CompactDenyEntry.fromEntry entry symbols with
    | .error err => .error err
    | .ok (c, symbols) =>
      match compactEntries entries symbols with
      | .error err => .error err
      | .ok (cs, symbols) => .ok (c :: cs, symbols)

/-- The compact entries stand for the entries, one for one. -/
theorem compactEntries_ok {entries : List DenyEntry} {symbols symbols' : SymbolTable}
    {cs : List CompactDenyEntry} (h : compactEntries entries symbols = .ok (cs, symbols')) :
    symbols'.Extends symbols ∧ (∀ c ∈ cs, ∃ e, c.Encodes symbols' e) ∧
      cs.map (fun c => c.toDenyEntry symbols') = entries := by
  induction entries generalizing symbols cs with
  | nil => cases h; exact ⟨.refl _, by simp, rfl⟩
  | cons entry entries ih =>
    unfold compactEntries at h
    split at h
    · cases h
    · rename_i c s1 h1
      split at h
      · cases h
      · rename_i cs2 s2 h2
        cases h
        obtain ⟨hext1, henc⟩ := CompactDenyEntry.fromEntry_ok h1
        obtain ⟨hext2, hall, hmap⟩ := ih h2
        have henc' := henc.extend hext2
        refine ⟨hext2.trans hext1, ?_, by rw [List.map_cons, henc'.toDenyEntry, hmap]⟩
        intro c' hc'
        rcases List.mem_cons.mp hc' with rfl | hc'
        · exact ⟨entry, henc'⟩
        · exact hall c' hc'

/-- Two compact entries with the same interned key stand for entries with the same key. -/
theorem aclKey_eq_of_compareByKey {symbols : SymbolTable} {c c' : CompactDenyEntry}
    (h : c.compareByKey c' = .eq) :
    (c.toDenyEntry symbols).aclKey = (c'.toDenyEntry symbols).aclKey := by
  simp only [CompactDenyEntry.compareByKey, CompactDenyEntry.compareToKey, Ordering.then_eq_eq,
    Std.LawfulEqOrd.compare_eq_iff_eq] at h
  simp only [DenyEntry.aclKey, CompactDenyEntry.toDenyEntry, h.1, h.2.1, h.2.2]

/-! ## The base -/

/-- `NegativeFilter::from_compact_entries`. -/
def NegativeFilter.fromCompactEntries (entries : List CompactDenyEntry) (symbols : SymbolTable) :
    NegativeFilter :=
  if entries.isEmpty then ⟨[], 0, NegativeFilter.bits_length_nil⟩
  else
    let words := (max (entries.length * negativeFilterBitsPerEntry) 64 + 63) / 64
    entries.foldl
      (fun filter c =>
        filter.insertParts (symbols.get c.tenantId) (symbols.get c.namespace') c.keyHash)
      ⟨List.replicate words 0, words * 64, NegativeFilter.bits_length_replicate words⟩

/-- The filter passes the key of a compact entry. -/
def NegativeFilter.Passes (filter : NegativeFilter) (symbols : SymbolTable)
    (c : CompactDenyEntry) : Prop :=
  filter.mayContainParts (symbols.get c.tenantId) (symbols.get c.namespace') c.keyHash = true

theorem NegativeFilter.passes_foldl {symbols : SymbolTable} (l : List CompactDenyEntry) :
    ∀ {filter : NegativeFilter}, 0 < filter.bitLen → ∀ c,
      c ∈ l ∨ filter.Passes symbols c →
      (l.foldl (fun filter c => filter.insertParts (symbols.get c.tenantId)
        (symbols.get c.namespace') c.keyHash) filter).Passes symbols c := by
  induction l with
  | nil => exact fun _ c hc => hc.resolve_left (by simp)
  | cons d l ih =>
    intro filter hpos c hc
    have hpos' : 0 < (filter.insertParts (symbols.get d.tenantId) (symbols.get d.namespace')
        d.keyHash).bitLen := by simpa using hpos
    refine ih hpos' c ?_
    rcases hc with hmem | hpass
    · rcases List.mem_cons.mp hmem with rfl | hmem
      · exact Or.inr ((mayContainParts_iff hpos').mpr (covers_insertParts hpos _ _ _))
      · exact Or.inl hmem
    · exact Or.inr ((mayContainParts_iff hpos').mpr
        (((mayContainParts_iff hpos).mp hpass).insertParts _ _ _))

theorem NegativeFilter.passes_fromCompactEntries {entries : List CompactDenyEntry}
    {symbols : SymbolTable} {c : CompactDenyEntry} (h : c ∈ entries) :
    (fromCompactEntries entries symbols).Passes symbols c := by
  unfold fromCompactEntries
  rw [if_neg (by rw [List.isEmpty_iff]; rintro rfl; cases h)]
  refine passes_foldl entries ?_ c (Or.inl h)
  dsimp only
  omega

structure ImmutableBase where
  entries : List CompactDenyEntry
  symbols : SymbolTable
  filter : NegativeFilter
  encodes : ∀ c ∈ entries, ∃ e, c.Encodes symbols e
  sorted : entries.Pairwise fun a b => a.compareByKey b = .lt
  passes : ∀ c ∈ entries, filter.Passes symbols c

namespace ImmutableBase

/-- The compact entries of `from_entries`, before they are sorted by interned key, are pairwise
different in their keys. -/
theorem compact_sorted {entries : List DenyEntry} {cs : List CompactDenyEntry}
    {symbols : SymbolTable}
    (h : compactEntries (dedup (sortBy compareEntriesByKey entries)) .empty = .ok (cs, symbols)) :
    (sortBy CompactDenyEntry.compareByKey cs).Pairwise fun a b => a.compareByKey b = .lt := by
  apply pairwise_lt_of_ne_eq (sortBy_pairwise _ _)
  have hperm := sortBy_perm CompactDenyEntry.compareByKey cs
  refine (hperm.pairwise_iff fun {a b} hne heq => hne (Std.OrientedCmp.eq_symm heq)).mpr ?_
  have hlt := dedup_pairwise (sortBy_pairwise compareEntriesByKey entries)
  rw [← (compactEntries_ok h).2.2, List.pairwise_map] at hlt
  refine hlt.imp fun {a b} hab heq => ?_
  rw [compareEntriesByKey_eq.mpr (aclKey_eq_of_compareByKey heq)] at hab
  cases hab

/-- `ImmutableBase::from_entries`. -/
def fromEntries (entries : List DenyEntry) : Result ImmutableBase :=
  match h : compactEntries (dedup (sortBy compareEntriesByKey entries)) .empty with
  | .error err => .error err
  | .ok (cs, symbols) =>
    .ok
      { entries := sortBy CompactDenyEntry.compareByKey cs
        symbols := symbols
        filter := .fromCompactEntries (sortBy CompactDenyEntry.compareByKey cs) symbols
        encodes := fun c hc => (compactEntries_ok h).2.1 c (mem_sortBy.mp hc)
        sorted := compact_sorted h
        passes := fun _ hc => NegativeFilter.passes_fromCompactEntries hc }

/-- `lookup_exact_parts`. -/
def lookupExactParts (base : ImmutableBase) (tenantId namespace' : String) (keyHash : UInt64) :
    Option CompactDenyEntry :=
  match base.symbols.id tenantId, base.symbols.id namespace' with
  | some tenantId, some namespace' =>
    binarySearchBy (fun c => c.compareToKey tenantId namespace' keyHash) base.entries
  | _, _ => none

/-- `lookup_parts`. -/
def lookupParts (base : ImmutableBase) (tenantId namespace' : String) (keyHash : UInt64) :
    Option CompactDenyEntry :=
  if base.filter.mayContainParts tenantId namespace' keyHash = false then none
  else base.lookupExactParts tenantId namespace' keyHash

/-- `decision_for_parts`. -/
def decisionForParts (base : ImmutableBase) (tenantId namespace' : String) (keyHash : UInt64)
    (nowUnix : Nat) : Decision :=
  match base.lookupParts tenantId namespace' keyHash with
  | none => .allow
  | some c =>
    if c.isExpired nowUnix then .allow
    else
      match c.action with
      | .deny => .deny (base.symbols.get c.reasonCode) c.priority ⟨c.shardId, c.commitSeq, 1, ""⟩
      | .allowOverride | .delete => .allow

/-- `materialized_entries`. -/
def materializedEntries (base : ImmutableBase) : List DenyEntry :=
  base.entries.map fun c => c.toDenyEntry base.symbols

/-- The entry that the base holds under a key. -/
def find (base : ImmutableBase) (key : AclKey) : Option DenyEntry :=
  (base.lookupExactParts key.tenantId key.namespace' key.keyHash).map fun c =>
    c.toDenyEntry base.symbols

/-- The binary search finds exactly the compact entry of the key. -/
theorem lookupExactParts_eq_some {base : ImmutableBase} {key : AclKey} {c : CompactDenyEntry} :
    base.lookupExactParts key.tenantId key.namespace' key.keyHash = some c ↔
      c ∈ base.entries ∧ (c.toDenyEntry base.symbols).aclKey = key := by
  have hkey : ∀ t n, base.symbols.values[t]? = some key.tenantId →
      base.symbols.values[n]? = some key.namespace' → ∀ c ∈ base.entries,
      (c.compareToKey t n key.keyHash = .eq ↔ (c.toDenyEntry base.symbols).aclKey = key) := by
    intro t n ht hn c hc
    obtain ⟨e, henc⟩ := base.encodes c hc
    have hid : ∀ {i j : Nat} {v : String}, base.symbols.values[i]? = some v →
        base.symbols.values[j]? = some v → i = j := fun hi hj => by
      have h1 := (base.symbols.ids_spec _ _).mpr hi
      have h2 := (base.symbols.ids_spec _ _).mpr hj
      exact Option.some.inj (h1.symm.trans h2)
    rw [henc.toDenyEntry]
    simp only [CompactDenyEntry.compareToKey, Ordering.then_eq_eq,
      Std.LawfulEqOrd.compare_eq_iff_eq, DenyEntry.aclKey]
    have hhash : c.keyHash = e.keyHash := by rw [henc.rest]
    constructor
    · rintro ⟨rfl, rfl, hh⟩
      have h1 := Option.some.inj (henc.tenantId.symm.trans ht)
      have h2 := Option.some.inj (henc.ns.symm.trans hn)
      rw [h1, h2, ← hhash, hh]
    · rintro rfl
      exact ⟨hid henc.tenantId ht, hid henc.ns hn, hhash⟩
  unfold lookupExactParts
  split
  · rename_i t n ht hn
    rw [SymbolTable.id_eq_some] at ht hn
    -- the key as a compact entry, to see the search as one through the order of the entries
    let x : CompactDenyEntry := ⟨key.keyHash, 0, 0, 0, t, n, 0, 0, 0, .deny⟩
    have hmono := monotone_of_pairwise_lt base.sorted x
    rw [show (fun c : CompactDenyEntry => c.compareToKey t n key.keyHash) =
      fun c => c.compareByKey x from rfl, binarySearchBy_eq_some hmono]
    exact and_congr_right fun hc => hkey t n ht hn c hc
  · rename_i hnone
    simp only [reduceCtorEq, false_iff, not_and]
    intro hc hk
    obtain ⟨e, henc⟩ := base.encodes c hc
    rw [henc.toDenyEntry] at hk
    subst hk
    exact hnone _ _ (SymbolTable.id_eq_some.mpr henc.tenantId)
      (SymbolTable.id_eq_some.mpr henc.ns)

theorem find_eq_some {base : ImmutableBase} {key : AclKey} {e : DenyEntry} :
    base.find key = some e ↔ e ∈ base.materializedEntries ∧ e.aclKey = key := by
  unfold find materializedEntries
  rw [Option.map_eq_some_iff, List.mem_map]
  constructor
  · rintro ⟨c, hc, rfl⟩
    obtain ⟨hmem, hk⟩ := lookupExactParts_eq_some.mp hc
    exact ⟨⟨c, hmem, rfl⟩, hk⟩
  · rintro ⟨⟨c, hmem, rfl⟩, hk⟩
    exact ⟨c, lookupExactParts_eq_some.mpr ⟨hmem, hk⟩, rfl⟩

/-- The filter never hides an entry. -/
theorem lookupParts_eq (base : ImmutableBase) (key : AclKey) :
    base.lookupParts key.tenantId key.namespace' key.keyHash =
      base.lookupExactParts key.tenantId key.namespace' key.keyHash := by
  unfold lookupParts
  split
  · rename_i hfilter
    cases hfind : base.lookupExactParts key.tenantId key.namespace' key.keyHash with
    | none => rfl
    | some c =>
      obtain ⟨hmem, hk⟩ := lookupExactParts_eq_some.mp hfind
      have hpass := base.passes c hmem
      subst hk
      rw [NegativeFilter.Passes] at hpass
      exact Bool.noConfusion (hpass.symm.trans hfilter)
  · rfl

/-- The decision of the base is the plain decision for the entry that it holds. -/
theorem decisionForParts_eq (base : ImmutableBase) (key : AclKey) (nowUnix : Nat) :
    base.decisionForParts key.tenantId key.namespace' key.keyHash nowUnix =
      decisionForEntry (base.find key) nowUnix := by
  unfold decisionForParts find
  rw [lookupParts_eq]
  cases base.lookupExactParts key.tenantId key.namespace' key.keyHash with
  | none => rfl
  | some c =>
    simp only [Option.map_some, decisionForEntry]
    rfl

/-- A base holds the entries that deduplication leaves. -/
theorem materializedEntries_perm {entries : List DenyEntry} {base : ImmutableBase}
    (h : fromEntries entries = .ok base) :
    base.materializedEntries.Perm (dedup (sortBy compareEntriesByKey entries)) := by
  unfold fromEntries at h
  split at h
  · cases h
  · rename_i cs symbols hcs
    cases h
    have hsorted := (sortBy_perm CompactDenyEntry.compareByKey cs).map fun c => c.toDenyEntry symbols
    rwa [(compactEntries_ok hcs).2.2] at hsorted

/-- A base built from entries with one entry per key holds these entries. -/
theorem mem_materializedEntries {entries : List DenyEntry} {base : ImmutableBase}
    (h : fromEntries entries = .ok base) (hu : UniqueKeys DenyEntry.aclKey entries)
    {e : DenyEntry} : e ∈ base.materializedEntries ↔ e ∈ entries := by
  have hsort := sortBy_perm compareEntriesByKey entries
  rw [(materializedEntries_perm h).mem_iff, mem_dedup (hu.perm hsort), hsort.mem_iff]

/-- A base built from the values of a function of the key is that function. -/
theorem find_fromEntries {entries : List DenyEntry} {base : ImmutableBase}
    (h : fromEntries entries = .ok base) {f : AclKey → Option DenyEntry}
    (hf : HashMap.Lists DenyEntry.aclKey entries f) (key : AclKey) : base.find key = f key := by
  have hu : UniqueKeys DenyEntry.aclKey entries := fun _ ha _ hb => hf.unique ha hb
  refine Option.ext fun e => ?_
  rw [find_eq_some, mem_materializedEntries h hu, hf.mem]
  constructor
  · rintro ⟨he, rfl⟩
    exact he
  · intro he
    have hk := hf.keyed key e he
    exact ⟨by rwa [hk], hk⟩

end ImmutableBase

end Globacl
