import Globacl.Edge.Policy
import Mathlib.Data.Finset.Card

/-!
# The base as a map (`globacl-core/src/lib/active_state.rs`)

The immutable base of an edge against the list of entries that it was built from: whatever the order
of the list and however often a key occurs in it, a lookup answers from the newest entry of the key.

* `fromEntries_total`: a base can be built from entries with at most `2 ^ 32` texts.
* `fromEntries_exact`: the lookups with and without the filter agree and are exact.
-/

namespace Globacl

open Lib

/-! ## Enough symbols -/

/-- The texts of an entry that are interned. -/
def DenyEntry.internedTexts (e : DenyEntry) : List String :=
  [e.tenantId, e.namespace', e.reasonCode, e.createdBy]

namespace SymbolTable

variable {texts : Finset String} {symbols symbols' : SymbolTable} {value : String}

/-- The table has no other texts than these. -/
def Within (texts : Finset String) (symbols : SymbolTable) : Prop :=
  ∀ value ∈ symbols.values, value ∈ texts

theorem within_empty (texts : Finset String) : empty.Within texts := fun _ h => by cases h

/-- A text has one id only. -/
theorem nodup_values (symbols : SymbolTable) : symbols.values.Nodup := by
  rw [List.nodup_iff_getElem?_ne_getElem?]
  intro i j hij hj heq
  have hval := List.getElem?_eq_getElem hj
  have h1 := (symbols.ids_spec _ _).mpr hval
  have h2 := (symbols.ids_spec _ _).mpr (heq.trans hval)
  have := Option.some.inj (h1.symm.trans h2)
  omega

/-- A text has an id, or there is room for a new one. -/
theorem Within.intern (h : symbols.Within texts) (hcard : texts.card ≤ 2 ^ 32)
    (hvalue : value ∈ texts) :
    ∃ id symbols', symbols.intern value = .ok (id, symbols') ∧ symbols'.Within texts := by
  unfold SymbolTable.intern
  split
  · exact ⟨_, _, rfl, h⟩
  · rename_i hnone
    have hnew : value ∉ symbols.values := by
      intro hmem
      obtain ⟨id, hid⟩ := List.getElem?_of_mem hmem
      rw [(symbols.ids_spec value id).mpr hid] at hnone
      cases hnone
    have hlt : symbols.values.length < texts.card := by
      rw [← List.toFinset_card_of_nodup symbols.nodup_values]
      refine Finset.card_lt_card (Finset.ssubset_iff_of_subset ?_ |>.mpr ?_)
      · exact fun v hv => h v (List.mem_toFinset.mp hv)
      · exact ⟨value, hvalue, fun hv => hnew (List.mem_toFinset.mp hv)⟩
    rw [if_neg (by omega)]
    refine ⟨_, _, rfl, fun v hv => ?_⟩
    rcases List.mem_append.mp hv with hv | hv
    · exact h v hv
    · rw [List.mem_singleton.mp hv]
      exact hvalue

end SymbolTable

theorem CompactDenyEntry.fromEntry_total {texts : Finset String} {symbols : SymbolTable}
    (h : symbols.Within texts) (hcard : texts.card ≤ 2 ^ 32) {e : DenyEntry}
    (he : ∀ text ∈ e.internedTexts, text ∈ texts) :
    ∃ c symbols', fromEntry e symbols = .ok (c, symbols') ∧ symbols'.Within texts := by
  simp only [DenyEntry.internedTexts, List.forall_mem_cons] at he
  obtain ⟨htenant, hns, hreason, hcreated, -⟩ := he
  obtain ⟨i1, s1, h1, w1⟩ := h.intern hcard htenant
  obtain ⟨i2, s2, h2, w2⟩ := w1.intern hcard hns
  obtain ⟨i3, s3, h3, w3⟩ := w2.intern hcard hreason
  obtain ⟨i4, s4, h4, w4⟩ := w3.intern hcard hcreated
  have hentry : ∃ c, fromEntry e symbols = .ok (c, s4) := by
    unfold fromEntry
    simp only [h1, h2, h3, h4, bind, Except.bind]
    exact ⟨_, rfl⟩
  obtain ⟨c, hc⟩ := hentry
  exact ⟨c, s4, hc, w4⟩

theorem compactEntries_total {texts : Finset String} (hcard : texts.card ≤ 2 ^ 32) :
    ∀ {entries : List DenyEntry} {symbols : SymbolTable}, symbols.Within texts →
      (∀ e ∈ entries, ∀ text ∈ e.internedTexts, text ∈ texts) →
      ∃ cs symbols', compactEntries entries symbols = .ok (cs, symbols')
  | [], symbols, _, _ => ⟨[], symbols, rfl⟩
  | e :: entries, symbols, h, he => by
    obtain ⟨c, s1, h1, w1⟩ := CompactDenyEntry.fromEntry_total h hcard (he e List.mem_cons_self)
    obtain ⟨cs, s2, h2⟩ := compactEntries_total hcard w1
      fun e' he' => he e' (List.mem_cons_of_mem _ he')
    refine ⟨c :: cs, s2, ?_⟩
    rw [compactEntries, h1]
    dsimp only
    rw [h2]

namespace ImmutableBase

/-- The texts that `from_entries` interns: those of the newest entry of each key. -/
def textsOf (entries : List DenyEntry) : Finset String :=
  ((dedup (sortBy compareEntriesByKey entries)).flatMap DenyEntry.internedTexts).toFinset

theorem textsOf_subset (entries : List DenyEntry) :
    textsOf entries ⊆ (entries.flatMap DenyEntry.internedTexts).toFinset := by
  intro text htext
  obtain ⟨e, he, htext⟩ := List.mem_flatMap.mp (List.mem_toFinset.mp htext)
  have hnewest := (mem_dedup_iff (sortBy_pairwise compareEntriesByKey entries)).mp he
  have hmem : e ∈ entries := mem_sortBy.mp (List.mem_filter.mp hnewest.mem).1
  exact List.mem_toFinset.mpr (List.mem_flatMap.mpr ⟨e, hmem, htext⟩)

/-- A base can be built from entries with at most `2 ^ 32` texts. -/
theorem fromEntries_total {entries : List DenyEntry} (h : (textsOf entries).card ≤ 2 ^ 32) :
    ∃ base, fromEntries entries = .ok base := by
  have htexts : ∀ e ∈ dedup (sortBy compareEntriesByKey entries), ∀ text ∈ e.internedTexts,
      text ∈ textsOf entries := fun e he text htext =>
    List.mem_toFinset.mpr (List.mem_flatMap.mpr ⟨e, he, htext⟩)
  obtain ⟨cs, symbols, hcs⟩ := compactEntries_total h (SymbolTable.within_empty _) htexts
  unfold fromEntries
  split
  · rename_i err herr
    rw [hcs] at herr
    cases herr
  · exact ⟨_, rfl⟩

/-- Each key is materialized once. -/
theorem nodup_materializedEntries (base : ImmutableBase) :
    (base.materializedEntries.map DenyEntry.aclKey).Nodup := by
  unfold materializedEntries
  rw [List.map_map, List.Nodup, List.pairwise_map]
  refine base.sorted.imp_of_mem fun {c c'} hc hc' hlt heq => ?_
  have h1 := lookupExactParts_eq_some.mpr ⟨hc, rfl⟩
  have h2 := lookupExactParts_eq_some.mpr ⟨hc', heq.symm⟩
  have hsame : c = c' := Option.some.inj (h1.symm.trans h2)
  rw [hsame] at hlt
  exact cmp_self_ne_lt c' hlt

/-- The base is an exact map: a lookup, with the filter or without, finds nothing if no entry has
the key, and else the entry with the highest sequence number, the last one of these in the list. -/
theorem fromEntries_exact (entries : List DenyEntry)
    (h : (entries.flatMap DenyEntry.internedTexts).toFinset.card < 2 ^ 32) :
    ∃ base, fromEntries entries = .ok base ∧
      (∀ tenantId namespace' keyHash,
        base.lookupParts tenantId namespace' keyHash =
            base.lookupExactParts tenantId namespace' keyHash ∧
          (base.lookupExactParts tenantId namespace' keyHash = none ↔
            ∀ e ∈ entries, e.aclKey ≠ ⟨tenantId, namespace', keyHash⟩) ∧
          ∀ c, base.lookupExactParts tenantId namespace' keyHash = some c →
            IsNewest (recordsOf DenyEntry.aclKey entries ⟨tenantId, namespace', keyHash⟩)
              (c.toDenyEntry base.symbols)) ∧
      (base.materializedEntries.map DenyEntry.aclKey).Nodup ∧
      ∀ key, key ∈ base.materializedEntries.map DenyEntry.aclKey ↔
        ∃ e ∈ entries, e.aclKey = key := by
  obtain ⟨base, hbase⟩ :=
    fromEntries_total ((Finset.card_le_card (textsOf_subset entries)).trans h.le)
  -- a lookup finds something exactly when an entry has the key
  have hfind : ∀ key, (∃ e, base.find key = some e) ↔ ∃ e ∈ entries, e.aclKey = key := by
    intro key
    constructor
    · rintro ⟨e, he⟩
      have hmem := ((find_fromEntries_iff hbase).mp he).mem
      simp only [recordsOf, List.mem_filter, decide_eq_true_eq] at hmem
      exact ⟨e, hmem⟩
    · rintro ⟨e, he, hk⟩
      have hne : recordsOf DenyEntry.aclKey entries key ≠ [] :=
        List.ne_nil_of_mem (List.mem_filter.mpr ⟨he, by simpa using hk⟩)
      obtain ⟨newest, hnewest⟩ := exists_isNewest hne
      exact ⟨newest, (find_fromEntries_iff hbase).mpr hnewest⟩
  refine ⟨base, hbase, fun tenantId namespace' keyHash => ⟨?_, ?_, fun c hc => ?_⟩,
    base.nodup_materializedEntries, fun key => ?_⟩
  · exact base.lookupParts_eq ⟨tenantId, namespace', keyHash⟩
  · have hkey := hfind ⟨tenantId, namespace', keyHash⟩
    unfold find at hkey
    cases hc : base.lookupExactParts tenantId namespace' keyHash with
    | none =>
      rw [hc] at hkey
      refine iff_of_true rfl fun e he heq => ?_
      obtain ⟨e', he'⟩ := hkey.mpr ⟨e, he, heq⟩
      cases he'
    | some c =>
      rw [hc] at hkey
      obtain ⟨e, he, heq⟩ := hkey.mp ⟨_, rfl⟩
      refine iff_of_false (by simp) fun hnone => hnone e he heq
  · refine (find_fromEntries_iff hbase).mp ?_
    rw [find, hc, Option.map_some]
  · rw [← hfind, List.mem_map]
    refine exists_congr fun e => ?_
    rw [find_eq_some]

/-- Two entries of one user: the lookup finds one of them. -/
theorem fromEntries_exact_userEntry :
    ∃ base, fromEntries [userEntry .deny 2, userEntry .allowOverride 1] = .ok base ∧
      base.lookupParts (userEntry .deny 2).tenantId (userEntry .deny 2).namespace'
        (userEntry .deny 2).keyHash ≠ none := by
  obtain ⟨base, hbase, hlookup, -⟩ :=
    fromEntries_exact [userEntry .deny 2, userEntry .allowOverride 1] (by decide +kernel)
  refine ⟨base, hbase, fun hnone => ?_⟩
  obtain ⟨heq, hiff, -⟩ := hlookup (userEntry .deny 2).tenantId (userEntry .deny 2).namespace'
    (userEntry .deny 2).keyHash
  exact hiff.mp (heq.symm.trans hnone) _ List.mem_cons_self rfl

end ImmutableBase

end Globacl
