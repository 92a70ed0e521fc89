import Mathlib.Data.List.AList

/-!
# Hash maps and their iteration order

A `HashMap` of the modelled code is an association list with distinct keys. A lookup does not
depend on the order of the list. An iteration does, and the code may not rely on it: a function
that iterates over a map takes the order as an argument (`IterOrder`), so a theorem about the
function holds for every order.

* `Keyed key m`: each value is stored under the key that it carries.
* `mem_values`: the values of a map are what the lookups give, in every order.
* `lookup_collect`: a map built from a list of values with distinct keys.
-/

namespace Lib

/-- A hash map: an association list with distinct keys. -/
abbrev HashMap (K V : Type) := AList (fun _ : K => V)

/-- An order in which an iteration visits the elements of a list. -/
structure IterOrder where
  order : {α : Type} → List α → List α
  perm : ∀ {α : Type} (l : List α), (order l).Perm l

/-- The order of the list itself. -/
def IterOrder.given : IterOrder := ⟨id, fun _ => List.Perm.refl _⟩

/-- The reverse order. -/
def IterOrder.backward : IterOrder := ⟨List.reverse, fun l => l.reverse_perm⟩

namespace HashMap

variable {K V : Type} [DecidableEq K]

/-- The values in iteration order. -/
def values (ord : IterOrder) (m : HashMap K V) : List V := ord.order (m.entries.map Sigma.snd)

theorem mem_values {ord : IterOrder} {m : HashMap K V} {v : V} :
    v ∈ values ord m ↔ ∃ k, m.lookup k = some v := by
  unfold values
  rw [(ord.perm _).mem_iff, List.mem_map]
  constructor
  · rintro ⟨⟨k, v'⟩, hmem, rfl⟩
    exact ⟨k, AList.mem_lookup_iff.mpr hmem⟩
  · rintro ⟨k, hk⟩
    exact ⟨⟨k, v⟩, AList.mem_lookup_iff.mp hk, rfl⟩

omit [DecidableEq K] in
theorem values_perm (ord ord' : IterOrder) (m : HashMap K V) :
    (values ord m).Perm (values ord' m) :=
  (ord.perm _).trans (ord'.perm _).symm

theorem lookup_insert_eq (m : HashMap K V) (a b : K) (v : V) :
    (m.insert a v).lookup b = if b = a then some v else m.lookup b := by
  split
  · subst_vars; exact AList.lookup_insert m
  · exact AList.lookup_insert_ne ‹_›

theorem lookup_erase_eq (m : HashMap K V) (a b : K) :
    (m.erase a).lookup b = if b = a then none else m.lookup b := by
  split
  · subst_vars; exact AList.lookup_erase _ m
  · exact AList.lookup_erase_ne ‹_›

theorem mem_iff_lookup {m : HashMap K V} {k : K} : k ∈ m ↔ ∃ v, m.lookup k = some v := by
  rw [← AList.lookup_isSome, Option.isSome_iff_exists]

theorem not_mem_iff_lookup {m : HashMap K V} {k : K} : k ∉ m ↔ m.lookup k = none :=
  AList.lookup_eq_none.symm

/-- The map with `f` applied to each value: `for v in m.values_mut() { f(v) }`. -/
def mapValues (f : V → V) (m : HashMap K V) : HashMap K V where
  entries := m.entries.map fun ⟨k, v⟩ => ⟨k, f v⟩
  nodupKeys := by
    have hkeys : (m.entries.map fun ⟨k, v⟩ => (⟨k, f v⟩ : Sigma fun _ : K => V)).keys =
        m.entries.keys := by
      simp only [List.keys, List.map_map]
      rfl
    rw [List.NodupKeys, hkeys]
    exact m.keys_nodup

theorem lookup_mapValues (f : V → V) (m : HashMap K V) (k : K) :
    (m.mapValues f).lookup k = (m.lookup k).map f := by
  ext v
  rw [← Option.mem_def, AList.mem_lookup_iff, Option.map_eq_some_iff]
  simp only [mapValues, List.mem_map]
  constructor
  · rintro ⟨⟨k', v'⟩, hmem, heq⟩
    obtain ⟨rfl, hv⟩ := Sigma.mk.inj_iff.mp heq
    exact ⟨v', AList.mem_lookup_iff.mpr hmem, eq_of_heq hv⟩
  · rintro ⟨v', hv', rfl⟩
    exact ⟨⟨k, v'⟩, AList.mem_lookup_iff.mp hv', rfl⟩

/-- Two maps with the same lookups. -/
def Same (m m' : HashMap K V) : Prop := ∀ k, m.lookup k = m'.lookup k

theorem Same.refl (m : HashMap K V) : Same m m := fun _ => rfl

theorem Same.symm {m m' : HashMap K V} (h : Same m m') : Same m' m := fun k => (h k).symm

theorem Same.trans {m m' m'' : HashMap K V} (h : Same m m') (h' : Same m' m'') : Same m m'' :=
  fun k => (h k).trans (h' k)

theorem Same.insert {m m' : HashMap K V} (h : Same m m') (a : K) (v : V) :
    Same (m.insert a v) (m'.insert a v) := fun k => by
  simp only [lookup_insert_eq, h k]

theorem Same.erase {m m' : HashMap K V} (h : Same m m') (a : K) : Same (m.erase a) (m'.erase a) :=
  fun k => by simp only [lookup_erase_eq, h k]

theorem Same.values_perm {m m' : HashMap K V} (h : Same m m') (ord : IterOrder) :
    (values ord m).Perm (values ord m') := by
  have hentries : m.entries.Perm m'.entries :=
    List.lookup_ext m.nodupKeys m'.nodupKeys fun k v => Eq.to_iff (congrArg (v ∈ ·) (h k))
  exact (ord.perm _).trans ((hentries.map _).trans (ord.perm _).symm)

/-- The values are the value of a key and those of the other keys. -/
theorem values_perm_cons {m : HashMap K V} {k : K} {v : V} (h : m.lookup k = some v)
    (ord : IterOrder) : (values ord m).Perm (v :: values ord (m.erase k)) := by
  have hsame : Same m ((m.erase k).insert k v) := fun k' => by
    rw [lookup_insert_eq, lookup_erase_eq]
    by_cases hk : k' = k
    · rw [if_pos hk, hk, h]
    · rw [if_neg hk, if_neg hk]
  have hnew : k ∉ m.erase k := fun hk => (AList.mem_erase.mp hk).1 rfl
  refine (hsame.values_perm ord).trans ?_
  rw [values, AList.entries_insert_of_notMem hnew]
  exact (ord.perm _).trans ((ord.perm _).symm.cons v)

/-- Where each value is a list: the list of a key and those of the other keys. -/
theorem flatten_values_perm {α : Type} (m : HashMap K (List α)) (k : K) (ord : IterOrder) :
    (values ord m).flatten.Perm ((m.lookup k).getD [] ++ (values ord (m.erase k)).flatten) := by
  cases hk : m.lookup k with
  | some l => exact (values_perm_cons hk ord).flatten
  | none =>
    have hsame : Same m (m.erase k) := fun k' => by
      rw [lookup_erase_eq]
      split
      · subst_vars
        exact hk
      · rfl
    exact (hsame.values_perm ord).flatten

/-! ## Values that carry their key -/

/-- Each value is stored under its own key. -/
def Keyed (key : V → K) (m : HashMap K V) : Prop := ∀ k v, m.lookup k = some v → key v = k

theorem Keyed.empty (key : V → K) : Keyed key (∅ : HashMap K V) := fun _ _ h => by simp at h

theorem Keyed.insert {key : V → K} {m : HashMap K V} (h : Keyed key m) (v : V) :
    Keyed key (m.insert (key v) v) := fun k w hw => by
  rw [lookup_insert_eq] at hw
  split at hw
  · cases hw; exact ‹k = key v›.symm
  · exact h k w hw

theorem Keyed.erase {key : V → K} {m : HashMap K V} (h : Keyed key m) (a : K) :
    Keyed key (m.erase a) := fun k w hw => by
  rw [lookup_erase_eq] at hw
  split at hw
  · cases hw
  · exact h k w hw

theorem Keyed.mem_values {key : V → K} {m : HashMap K V} (h : Keyed key m) {ord : IterOrder}
    {v : V} : v ∈ values ord m ↔ m.lookup (key v) = some v := by
  rw [HashMap.mem_values]
  constructor
  · rintro ⟨k, hk⟩
    have := h k v hk
    subst this
    exact hk
  · exact fun hv => ⟨key v, hv⟩

theorem Keyed.mem_entries {key : V → K} {m : HashMap K V} (h : Keyed key m) {v : V} :
    v ∈ m.entries.map Sigma.snd ↔ m.lookup (key v) = some v := by
  have hmem : v ∈ values .given m ↔ m.lookup (key v) = some v := h.mem_values
  exact hmem

/-- In a keyed map the values have distinct keys. -/
theorem Keyed.nodup_values {key : V → K} {m : HashMap K V} (h : Keyed key m) (ord : IterOrder) :
    ((values ord m).map key).Nodup := by
  unfold values
  rw [((ord.perm _).map key).nodup_iff, List.map_map]
  have hkeys : m.entries.map (key ∘ Sigma.snd) = m.keys := by
    unfold AList.keys List.keys
    apply List.map_congr_left
    rintro ⟨k, v⟩ hmem
    exact h k v (AList.mem_lookup_iff.mpr hmem)
  rw [hkeys]
  exact m.keys_nodup

/-! ## Lists of the values of a keyed function -/

/-- The list `l` holds exactly the values of `f`, each of which carries its key. -/
structure Lists {κ α : Type} (key : α → κ) (l : List α) (f : κ → Option α) : Prop where
  keyed : ∀ k a, f k = some a → key a = k
  mem : ∀ a, a ∈ l ↔ f (key a) = some a

theorem Lists.eq {κ α : Type} {key : α → κ} {l : List α} {f g : κ → Option α}
    (hf : Lists key l f) (hg : Lists key l g) : f = g := by
  have hle : ∀ {f g : κ → Option α}, Lists key l f → Lists key l g → ∀ k a, f k = some a →
      g k = some a := fun hf hg k a h => by
    have hk := hf.keyed k a h
    subst hk
    exact (hg.mem a).mp ((hf.mem a).mpr h)
  funext k
  exact Option.ext fun a => ⟨hle hf hg k a, hle hg hf k a⟩

theorem Lists.unique {κ α : Type} {key : α → κ} {l : List α} {f : κ → Option α}
    (h : Lists key l f) {a b : α} (ha : a ∈ l) (hb : b ∈ l) (hk : key a = key b) : a = b := by
  have h1 := (h.mem a).mp ha
  have h2 := (h.mem b).mp hb
  rw [hk, h2] at h1
  exact (Option.some.inj h1).symm

theorem Lists.perm {κ α : Type} {key : α → κ} {l l' : List α} {f : κ → Option α}
    (h : Lists key l f) (hl : l'.Perm l) : Lists key l' f :=
  ⟨h.keyed, fun a => hl.mem_iff.trans (h.mem a)⟩

theorem Keyed.lists {key : V → K} {m : HashMap K V} (h : Keyed key m) (ord : IterOrder) :
    Lists key (values ord m) fun k => m.lookup k :=
  ⟨h, fun _ => h.mem_values⟩

/-! ## Maps built from a list of values -/

/-- Of the values that a loop inserts under a key, the last one counts. -/
theorem lookup_foldl_insert {α : Type} (key : α → K) (value : α → V) (l : List α) (m : HashMap K V)
    (k : K) : (l.foldl (fun m a => m.insert (key a) (value a)) m).lookup k =
      ((l.reverse.find? fun a => key a = k).map value).or (m.lookup k) := by
  induction l generalizing m with
  | nil => rfl
  | cons a l ih =>
    rw [List.foldl_cons, ih, List.reverse_cons, List.find?_append, Option.map_or, Option.or_assoc,
      lookup_insert_eq]
    congr 1
    by_cases hk : k = key a
    · subst hk
      simp
    · simp [hk, Ne.symm hk]

/-- Under distinct keys every value that a loop inserts is found. -/
theorem lookup_foldl_insert_of_mem {α : Type} {key : α → K} (value : α → V) {l : List α}
    (hnd : (l.map key).Nodup) {m : HashMap K V} {a : α} (ha : a ∈ l) :
    (l.foldl (fun m a => m.insert (key a) (value a)) m).lookup (key a) = some (value a) := by
  rw [lookup_foldl_insert]
  cases hfind : l.reverse.find? fun b => key b = key a with
  | none =>
    have hnone := List.find?_eq_none.mp hfind a (List.mem_reverse.mpr ha)
    exact absurd (decide_eq_true rfl) hnone
  | some b =>
    have hkey : key b = key a := of_decide_eq_true (List.find?_some hfind :)
    have hb : b ∈ l := List.mem_reverse.mp (List.mem_of_find?_eq_some hfind)
    rw [List.inj_on_of_nodup_map hnd hb ha hkey]
    rfl

/-- The loop `for v in l { m.insert(key(v), v) }`. -/
def collect (key : V → K) (l : List V) (m : HashMap K V) : HashMap K V :=
  l.foldl (fun m v => m.insert (key v) v) m

@[simp] theorem collect_nil (key : V → K) (m : HashMap K V) : collect key [] m = m := rfl

@[simp] theorem collect_cons (key : V → K) (v : V) (l : List V) (m : HashMap K V) :
    collect key (v :: l) m = collect key l (m.insert (key v) v) := rfl

theorem Keyed.collect {key : V → K} {m : HashMap K V} (h : Keyed key m) (l : List V) :
    Keyed key (collect key l m) := by
  induction l generalizing m with
  | nil => exact h
  | cons v l ih => exact ih (h.insert v)

theorem lookup_collect_of_not_mem {key : V → K} {l : List V} {m : HashMap K V} {k : K}
    (h : k ∉ l.map key) : (collect key l m).lookup k = m.lookup k := by
  induction l generalizing m with
  | nil => rfl
  | cons v l ih =>
    rw [List.map_cons, List.mem_cons, not_or] at h
    rw [collect_cons, ih h.2, AList.lookup_insert_ne h.1]

theorem lookup_collect {key : V → K} {l : List V} (hnd : (l.map key).Nodup) {m : HashMap K V}
    {v : V} (hv : v ∈ l) : (collect key l m).lookup (key v) = some v :=
  lookup_foldl_insert_of_mem id hnd hv

/-- The last value of a key counts. -/
theorem lookup_collect_eq (key : V → K) (l : List V) (m : HashMap K V) (k : K) :
    (collect key l m).lookup k = (l.reverse.find? fun v => key v = k).or (m.lookup k) := by
  have h := lookup_foldl_insert key id l m k
  rwa [Option.map_id_apply] at h

/-- Collecting the values of a keyed map gives the map back. -/
theorem Keyed.collect_values {key : V → K} {m : HashMap K V} (h : Keyed key m)
    {l : List V} (hl : l.Perm (values .given m)) : Same (HashMap.collect key l ∅) m := by
  have hnd : (l.map key).Nodup := ((hl.map key).nodup_iff).mpr (h.nodup_values .given)
  intro k
  cases hk : m.lookup k with
  | some v =>
    have hkv := h k v hk
    subst hkv
    exact lookup_collect hnd (hl.mem_iff.mpr (h.mem_values.mpr hk))
  | none =>
    rw [lookup_collect_of_not_mem, AList.lookup_empty]
    intro hmem
    obtain ⟨v, hv, rfl⟩ := List.mem_map.mp hmem
    rw [h.mem_values.mp (hl.mem_iff.mp hv)] at hk
    cases hk

end HashMap

end Lib
