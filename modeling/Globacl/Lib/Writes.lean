import Globacl.Lib.HashMap
import Mathlib.Data.List.Induction

/-!
# Logs of keyed writes, and overlays

Each element of a log writes at most one key: it stores a value or erases the key. What a key
holds after the log is a fold, and only the elements that write the key matter to it, so a log
that is split over several streams by key can be merged back in any order.

* `valueAt`: what a key holds after a log. `valueAt_filter`: it is decided by the elements that
  write the key.
* `overlay`: a base with later additions and removals on top. `overlay_store`, `overlay_erase`:
  a write to the overlay is a write to the whole.
-/

namespace Lib

variable {ω K V : Type} [DecidableEq K]

/-- What the element of a log does to what the key `k` holds. A write of `none` erases. -/
def writeAt (write : ω → Option (K × Option V)) (k : K) (held : Option V) (m : ω) : Option V :=
  match write m with
  | some (k', v) => if k = k' then v else held
  | none => held

/-- What the key `k` holds after the log. -/
def valueAt (write : ω → Option (K × Option V)) (log : List ω) (k : K) : Option V :=
  log.foldl (writeAt write k) none

variable {write : ω → Option (K × Option V)} {k : K}

theorem writeAt_of_ne {m : ω} {held : Option V} (h : ∀ v, write m ≠ some (k, v)) :
    writeAt write k held m = held := by
  unfold writeAt
  split
  · rename_i k' v hm
    rw [if_neg]
    rintro rfl
    exact h v hm
  · rfl

theorem writeAt_of_eq {m : ω} {held v : Option V} (h : write m = some (k, v)) :
    writeAt write k held m = v := by
  simp [writeAt, h]

@[simp] theorem valueAt_nil : valueAt write [] k = none := rfl

@[simp] theorem valueAt_concat (log : List ω) (m : ω) :
    valueAt write (log ++ [m]) k = writeAt write k (valueAt write log k) m := by
  simp [valueAt]

/-- Elements that do not write the key can be left out. -/
theorem valueAt_filter {p : ω → Bool} {log : List ω}
    (h : ∀ m ∈ log, ∀ v, write m = some (k, v) → p m = true) :
    valueAt write (log.filter p) k = valueAt write log k := by
  induction log using List.reverseRecOn with
  | nil => rfl
  | append_singleton log m ih =>
    have ih := ih fun m' hm' => h m' (List.mem_append_left _ hm')
    rw [List.filter_append, valueAt_concat]
    by_cases hp : p m
    · rw [List.filter_cons_of_pos hp, List.filter_nil, valueAt_concat, ih]
    · rw [List.filter_cons_of_neg hp, List.filter_nil, List.append_nil, ih, writeAt_of_ne]
      exact fun v hv => hp (h m (List.mem_append_right _ (List.mem_singleton_self m)) v hv)

/-- What a key holds was written by an element of the log. -/
theorem exists_of_valueAt {log : List ω} {v : V} (h : valueAt write log k = some v) :
    ∃ m ∈ log, write m = some (k, some v) := by
  induction log using List.reverseRecOn with
  | nil => cases h
  | append_singleton log m ih =>
    rw [valueAt_concat, writeAt] at h
    have hlog : valueAt write log k = some v → ∃ m' ∈ log ++ [m], write m' = some (k, some v) :=
      fun h => let ⟨m', hm', hw⟩ := ih h; ⟨m', List.mem_append_left _ hm', hw⟩
    split at h
    · rename_i k' v' hm
      split at h
      · subst_vars
        exact ⟨m, List.mem_append_right _ (List.mem_singleton_self m), hm⟩
      · exact hlog h
    · exact hlog h

/-! ## Overlays -/

/-- A base with additions and removals on top: an addition wins over a removal, and either over
the base. -/
def overlay (base : K → Option V) (adds : HashMap K V) (removes : HashMap K Nat) (k : K) :
    Option V :=
  match adds.lookup k with
  | some v => some v
  | none => if k ∈ removes then none else base k

variable {base : K → Option V} {adds : HashMap K V} {removes : HashMap K Nat}

@[simp] theorem overlay_empty : overlay base ∅ ∅ k = base k := by
  simp [overlay, AList.notMem_empty]

theorem overlay_of_add {v : V} (h : adds.lookup k = some v) :
    overlay base adds removes k = some v := by
  simp [overlay, h]

theorem overlay_of_remove (h : adds.lookup k = none) (hr : k ∈ removes) :
    overlay base adds removes k = none := by
  simp [overlay, h, hr]

theorem overlay_of_base (h : adds.lookup k = none) (hr : k ∉ removes) :
    overlay base adds removes k = base k := by
  simp [overlay, h, hr]

theorem overlay_store (a : K) (v : V) :
    overlay base (adds.insert a v) (removes.erase a) k =
      if k = a then some v else overlay base adds removes k := by
  unfold overlay
  rw [HashMap.lookup_insert_eq]
  by_cases h : k = a
  · simp [h]
  · simp [h, AList.mem_erase]

theorem overlay_erase (a : K) (seq : Nat) :
    overlay base (adds.erase a) (removes.insert a seq) k =
      if k = a then none else overlay base adds removes k := by
  unfold overlay
  rw [HashMap.lookup_erase_eq]
  by_cases h : k = a
  · simp [h]
  · simp [h, AList.mem_insert]

/-! ## The keys of an overlay -/

/-- No key is added and removed. -/
def Apart {W : Type} (adds : HashMap K V) (removes : HashMap K W) : Prop :=
  ∀ k ∈ adds, k ∉ removes

omit [DecidableEq K] in
theorem apart_empty {W : Type} (removes : HashMap K W) : Apart (∅ : HashMap K V) removes :=
  fun _ h => absurd h (AList.notMem_empty _)

/-- A stored key is taken out of the removals. -/
theorem Apart.store (h : Apart adds removes) (a : K) (v : V) :
    Apart (adds.insert a v) (removes.erase a) := by
  intro k hk hr
  obtain ⟨hne, hr⟩ := AList.mem_erase.mp hr
  exact h k ((AList.mem_insert adds).mp hk |>.resolve_left hne) hr

/-- A removed key is taken out of the additions. -/
theorem Apart.erase (h : Apart adds removes) (a : K) (seq : Nat) :
    Apart (adds.erase a) (removes.insert a seq) := by
  intro k hk hr
  obtain ⟨hne, hk⟩ := AList.mem_erase.mp hk
  exact h k hk ((AList.mem_insert removes).mp hr |>.resolve_left hne)

/-- Of two lists without repetitions, each has as many elements that are in the other. -/
theorem length_filter_mem_comm {l l' : List K} (h : l.Nodup) (h' : l'.Nodup) :
    (l.filter (· ∈ l')).length = (l'.filter (· ∈ l)).length := by
  refine ((List.perm_ext_iff_of_nodup (h.filter _) (h'.filter _)).mpr fun k => ?_).length_eq
  simp only [List.mem_filter, decide_eq_true_eq, and_comm]

/-- The size of an overlay without a listing of it: the removed keys of the base are taken off, and
the added keys that the base does not have come on top. -/
theorem length_overlay {keys : List K} (hkeys : keys.Nodup) (adds : HashMap K V)
    (removes : HashMap K Nat) :
    (keys.filter fun k => decide (k ∉ removes) && decide (k ∉ adds)).length + adds.keys.length =
      keys.length - (removes.keys.filter fun k => decide (k ∈ keys) && decide (k ∉ adds)).length +
        (adds.keys.filter fun k => decide (k ∉ keys)).length := by
  have hadded := length_filter_mem_comm hkeys adds.keys_nodup
  have hremoved := length_filter_mem_comm (hkeys.filter fun k => decide (k ∉ adds))
    removes.keys_nodup
  have hsplit := List.length_eq_length_filter_add (l := keys) fun k => decide (k ∈ adds.keys)
  have hkept := List.length_eq_length_filter_add (l := keys.filter fun k => decide (k ∉ adds))
    fun k => decide (k ∈ removes.keys)
  have hadds := List.length_eq_length_filter_add (l := adds.keys) fun k => decide (k ∈ keys)
  simp only [List.filter_filter, List.mem_filter, decide_eq_true_eq, ← AList.mem_keys,
    Bool.decide_and, ← decide_not] at hadded hremoved hsplit hkept hadds ⊢
  omega

end Lib
