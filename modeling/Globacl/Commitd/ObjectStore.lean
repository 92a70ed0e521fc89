import Globacl.Commitd.Manifest
import Globacl.Lib.Crash
import Mathlib.Data.List.Infix

/-!
# The object store (`globacl-commitd/src/app/object_store.rs`)

A node keeps its snapshots in files and, if it is configured to, in an object store. Both give back
the bytes that were stored. The requests to the store, with their signatures, are left out.

* `normalizeObjectPrefix_of_parts`: a path of two plain parts is an object key as it stands.
-/

namespace Globacl

open Lib Prog

/-- What a node stores: its files below `snapshots/` by their paths, and the objects by their keys. -/
structure SnapshotStorage where
  files : HashMap String (List UInt8)
  objects : HashMap String (List UInt8)

/-- A program that works on the stores. -/
abbrev StoreProgram (α : Type) := Prog SnapshotStorage GlobAclError α

/-! ## Keys -/

/-- `str::trim_matches('/')`. -/
def trimSlashes (value : String) : String :=
  String.ofList (trimEndMatches (· = '/') (value.toList.dropWhile (· = '/')))

section Normalize

/-- A check of each character looks at the characters of the text, not at all there are. -/
local instance (priority := high) decidableForallChar {p : Char → Prop} [DecidablePred p]
    (text : List Char) : Decidable (∀ ch ∈ text, p ch) := List.decidableBAll p text

/-- `normalize_object_prefix`. -/
def normalizeObjectPrefix (value : String) : Result String :=
  let normalized := trimSlashes (trim value)
  let unsafeKey := .error (.invalidData s!"unsafe object store key prefix {debugStr value}")
  if normalized = "" then .ok normalized
  else if '\\' ∈ normalized.toList ∨ ['/', '/'] <:+: normalized.toList ∨
      ∃ part ∈ normalized.toList.splitOn '/', part = [] ∨ part = ['.'] ∨ part = ['.', '.'] then
    unsafeKey
  else if ¬∀ ch ∈ normalized.toList, ch.isAlphanum = true ∨ ch ∈ ['/', '.', '-', '_'] then unsafeKey
  else .ok normalized

end Normalize

/-- `ObjectStoreConfig`: the prefix of its keys, and whether a publication fails with the store. -/
structure ObjectStoreConfig where
  keyPrefix : String
  requireUpload : Bool

namespace ObjectStoreConfig

variable (store : ObjectStoreConfig)

/-- `object_key`. -/
def objectKey (object : String) : Result String := do
  let object ← normalizeObjectPrefix object
  if object = "" then throw (.invalidData "object store object key cannot be empty")
  else if store.keyPrefix = "" then pure object
  else pure (store.keyPrefix ++ "/" ++ object)

/-- `put`. -/
def put (object : String) (body : List UInt8) : StoreProgram Unit := do
  let key ← Prog.lift (store.objectKey object)
  Prog.step fun s => { s with objects := s.objects.insert key body }

/-- `get_optional`. -/
def getOptional (object : String) : StoreProgram (Option (List UInt8)) := do
  let key ← Prog.lift (store.objectKey object)
  let s ← Prog.get
  pure (s.objects.lookup key)

/-- `get`. -/
def get (object : String) : StoreProgram (List UInt8) := do
  let body ← store.getOptional object
  match body with
  | some body => pure body
  | none => Prog.lift (.error (.invalidData s!"object store object {debugStr object} was not found"))

end ObjectStoreConfig

/-! ## Paths of two parts -/

/-- A part of a path that needs no care. -/
structure PlainPart (part : List Char) : Prop where
  chars : ∀ c ∈ part, c.isAlphanum = true ∨ c ∈ ['.', '-', '_']
  ne_nil : part ≠ []
  ne_dot : part ≠ ['.']
  ne_dots : part ≠ ['.', '.']

theorem plainPart_of_mem {part : List Char} {c : Char} (hc : c ∈ part) (hne : c ≠ '.')
    (h : ∀ c ∈ part, c.isAlphanum = true ∨ c ∈ ['.', '-', '_']) : PlainPart part where
  chars := h
  ne_nil := List.ne_nil_of_mem hc
  ne_dot := by
    rintro rfl
    exact hne (List.mem_singleton.mp hc)
  ne_dots := by
    rintro rfl
    exact (List.mem_pair.mp hc).elim hne hne

theorem PlainPart.not_slash {part : List Char} (h : PlainPart part) : '/' ∉ part := by
  intro hc
  have := h.chars _ hc
  revert this
  decide

theorem isWhitespace_of_isAlphanum {c : Char} (h : c.isAlphanum = true) : isWhitespace c = false := by
  have hc : 48 ≤ c.toNat ∧ c.toNat ≤ 57 ∨ 65 ≤ c.toNat ∧ c.toNat ≤ 90 ∨
      97 ≤ c.toNat ∧ c.toNat ≤ 122 := by
    have hcases : (c.isUpper = true ∨ c.isLower = true) ∨ c.isDigit = true := by
      rw [← Bool.or_eq_true, ← Bool.or_eq_true]
      exact h
    rcases hcases with (hupper | hlower) | hdigit
    · exact Or.inr (Or.inl (of_decide_eq_true hupper))
    · exact Or.inr (Or.inr ((Bool.and_eq_true_iff.mp hlower).imp of_decide_eq_true of_decide_eq_true))
    · exact Or.inl ((Bool.and_eq_true_iff.mp hdigit).imp of_decide_eq_true of_decide_eq_true)
  simp only [isWhitespace, Bool.or_eq_false_iff, Bool.and_eq_false_iff, decide_eq_false_iff_not,
    beq_eq_false_iff_ne, ne_eq]
  omega

/-- A path of two plain parts is an object key as it stands. -/
theorem normalizeObjectPrefix_of_parts {value : String} {dir file : List Char}
    (h : value.toList = dir ++ '/' :: file) (hdir : PlainPart dir) (hfile : PlainPart file) :
    normalizeObjectPrefix value = .ok value := by
  have hchars : ∀ c ∈ value.toList, c.isAlphanum = true ∨ c ∈ ['/', '.', '-', '_'] := by
    intro c hc
    rw [h, List.mem_append, List.mem_cons] at hc
    rcases hc with hc | rfl | hc
    · exact (hdir.chars c hc).imp id (List.mem_cons_of_mem _)
    · decide
    · exact (hfile.chars c hc).imp id (List.mem_cons_of_mem _)
  have htrim : trim value = value := by
    refine trim_of_forall fun c hc => ?_
    rcases hchars c hc with hc | hc
    · exact isWhitespace_of_isAlphanum hc
    · have hspace : ∀ c ∈ ['/', '.', '-', '_'], isWhitespace c = false :=
        List.all_iff_forall_prop.mp (by decide)
      exact hspace c hc
  have hslashes : trimSlashes value = value := by
    obtain ⟨c, dir, rfl⟩ := List.exists_cons_of_ne_nil hdir.ne_nil
    have hhead : c ≠ '/' := fun heq => hdir.not_slash (by rw [heq]; exact List.mem_cons_self)
    have hlast : file.getLast hfile.ne_nil ≠ '/' := fun heq =>
      hfile.not_slash (by rw [← heq]; exact List.getLast_mem _)
    obtain ⟨front, d, rfl⟩ : ∃ front d, file = front ++ [d] :=
      ⟨_, _, (List.dropLast_append_getLast hfile.ne_nil).symm⟩
    rw [List.getLast_append_singleton] at hlast
    unfold trimSlashes trimEndMatches
    rw [h, List.cons_append, List.dropWhile_cons_of_neg (by simpa using hhead), ← List.cons_append,
      ← List.cons_append, ← List.append_assoc, List.reverse_append, List.reverse_singleton,
      List.singleton_append, List.dropWhile_cons_of_neg (by simpa using hlast), ← List.singleton_append,
      ← List.reverse_singleton, ← List.reverse_append, List.reverse_reverse, List.append_assoc,
      List.cons_append, List.cons_append, ← List.cons_append, ← h, String.ofList_toList]
  have hne : value ≠ "" := by
    rintro rfl
    simp at h
  have hsplit : value.toList.splitOn '/' = [dir, file] := by
    rw [h, List.splitOn_append_cons_self_of_not_mem hdir.not_slash,
      List.splitOn_eq_singleton hfile.not_slash]
  unfold normalizeObjectPrefix
  dsimp only
  rw [htrim, hslashes, if_neg hne, if_neg, if_neg (not_not.mpr hchars)]
  rintro (hc | hc | ⟨part, hpart, hbad⟩)
  · have := hchars _ hc
    revert this
    decide
  · have hle := hc.sublist.count_le '/'
    have hdirs := List.count_eq_zero.mpr hdir.not_slash
    have hfiles := List.count_eq_zero.mpr hfile.not_slash
    rw [h, List.count_append] at hle
    simp [hdirs, hfiles] at hle
  · rw [hsplit] at hpart
    rcases List.mem_pair.mp hpart with rfl | rfl
    · exact hbad.elim hdir.ne_nil fun hbad => hbad.elim hdir.ne_dot hdir.ne_dots
    · exact hbad.elim hfile.ne_nil fun hbad => hbad.elim hfile.ne_dot hfile.ne_dots

/-! ## Objects under plain names -/

/-- A name that is an object key as it stands. -/
structure KeyName (object : String) : Prop where
  normalized : normalizeObjectPrefix object = .ok object
  ne_empty : object ≠ ""

theorem keyName_of_parts {object : String} {dir file : List Char} {c : Char}
    (h : object.toList = dir ++ '/' :: file) (hdir : PlainPart dir) (hc : c ∈ file) (hne : c ≠ '.')
    (hfile : ∀ c ∈ file, c.isAlphanum = true ∨ c ∈ ['.', '-', '_']) : KeyName object where
  normalized := normalizeObjectPrefix_of_parts h hdir (plainPart_of_mem hc hne hfile)
  ne_empty := by
    rintro rfl
    simp at h

namespace ObjectStoreConfig

variable (store : ObjectStoreConfig)

/-- The key of an object with a plain name. -/
def key (object : String) : String :=
  if store.keyPrefix = "" then object else store.keyPrefix ++ "/" ++ object

variable {store}

theorem key_inj {object object' : String} (h : store.key object = store.key object') :
    object = object' := by
  unfold key at h
  split at h
  · exact h
  · exact (String.append_right_inj _).mp h

section Runs

variable {object : String} (h : KeyName object)
include h

theorem objectKey_eq : store.objectKey object = .ok (store.key object) := by
  unfold objectKey key
  rw [h.normalized, ok_bind, if_neg h.ne_empty]
  split <;> rfl

theorem put_runs (body : List UInt8) (s : SnapshotStorage) : Runs (store.put object body) s ()
    { s with objects := s.objects.insert (store.key object) body } :=
  (Runs.lift (objectKey_eq h) s).bind (.step _ s)

theorem getOptional_runs {body : List UInt8} {s : SnapshotStorage}
    (hbody : s.objects.lookup (store.key object) = some body) :
    Runs (store.getOptional object) s (some body) s := by
  refine (Runs.lift (objectKey_eq h) s).bind (.get_bind ?_)
  rw [hbody]
  exact .pure _ s

theorem get_runs {body : List UInt8} {s : SnapshotStorage}
    (hbody : s.objects.lookup (store.key object) = some body) : Runs (store.get object) s body s :=
  (getOptional_runs h hbody).bind (.pure _ s)

end Runs

end ObjectStoreConfig

end Globacl
