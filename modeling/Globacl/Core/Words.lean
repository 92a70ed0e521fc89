import Globacl.Core.Http

/-!
# Words and lines (`globacl-core/src/lib/http.rs`, `nats.rs`)

The lines of HTTP and of NATS are words with white space between them, and a request or an answer of
HTTP is a first line with headers under it.

* `splitWhitespace_spaced`: words that are written with a space between them are read back.
* `isWord_of_mem_splitWhitespace`: what is read from a line are words.
* `head?_lines_crlfText`: the first of the lines that are written.
-/

namespace Globacl

open Lib

/-- A text without white space that is not empty. -/
def IsWord (word : String) : Prop := word ≠ "" ∧ ∀ c ∈ word.toList, isWhitespace c = false

instance decidableIsWord (word : String) : Decidable (IsWord word) :=
  @instDecidableAnd _ _ inferInstance (List.decidableBAll _ word.toList)

/-- Words with a space between them. -/
def spaced : List String → String
  | [] => ""
  | [word] => word
  | word :: words => word ++ " " ++ spaced words

section Words

variable {word rest value : String} {words : List String}

theorem IsWord.not_mem (h : IsWord word) {c : Char} (hc : isWhitespace c = true) :
    c ∉ word.toList := fun hmem => by
  rw [h.2 c hmem] at hc
  cases hc

theorem IsWord.toList_ne_nil (h : IsWord word) : word.toList ≠ [] := fun hnil =>
  h.1 (String.toList_inj.mp hnil)

theorem splitWhitespace_word (h : IsWord word) : splitWhitespace word = [word] := by
  unfold splitWhitespace
  rw [List.splitOnP_eq_singleton h.2]
  simp [h.toList_ne_nil]

theorem splitWhitespace_cons (h : IsWord word) :
    splitWhitespace (word ++ " " ++ rest) = word :: splitWhitespace rest := by
  have hlist : (word ++ " " ++ rest).toList = word.toList ++ ' ' :: rest.toList := by simp
  unfold splitWhitespace
  rw [hlist, List.splitOnP_append_cons_of_forall_mem h.2 ' ' (by decide)]
  simp [h.toList_ne_nil]

theorem splitWhitespace_spaced (h : ∀ word ∈ words, IsWord word) :
    splitWhitespace (spaced words) = words := by
  induction words with
  | nil => rfl
  | cons word words ih =>
    have hword := h word List.mem_cons_self
    have hwords := ih fun w hw => h w (List.mem_cons_of_mem _ hw)
    cases words with
    | nil => exact splitWhitespace_word hword
    | cons word' words =>
      rw [spaced, splitWhitespace_cons hword, hwords]
      exact List.cons_ne_nil _ _

theorem forall_mem_of_mem_splitOnP {α : Type} {p : α → Bool} {l part : List α}
    (h : part ∈ l.splitOnP p) : ∀ a ∈ part, p a = false := by
  induction l generalizing part with
  | nil =>
    rw [List.splitOnP_nil, List.mem_singleton] at h
    subst h
    exact List.forall_mem_nil _
  | cons a l ih =>
    rw [List.splitOnP_cons_eq_if_modifyHead] at h
    by_cases ha : p a = true
    · rw [if_pos ha] at h
      rcases List.mem_cons.mp h with rfl | h
      · exact List.forall_mem_nil _
      · exact ih h
    · rw [if_neg ha] at h
      obtain ⟨first, others, hsplit⟩ := List.exists_cons_of_ne_nil (List.splitOnP_ne_nil p l)
      rw [hsplit, List.modifyHead_cons] at h
      rcases List.mem_cons.mp h with rfl | h
      · rintro b hb
        rcases List.mem_cons.mp hb with rfl | hb
        · exact Bool.eq_false_of_not_eq_true ha
        · exact ih (hsplit ▸ List.mem_cons_self) b hb
      · exact ih (hsplit ▸ List.mem_cons_of_mem _ h)

theorem isWord_of_mem_splitWhitespace (h : word ∈ splitWhitespace value) : IsWord word := by
  obtain ⟨cs, hcs, rfl⟩ := List.mem_map.mp h
  obtain ⟨hmem, hne⟩ := List.mem_filter.mp hcs
  constructor
  · intro hnil
    have := congrArg String.toList hnil
    rw [String.toList_ofList] at this
    exact of_decide_eq_true hne this
  · rw [String.toList_ofList]
    exact forall_mem_of_mem_splitOnP hmem

theorem isWord_toString (n : Nat) : IsWord (toString n) :=
  ⟨fun h => toString_toList_ne_nil n (by rw [h]; rfl),
    fun _ hc => isWhitespace_of_isDigit (isDigit_of_mem_toString hc)⟩

end Words

theorem crlfText_cons_toList (line : String) (ls : List String) :
    (crlfText (line :: ls)).toList = line.toList ++ '\r' :: '\n' :: (crlfText ls).toList := by
  simp [crlfText]

theorem head?_lines_crlfText {line : String} (h : '\n' ∉ line.toList) (ls : List String) :
    (lines (crlfText (line :: ls))).head? = some line := by
  unfold lines
  rw [crlfText_cons_toList, lineChars_append_crlf h]
  simp

end Globacl
