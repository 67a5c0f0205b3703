import Mathlib.Data.List.Basic

/-!
# Words

`words sep s` splits `s` into words, reading it from left to right : separators end a word,
and none is empty. It is what reading words one after the other from a stream gives.

Words are found on both sides of a separator alone (`words_append_sep`), so what is written
with a separator after a string is read back after its words (`words_append_word`).
-/

namespace Words

variable {α : Type*} (sep : α → Bool)

/-- The words of a string, after the part of a word that was read before it. -/
def wordsFrom : List α → List α → List (List α)
  | word, [] => if word.isEmpty then [] else [word]
  | word, c :: s =>
    if sep c then
      if word.isEmpty then wordsFrom [] s else word :: wordsFrom [] s
    else wordsFrom (word ++ [c]) s

/-- The words of a string. -/
def words (s : List α) : List (List α) :=
  wordsFrom sep [] s

/-- A word has an element, and no separator. -/
structure IsWord (w : List α) : Prop where
  ne_nil : w ≠ []
  not_sep : ∀ c ∈ w, sep c = false

variable {sep}

@[simp] theorem words_nil : words sep [] = [] :=
  rfl

/-- Elements that are no separators go to the word. -/
theorem wordsFrom_append {v : List α} (hv : ∀ c ∈ v, sep c = false) (word s : List α) :
    wordsFrom sep word (v ++ s) = wordsFrom sep (word ++ v) s := by
  induction v generalizing word with
  | nil => simp
  | cons c v ih =>
    obtain ⟨hc, hv⟩ := List.forall_mem_cons.mp hv
    rw [List.cons_append, wordsFrom, hc, if_neg Bool.false_ne_true, ih hv, List.append_assoc,
      List.singleton_append]

theorem wordsFrom_append_sep {c : α} (hc : sep c = true) (word s t : List α) :
    wordsFrom sep word (s ++ c :: t) = wordsFrom sep word s ++ words sep t := by
  induction s generalizing word with
  | nil =>
    rw [List.nil_append, wordsFrom, wordsFrom, hc, if_pos rfl]
    split_ifs
    · rfl
    · rfl
  | cons d s ih =>
    rw [List.cons_append, wordsFrom, wordsFrom, ih, ih]
    split_ifs
    · rfl
    · rfl
    · rfl

/-- The words on the sides of a separator. -/
theorem words_append_sep {c : α} (hc : sep c = true) (s t : List α) :
    words sep (s ++ c :: t) = words sep s ++ words sep t :=
  wordsFrom_append_sep hc [] s t

/-- A word is read back. -/
theorem words_of_isWord {w : List α} (h : IsWord sep w) : words sep w = [w] := by
  have hread := wordsFrom_append h.not_sep [] []
  rw [List.append_nil, List.nil_append] at hread
  rw [words, hread, wordsFrom, if_neg]
  simpa using h.ne_nil

/-- A word after a separator is one word more. -/
theorem words_append_word {c : α} (hc : sep c = true) (s : List α) {w : List α}
    (hw : IsWord sep w) : words sep (s ++ c :: w) = words sep s ++ [w] := by
  rw [words_append_sep hc, words_of_isWord hw]

end Words
