import Mathlib.Data.List.Basic

/-!
# Bytes, and where a text is cut

What holds of the 256 bytes holds of every byte (`forall_byte`). `takeWhile` and `dropWhile`
cut a text at the first element that fails a test, so one is found after elements that pass
(`takeWhile_append`, `dropWhile_append`).
-/

namespace Text

theorem forall_byte {P : UInt8 → Prop} (h : ∀ n : Fin 256, P (UInt8.ofFin n)) (b : UInt8) :
    P b := by
  simpa using h b.toFin

variable {α : Type*} {p : α → Bool} {front rest : List α}

theorem takeWhile_append (hfront : ∀ a ∈ front, p a = true)
    (hrest : ∀ a ∈ rest.head?, p a = false) : (front ++ rest).takeWhile p = front := by
  rw [List.takeWhile_append_of_pos hfront]
  cases rest with
  | nil => rw [List.takeWhile_nil, List.append_nil]
  | cons a rest =>
    have ha : ¬p a = true := by simp [hrest a rfl]
    rw [List.takeWhile_cons_of_neg ha, List.append_nil]

theorem dropWhile_append (hfront : ∀ a ∈ front, p a = true)
    (hrest : ∀ a ∈ rest.head?, p a = false) : (front ++ rest).dropWhile p = rest := by
  rw [List.dropWhile_append_of_pos hfront]
  cases rest with
  | nil => rfl
  | cons a rest =>
    have ha : ¬p a = true := by simp [hrest a rfl]
    rw [List.dropWhile_cons_of_neg ha]

/-- What is left starts with an element that fails. -/
theorem head_dropWhile (text : List α) : ∀ a ∈ (text.dropWhile p).head?, p a = false := by
  intro a ha
  have hnot := List.head?_dropWhile_not p text
  rw [Option.mem_def.mp ha] at hnot
  simpa using hnot

end Text
