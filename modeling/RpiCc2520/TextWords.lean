import Mathlib

/-! The words of a text: its maximal runs without the separator, in order. -/
namespace RpiCc2520.TextWords
variable {α : Type*} [DecidableEq α]

def words (sep : α) (text : List α) : List (List α) := (text.splitOn sep).filter (· ≠ [])

variable {sep : α}

theorem words_nil : words sep [] = [] := by
  simp [words, List.splitOn_nil]

theorem words_append_sep (xs ys : List α) :
    words sep (xs ++ sep :: ys) = words sep xs ++ words sep ys := by
  rw [words, List.splitOn_append_cons_self, List.filter_append]
  rfl

theorem words_sep_cons (xs : List α) : words sep (sep :: xs) = words sep xs := by
  have h : words sep ([] ++ sep :: xs) = words sep [] ++ words sep xs := words_append_sep [] xs
  rwa [words_nil] at h

theorem words_of_not_mem {word : List α} (h : sep ∉ word) (hne : word ≠ []) :
    words sep word = [word] := by
  rw [words, List.splitOn_eq_singleton h]
  simp [hne]

theorem words_append_ne_nil {word : List α} (h : sep ∉ word) (hne : word ≠ []) (rest : List α) :
    words sep (word ++ rest) ≠ [] := by
  induction rest generalizing word with
  | nil =>
    rw [List.append_nil, words_of_not_mem h hne]
    exact List.cons_ne_nil _ _
  | cons a rest ih =>
    by_cases ha : a = sep
    · rw [ha, words_append_sep, words_of_not_mem h hne]
      exact List.cons_ne_nil _ _
    · rw [List.append_cons]
      apply ih
      · simp [h, Ne.symm ha]
      · simp

end RpiCc2520.TextWords
