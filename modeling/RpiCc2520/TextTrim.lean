import Mathlib

/-! Texts without blanks at their ends. What is a blank is a parameter. -/
namespace RpiCc2520.TextTrim
variable {α : Type*} {blank : α → Bool}

/-- No blank stands first. -/
def Flush (blank : α → Bool) (s : List α) : Prop := ∀ b ∈ s.head?, blank b = false

/-- No blank stands last. -/
def Closed (blank : α → Bool) (s : List α) : Prop := ∀ b ∈ s.getLast?, blank b = false

/-- No blank stands first or last. -/
structure Trimmed (blank : α → Bool) (s : List α) : Prop where
  flush : Flush blank s
  closed : Closed blank s

instance (s : List α) : Decidable (Flush blank s) :=
  inferInstanceAs (Decidable (∀ b ∈ s.head?, blank b = false))

instance (s : List α) : Decidable (Closed blank s) :=
  inferInstanceAs (Decidable (∀ b ∈ s.getLast?, blank b = false))

instance (s : List α) : Decidable (Trimmed blank s) :=
  decidable_of_iff (Flush blank s ∧ Closed blank s) ⟨fun h => ⟨h.1, h.2⟩, fun h => ⟨h.1, h.2⟩⟩

theorem flush_dropWhile (blank : α → Bool) (s : List α) : Flush blank (s.dropWhile blank) := by
  intro b hb
  have h := List.head?_dropWhile_not blank s
  rw [Option.mem_def.mp hb] at h
  simpa using h

theorem closed_rdropWhile (blank : α → Bool) (s : List α) : Closed blank (s.rdropWhile blank) := by
  intro b hb
  have h := flush_dropWhile blank s.reverse b
  rw [List.rdropWhile, List.getLast?_reverse] at hb
  exact h hb

theorem Flush.of_prefix {s t : List α} (h : Flush blank s) (hpre : t <+: s) : Flush blank t := by
  intro b hb
  obtain ⟨rest, rfl⟩ := hpre
  apply h
  rw [List.head?_append, Option.mem_def.mp hb]
  rfl

theorem Closed.of_suffix {s t : List α} (h : Closed blank s) (hsuf : t <:+ s) :
    Closed blank t := by
  intro b hb
  obtain ⟨front, rfl⟩ := hsuf
  apply h
  rw [List.getLast?_append, Option.mem_def.mp hb]
  rfl

theorem Flush.dropWhile {s : List α} (h : Flush blank s) : s.dropWhile blank = s := by
  cases s with
  | nil => rfl
  | cons b s =>
    have hb : blank b = false := h b rfl
    exact List.dropWhile_cons_of_neg (by simp [hb])

theorem Closed.rdropWhile {s : List α} (h : Closed blank s) : s.rdropWhile blank = s := by
  have hflush : Flush blank s.reverse := by
    intro b hb
    rw [List.head?_reverse] at hb
    exact h b hb
  rw [List.rdropWhile, hflush.dropWhile, List.reverse_reverse]

theorem dropWhile_append {ws s : List α} (hws : ∀ b ∈ ws, blank b = true) (h : Flush blank s) :
    (ws ++ s).dropWhile blank = s := by
  rw [List.dropWhile_append_of_pos hws, h.dropWhile]

theorem rdropWhile_append (s : List α) {ws : List α} (hws : ∀ b ∈ ws, blank b = true) :
    (s ++ ws).rdropWhile blank = s.rdropWhile blank := by
  have hall : ∀ b ∈ ws.reverse, blank b = true := fun b hb => hws b (List.mem_reverse.mp hb)
  rw [List.rdropWhile, List.reverse_append, List.dropWhile_append_of_pos hall]
  rfl

theorem dropWhile_blanks {ws : List α} (hws : ∀ b ∈ ws, blank b = true) :
    ws.dropWhile blank = [] :=
  List.dropWhile_eq_nil_iff.mpr hws

/-- Nothing behind what is no blank is touched but blanks at the end. -/
theorem rdropWhile_append_of_closed {s : List α} (h : Closed blank s) (t : List α) :
    (s ++ t).rdropWhile blank = s ++ t.rdropWhile blank := by
  by_cases ht : t.rdropWhile blank = []
  · rw [rdropWhile_append s (List.rdropWhile_eq_nil_iff.mp ht), h.rdropWhile, ht, List.append_nil]
  · have hsplit := List.rdropWhile_append_rtakeWhile (p := blank) (l := t)
    have hblanks : ∀ b ∈ t.rtakeWhile blank, blank b = true := fun b =>
      List.mem_rtakeWhile_imp
    have hclosed : Closed blank (s ++ t.rdropWhile blank) := by
      intro b hb
      rw [List.getLast?_append_of_ne_nil _ ht] at hb
      exact closed_rdropWhile blank t b hb
    calc (s ++ t).rdropWhile blank
        = (s ++ t.rdropWhile blank ++ t.rtakeWhile blank).rdropWhile blank := by
          rw [List.append_assoc, hsplit]
      _ = (s ++ t.rdropWhile blank).rdropWhile blank := rdropWhile_append _ hblanks
      _ = s ++ t.rdropWhile blank := hclosed.rdropWhile

end RpiCc2520.TextTrim
