import Mathlib

/-! Hexadecimal text by the codes of its characters, and checks that run over what it spells. -/
namespace RpiCc2520.HexText

def digitValue (c : ℕ) : Option ℕ :=
  if 48 ≤ c ∧ c ≤ 57 then some (c - 48)
  else if 65 ≤ c ∧ c ≤ 70 then some (c - 55)
  else if 97 ≤ c ∧ c ≤ 102 then some (c - 87)
  else none

/-- Two digits spell a byte, the high half first. -/
structure Spells (high low : ℕ) (b : ℕ) : Prop where
  high : digitValue high = some (b / 16)
  low : digitValue low = some (b % 16)

section
variable {α β : Type*} {op : β → α → β} (hstate : ∀ a, (op · a).Injective)
  (hvalue : ∀ b, (op b).Injective)
include hstate

theorem foldl_injective (xs : List α) : (xs.foldl op ·).Injective := by
  induction xs with
  | nil => exact fun _ _ h => h
  | cons x xs ih => exact fun _ _ h => hstate x (ih h)

include hvalue

/-- A check in which every value and every state counts tells apart two lists that differ in one
place. -/
theorem eq_of_foldl_eq {xs ys : List α} {b : β} {j : ℕ} (hlen : xs.length = ys.length)
    (hagree : ∀ i, i ≠ j → xs[i]? = ys[i]?) (h : xs.foldl op b = ys.foldl op b) : xs = ys := by
  induction xs generalizing ys b j with
  | nil => exact (List.length_eq_zero_iff.mp hlen.symm).symm
  | cons x xs ih =>
    cases ys with
    | nil => cases hlen
    | cons y ys =>
      rw [List.foldl_cons, List.foldl_cons] at h
      cases j with
      | zero =>
        have htail : xs = ys := List.ext_getElem? fun i => hagree (i + 1) (Nat.succ_ne_zero i)
        rw [htail] at h ⊢
        rw [hvalue b (foldl_injective hstate ys h)]
      | succ j =>
        have hhead : x = y := Option.some.inj (hagree 0 (Nat.succ_ne_zero j).symm)
        rw [hhead] at h ⊢
        have htail : ∀ i, i ≠ j → xs[i]? = ys[i]? :=
          fun i hi => hagree (i + 1) (fun he => hi (Nat.succ.inj he))
        rw [ih (Nat.succ.inj hlen) htail h]

end

end RpiCc2520.HexText
