import Mathlib

/-! Decimal text of numbers by the codes of its characters, and its reading up to the first
character that is no digit. -/
namespace RpiCc2520.DecimalText

def isDigit (c : UInt8) : Bool := 0x30 ≤ c && c ≤ 0x39

def digit (d : ℕ) : UInt8 := .ofNat (48 + d)

def decimal (n : ℕ) : List UInt8 :=
  if n = 0 then [digit 0] else ((Nat.digits 10 n).map digit).reverse

def leading (s : List UInt8) : ℕ :=
  (s.takeWhile isDigit).foldl (fun n c => 10 * n + (c.toNat - 48)) 0

theorem isDigit_digit {d : ℕ} (h : d < 10) : isDigit (digit d) = true := by
  interval_cases d <;> rfl

theorem toNat_digit {d : ℕ} (h : d < 10) : (digit d).toNat - 48 = d := by
  interval_cases d <;> rfl

theorem isDigit_of_mem_decimal {n : ℕ} {c : UInt8} (h : c ∈ decimal n) : isDigit c = true := by
  rw [decimal] at h
  split_ifs at h with hzero
  · rw [List.mem_singleton.mp h]
    rfl
  · obtain ⟨d, hd, rfl⟩ := List.mem_map.mp (List.mem_reverse.mp h)
    exact isDigit_digit (Nat.digits_lt_base (by decide) hd)

theorem decimal_ne_nil (n : ℕ) : decimal n ≠ [] := by
  rw [decimal]
  split_ifs with hzero
  · exact List.cons_ne_nil _ _
  · simpa [Nat.digits_eq_nil_iff_eq_zero] using hzero

theorem length_decimal_le {n k : ℕ} (hk : 0 < k) (h : n < 10 ^ k) : (decimal n).length ≤ k := by
  rw [decimal]
  split_ifs
  · exact hk
  · rw [List.length_reverse, List.length_map, Nat.digits_length_le_iff (by decide)]
    exact h

/-- Reading digits of any base undoes writing them. -/
theorem foldl_reverse_digits (b n : ℕ) : (Nat.digits b n).reverse.foldl (b * · + ·) 0 = n := by
  rw [List.foldl_reverse]
  conv_rhs => rw [← Nat.ofDigits_digits b n, Nat.ofDigits_eq_foldr]
  congr 1
  funext d value
  exact Nat.add_comm _ _

/-- A number is read back, whatever text without a digit at its start follows. -/
theorem leading_decimal (n : ℕ) (rest : List UInt8) (h : ∀ c ∈ rest.head?, isDigit c = false) :
    leading (decimal n ++ rest) = n := by
  have hall : ∀ c ∈ decimal n, isDigit c = true := fun c => isDigit_of_mem_decimal
  have hstop : rest.takeWhile isDigit = [] := by
    cases rest with
    | nil => rfl
    | cons c rest => exact List.takeWhile_cons_of_neg (by simp [h c rfl])
  rw [leading, List.takeWhile_append_of_pos hall, hstop, List.append_nil, decimal]
  split_ifs with hzero
  · rw [hzero]
    rfl
  · have hdigit : ∀ m, ∀ d ∈ (Nat.digits 10 n).reverse,
        10 * m + ((digit d).toNat - 48) = 10 * m + d := by
      intro m d hd
      rw [toNat_digit (Nat.digits_lt_base (by decide) (List.mem_reverse.mp hd))]
    rw [← List.map_reverse, List.foldl_map, List.foldl_ext _ _ _ hdigit]
    exact foldl_reverse_digits 10 n

end RpiCc2520.DecimalText
