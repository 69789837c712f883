import Mathlib

/-! Items of a sequence that are repeated in place: what is left when an item equal to the one
before it is dropped. -/
namespace RpiCc2520.RepeatedItems
variable {α : Type*}

/-- The items of a list at positions taken in order. -/
def itemsAt (xs : List α) (d : α) (is : List ℕ) : List α := is.map fun i => xs.getD i d

theorem itemsAt_range (xs : List α) (d : α) : itemsAt xs d (List.range' 0 xs.length) = xs := by
  refine List.ext_getElem (by simp [itemsAt]) ?_
  intro i hi hx
  simp [itemsAt, hx]

theorem itemsAt_append {xs : List α} (d : α) {is : List ℕ} (h : ∀ i ∈ is, i < xs.length)
    (ys : List α) : itemsAt (xs ++ ys) d is = itemsAt xs d is :=
  List.map_congr_left fun i hi => List.getD_append xs ys d i (h i hi)

theorem itemsAt_concat (xs : List α) (d : α) (is : List ℕ) (i : ℕ) :
    itemsAt xs d (is ++ [i]) = itemsAt xs d is ++ [xs.getD i d] := by
  rw [itemsAt, List.map_append, List.map_singleton]
  rfl

theorem getD_last {xs : List α} {x : α} (d : α) (h : x ∈ xs.getLast?) :
    xs.getD (xs.length - 1) d = x := by
  obtain ⟨ys, rfl⟩ := List.getLast?_eq_some_iff.mp h
  simp

theorem cons_range' {i n : ℕ} (h : i < n) :
    List.range' i (n - i) = i :: List.range' (i + 1) (n - (i + 1)) := by
  obtain ⟨k, rfl⟩ := Nat.exists_eq_add_of_lt h
  have hlen : i + k + 1 - i = k + 1 := by omega
  have hrest : i + k + 1 - (i + 1) = k := by omega
  rw [hlen, hrest, List.range'_succ]

theorem range'_sublist {i j n : ℕ} (h : i ≤ j) :
    (List.range' j (n - j)).Sublist (List.range' i (n - i)) := by
  rcases Nat.lt_or_ge n j with hj | hj
  · rw [Nat.sub_eq_zero_of_le hj.le]
    exact List.nil_sublist _
  · have hsplit : List.range' i (n - i) = List.range' i (j - i) ++ List.range' j (n - j) := by
      have happend := @List.range'_append_1 i (j - i) (n - j)
      have hstart : i + (j - i) = j := by omega
      have hlen : j - i + (n - j) = n - i := by omega
      rw [hstart, hlen] at happend
      exact happend.symm
    rw [hsplit]
    exact List.sublist_append_right _ _

variable [DecidableEq α]

/-- Items taken in order, each any number of times: without the repeats each is seen at most
once. -/
theorem destutter'_sublist_range (f : ℕ → α) {n i : ℕ} (hi : i < n) {is : List ℕ}
    (sorted : (i :: is).Pairwise (· ≤ ·)) (hlt : ∀ j ∈ is, j < n) :
    ((is.map f).destutter' (· ≠ ·) (f i)).Sublist ((List.range' i (n - i)).map f) := by
  induction is generalizing i with
  | nil =>
    rw [cons_range' hi]
    exact (List.nil_sublist _).cons_cons _
  | cons j is ih =>
    obtain ⟨hall, htail⟩ := List.pairwise_cons.mp sorted
    obtain ⟨hj, hrest⟩ := List.forall_mem_cons.mp hlt
    have hij : i ≤ j := hall j List.mem_cons_self
    rw [List.map_cons]
    by_cases hne : f i ≠ f j
    · have hlt : i < j := by
        rcases Nat.eq_or_lt_of_le hij with rfl | hlt
        · exact absurd rfl hne
        · exact hlt
      rw [List.destutter'_cons_pos _ hne, cons_range' hi, List.map_cons]
      exact ((ih hj htail hrest).trans ((range'_sublist hlt).map f)).cons_cons _
    · rw [List.destutter'_cons_neg _ hne]
      refine ih hi (List.pairwise_cons.mpr ⟨?_, (List.pairwise_cons.mp htail).2⟩) hrest
      exact fun k hk => hall k (List.mem_cons_of_mem j hk)

/-- If every item is among them and neighbours differ, each is seen exactly once. -/
theorem destutter'_eq_range (f : ℕ → α) {n i : ℕ} (hi : i < n)
    (hne : ∀ j, i ≤ j → j + 1 < n → f j ≠ f (j + 1)) {is : List ℕ}
    (sorted : (i :: is).Pairwise (· ≤ ·)) (hlt : ∀ j ∈ is, j < n)
    (all : ∀ j, i < j → j < n → j ∈ is) :
    (is.map f).destutter' (· ≠ ·) (f i) = (List.range' i (n - i)).map f := by
  induction is generalizing i with
  | nil =>
    have hn : n = i + 1 := by
      by_contra hn
      exact absurd (all (i + 1) (Nat.lt_succ_self i) (by omega)) List.not_mem_nil
    subst hn
    rw [Nat.add_sub_cancel_left]
    rfl
  | cons j is ih =>
    obtain ⟨hall, htail⟩ := List.pairwise_cons.mp sorted
    obtain ⟨hj, hrest⟩ := List.forall_mem_cons.mp hlt
    have hij : i ≤ j := hall j List.mem_cons_self
    rw [List.map_cons]
    rcases Nat.eq_or_lt_of_le hij with rfl | hlt
    · rw [List.destutter'_cons_neg _ (not_not_intro rfl)]
      refine ih hi hne htail hrest fun k hk hkn => ?_
      exact (List.mem_cons.mp (all k hk hkn)).resolve_left hk.ne'
    · have hnext : j = i + 1 := by
        rcases List.mem_cons.mp (all (i + 1) (Nat.lt_succ_self i) (by omega)) with h | h
        · exact h.symm
        · have hle := (List.pairwise_cons.mp htail).1 (i + 1) h
          omega
      subst hnext
      rw [List.destutter'_cons_pos _ (hne i le_rfl hj), cons_range' hi, List.map_cons]
      congr 1
      refine ih hj (fun k hk => hne k (Nat.le_of_succ_le hk)) htail hrest fun k hk hkn => ?_
      exact (List.mem_cons.mp (all k (Nat.lt_of_succ_lt hk) hkn)).resolve_left hk.ne'

variable {xs : List α} {is : List ℕ}

theorem destutter_itemsAt_sublist (d : α) (sorted : is.Pairwise (· ≤ ·))
    (hlt : ∀ i ∈ is, i < xs.length) : ((itemsAt xs d is).destutter (· ≠ ·)).Sublist xs := by
  cases is with
  | nil => exact List.nil_sublist _
  | cons i is =>
    obtain ⟨hi, hrest⟩ := List.forall_mem_cons.mp hlt
    have hsub := destutter'_sublist_range (xs.getD · d) hi sorted hrest
    have hall := (@range'_sublist 0 i xs.length (Nat.zero_le i)).map (xs.getD · d)
    have heq := itemsAt_range xs d
    rw [itemsAt] at heq
    rw [Nat.sub_zero, heq] at hall
    exact hsub.trans hall

theorem destutter_itemsAt_eq (d : α) (sorted : is.Pairwise (· ≤ ·))
    (hlt : ∀ i ∈ is, i < xs.length) (all : ∀ i < xs.length, i ∈ is)
    (hne : xs.IsChain (· ≠ ·)) : (itemsAt xs d is).destutter (· ≠ ·) = xs := by
  cases is with
  | nil =>
    have hlen : xs.length = 0 := by
      by_contra hlen
      exact absurd (all 0 (Nat.pos_of_ne_zero hlen)) List.not_mem_nil
    rw [List.eq_nil_of_length_eq_zero hlen]
    rfl
  | cons i is =>
    obtain ⟨hi, hrest⟩ := List.forall_mem_cons.mp hlt
    obtain rfl : i = 0 := by
      rcases List.mem_cons.mp (all 0 (by omega)) with h | h
      · exact h.symm
      · exact Nat.le_zero.mp ((List.pairwise_cons.mp sorted).1 0 h)
    have heq := destutter'_eq_range (xs.getD · d) hi ?_ sorted hrest fun j hj hjn =>
      (List.mem_cons.mp (all j hjn)).resolve_left hj.ne'
    · have hrange := itemsAt_range xs d
      rw [itemsAt] at hrange
      rw [Nat.sub_zero, hrange] at heq
      exact heq
    · intro j _ hj
      have hget := List.isChain_iff_getElem.mp hne j hj
      rw [List.getD_eq_getElem _ _ (Nat.lt_of_succ_lt hj), List.getD_eq_getElem _ _ hj]
      exact hget

end RpiCc2520.RepeatedItems
