import Mathlib

/-! Pipes as lists, flat buffers as functions, and little-endian words. -/
namespace RpiCc2520.BytePipe
variable {α : Type*}

/-- `read` of at most `n` items. Nothing is read when `n` is zero; an empty pipe blocks. -/
def read (n : ℕ) (pipe : List α) : Option (List α × List α) :=
  if n = 0 then some ([], pipe)
  else if pipe.isEmpty then none
  else some (pipe.take n, pipe.drop n)

theorem read_zero (pipe : List α) : read 0 pipe = some ([], pipe) := rfl

theorem read_nil {n : ℕ} (h : n ≠ 0) : read n ([] : List α) = none := by
  simp [read, h]

theorem read_append {xs ys : List α} {n : ℕ} (hn : xs.length = n) (hx : xs ≠ []) :
    read n (xs ++ ys) = some (xs, ys) := by
  subst hn
  simp [read, hx]

theorem read_of_ne_nil (n : ℕ) {pipe : List α} (h : pipe ≠ []) :
    ∃ xs ys, read n pipe = some (xs, ys) := by
  by_cases hn : n = 0
  · exact ⟨[], pipe, by rw [hn, read_zero]⟩
  · exact ⟨pipe.take n, pipe.drop n, by simp [read, hn, h]⟩

theorem read_eq_some {n : ℕ} {pipe xs ys : List α} (h : read n pipe = some (xs, ys)) :
    pipe = xs ++ ys ∧ xs.length ≤ n := by
  unfold read at h
  split_ifs at h with h0 he
  · cases h; simp
  · cases h
    exact ⟨(List.take_append_drop n pipe).symm, List.length_take_le n pipe⟩

/-- Cutting the first part of a stream into chunks gives back the messages it was made of just
when the chunks are as long as the messages. -/
theorem isPrefix_iff_of_flatten {chunks msgs : List (List α)}
    (h : chunks.flatten <+: msgs.flatten) :
    chunks <+: msgs ↔ chunks.map List.length <+: msgs.map List.length := by
  refine ⟨fun hp => hp.map List.length, fun hp => ?_⟩
  have hlen : chunks.length ≤ msgs.length := by
    simpa using hp.length_le
  have hsize : chunks.map List.length = (msgs.take chunks.length).map List.length := by
    rw [List.map_take]
    simpa using List.prefix_iff_eq_take.mp hp
  have hflat : chunks.flatten = (msgs.take chunks.length).flatten := by
    have htake : (msgs.take chunks.length).flatten <+: msgs.flatten :=
      (List.take_prefix _ _).flatten
    refine (List.prefix_of_prefix_length_le h htake ?_).eq_of_length ?_ <;>
      simp only [List.length_flatten, hsize, le_refl]
  rw [List.eq_iff_flatten_eq.mpr ⟨hflat, hsize⟩]
  exact List.take_prefix _ _

def load (buf : ℕ → α) (off n : ℕ) : List α := (List.range n).map fun i => buf (off + i)

def store (buf : ℕ → α) (off : ℕ) (xs : List α) : ℕ → α :=
  fun i => if off ≤ i then xs.getD (i - off) (buf i) else buf i

@[simp] theorem load_length (buf : ℕ → α) (off n : ℕ) : (load buf off n).length = n := by
  simp [load]

theorem load_succ (buf : ℕ → α) (off n : ℕ) :
    load buf off (n + 1) = buf off :: load buf (off + 1) n := by
  simp [load, List.range_succ_eq_map, Function.comp_def, Nat.add_assoc, Nat.add_comm 1]

theorem load_add (buf : ℕ → α) (off m n : ℕ) :
    load buf off (m + n) = load buf off m ++ load buf (off + m) n := by
  simp [load, List.range_add, Function.comp_def, Nat.add_assoc]

theorem load_getD (buf : ℕ → α) (off : ℕ) {n i : ℕ} (d : α) (h : i < n) :
    (load buf off n).getD i d = buf (off + i) := by
  simp [load, List.getD, h]

theorem load_take (buf : ℕ → α) (off : ℕ) {k n : ℕ} (h : k ≤ n) :
    (load buf off n).take k = load buf off k := by
  obtain ⟨m, rfl⟩ := Nat.exists_eq_add_of_le h
  rw [load_add, List.take_left' (load_length buf off k)]

theorem store_lt {off i : ℕ} (buf : ℕ → α) (xs : List α) (h : i < off) :
    store buf off xs i = buf i := if_neg (by omega)

theorem store_of_length_le {off i : ℕ} (buf : ℕ → α) (xs : List α) (h : off + xs.length ≤ i) :
    store buf off xs i = buf i := by
  have hnone : xs[i - off]? = none := List.getElem?_eq_none (by omega)
  rw [store, List.getD_eq_getElem?_getD, hnone]
  split <;> rfl

theorem store_getElem (buf : ℕ → α) {xs : List α} {i : ℕ} (h : i < xs.length) :
    store buf 0 xs i = xs[i] := by
  simp [store, h]

theorem store_append (buf : ℕ → α) (off : ℕ) (xs ys : List α) :
    store buf off (xs ++ ys) = store (store buf off xs) (off + xs.length) ys := by
  funext i
  rcases Nat.lt_or_ge i (off + xs.length) with hlt | hge
  · rw [store_lt _ ys hlt]
    by_cases hoff : off ≤ i
    · rw [store, store, if_pos hoff, if_pos hoff, List.getD_append _ _ _ _ (by omega)]
    · rw [store_lt _ _ (not_le.mp hoff), store_lt _ _ (not_le.mp hoff)]
  · have hsub : i - off - xs.length = i - (off + xs.length) := (Nat.sub_add_eq ..).symm
    rw [store, store, if_pos (by omega), if_pos hge, List.getD_append_right _ _ _ _ (by omega),
      hsub, store_of_length_le _ _ hge]

theorem load_congr {buf buf' : ℕ → α} {off n : ℕ}
    (h : ∀ i, off ≤ i → i < off + n → buf i = buf' i) : load buf off n = load buf' off n := by
  refine List.map_congr_left ?_
  intro i hi
  have hlt := List.mem_range.mp hi
  exact h _ (Nat.le_add_right _ _) (by omega)

theorem load_store_of_disjoint (buf : ℕ → α) {off off' n : ℕ} (xs : List α)
    (h : off' + n ≤ off ∨ off + xs.length ≤ off') :
    load (store buf off xs) off' n = load buf off' n := by
  refine load_congr ?_
  intro i hle hlt
  rcases h with h | h
  · exact store_lt buf xs (by omega)
  · exact store_of_length_le buf xs (by omega)

theorem load_store (buf : ℕ → α) (off : ℕ) (xs : List α) :
    load (store buf off xs) off xs.length = xs := by
  apply List.ext_getElem (by simp)
  intro i hi hx
  simp [load, store, hx]

theorem load_store_succ (buf : ℕ → α) (off : ℕ) (xs : List α) :
    load (store buf (off + 1) xs) off (xs.length + 1) = buf off :: xs := by
  rw [load_succ, load_store, store_lt _ _ (Nat.lt_succ_self off)]

/-- The `width` low bytes of a number, least significant first. -/
def littleEndian : ℕ → ℕ → List UInt8
  | 0, _ => []
  | width + 1, n => UInt8.ofNat (n % 256) :: littleEndian width (n / 256)

def ofLittleEndian : List UInt8 → ℕ
  | [] => 0
  | b :: bs => b.toNat + 256 * ofLittleEndian bs

@[simp] theorem littleEndian_length (width n : ℕ) : (littleEndian width n).length = width := by
  induction width generalizing n with
  | zero => rfl
  | succ width ih => simp [littleEndian, ih]

theorem ofLittleEndian_littleEndian (width n : ℕ) :
    ofLittleEndian (littleEndian width n) = n % 256 ^ width := by
  induction width generalizing n with
  | zero => simp [littleEndian, ofLittleEndian, Nat.mod_one]
  | succ width ih =>
    have hb : (UInt8.ofNat (n % 256)).toNat = n % 256 := by
      rw [UInt8.toNat_ofNat']
      exact Nat.mod_mod n 256
    rw [littleEndian, ofLittleEndian, ih, hb, pow_succ', Nat.mod_mul]

theorem word32_roundtrip (w : UInt32) :
    UInt32.ofNat (ofLittleEndian (littleEndian 4 w.toNat)) = w := by
  have hw : w.toNat < 256 ^ 4 := w.toNat_lt
  rw [ofLittleEndian_littleEndian, Nat.mod_eq_of_lt hw, UInt32.ofNat_toNat]

end RpiCc2520.BytePipe
