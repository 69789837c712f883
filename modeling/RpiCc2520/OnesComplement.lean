import Mathlib

/-! The checksum of the internet protocols: 16-bit words are added with the carry brought round to
the low end, and the complement of the sum is sent. -/
namespace RpiCc2520.OnesComplement

/-- Addition with end-around carry. -/
def onesAdd (a b : ℕ) : ℕ := if a + b < 65536 then a + b else a + b - 65535

/-- The words of some bytes, most significant byte first, the last one filled up with a zero. -/
def words : List UInt8 → List ℕ
  | [] => []
  | [a] => [256 * a.toNat]
  | a :: b :: bs => (256 * a.toNat + b.toNat) :: words bs

def onesSum (bs : List UInt8) : ℕ := (words bs).foldl onesAdd 0

def checksum (bs : List UInt8) : UInt16 := .ofNat (65535 - onesSum bs)

/-- Bytes that hold their checksum add up to all ones. -/
def Verifies (bs : List UInt8) : Prop := onesSum bs = 65535

instance (bs : List UInt8) : Decidable (Verifies bs) := inferInstanceAs (Decidable (_ = _))

def total (bs : List UInt8) : ℕ := (words bs).sum

theorem word_le (bs : List UInt8) : ∀ w ∈ words bs, w ≤ 65535 := by
  fun_induction words bs with
  | case1 => exact List.forall_mem_nil _
  | case2 a =>
    have ha := a.toNat_lt
    exact List.forall_mem_singleton.mpr (by omega)
  | case3 a b bs ih =>
    have ha := a.toNat_lt
    have hb := b.toNat_lt
    exact List.forall_mem_cons.mpr ⟨by omega, ih⟩

/-- Bringing the carry round keeps the sum modulo 65535, and a sum that is not zero from becoming
zero. -/
theorem foldl_onesAdd {ws : List ℕ} (h : ∀ w ∈ ws, w ≤ 65535) {a : ℕ} (ha : a ≤ 65535) :
    let r := ws.foldl onesAdd a
    r ≤ 65535 ∧ r ≡ a + ws.sum [MOD 65535] ∧ (r = 0 ↔ a + ws.sum = 0) := by
  induction ws generalizing a with
  | nil => exact ⟨ha, rfl, Iff.rfl⟩
  | cons w ws ih =>
    obtain ⟨hw, hws⟩ := List.forall_mem_cons.mp h
    have hadd : onesAdd a w ≤ 65535 ∧ onesAdd a w ≡ a + w [MOD 65535] ∧
        (onesAdd a w = 0 ↔ a + w = 0) := by
      unfold onesAdd Nat.ModEq
      split_ifs <;> omega
    obtain ⟨hle, hmod, hzero⟩ := ih hws hadd.1
    rw [List.foldl_cons, List.sum_cons, ← Nat.add_assoc]
    refine ⟨hle, hmod.trans (hadd.2.1.add_right _), ?_⟩
    rw [hzero]
    omega

theorem verifies_iff (bs : List UInt8) : Verifies bs ↔ total bs ≠ 0 ∧ 65535 ∣ total bs := by
  obtain ⟨hle, hmod, hzero⟩ := foldl_onesAdd (word_le bs) (Nat.zero_le 65535)
  unfold Verifies onesSum total
  rw [Nat.zero_add] at hmod hzero
  unfold Nat.ModEq at hmod
  omega

/-- The checksum of bytes that are not all zero is the complement of their sum, and not all ones. -/
theorem checksum_mod {bs : List UInt8} (h : total bs ≠ 0) :
    (checksum bs).toNat < 65535 ∧ 65535 ∣ (checksum bs).toNat + total bs := by
  obtain ⟨hle, hmod, hzero⟩ := foldl_onesAdd (word_le bs) (Nat.zero_le 65535)
  have hnat : (checksum bs).toNat = 65535 - onesSum bs :=
    UInt16.toNat_ofNat_of_lt' (by unfold UInt16.size; omega)
  rw [hnat]
  unfold total at h ⊢
  unfold onesSum
  rw [Nat.zero_add] at hmod hzero
  unfold Nat.ModEq at hmod
  omega

theorem total_append {xs : List UInt8} (h : xs.length % 2 = 0) (ys : List UInt8) :
    total (xs ++ ys) = total xs + total ys := by
  unfold total
  fun_induction words xs with
  | case1 => simp
  | case2 a => simp at h
  | case3 a b xs ih =>
    rw [List.length_cons, List.length_cons] at h
    have hih := ih (by omega)
    rw [List.cons_append, List.cons_append, words, List.sum_cons, List.sum_cons, hih]
    omega

theorem total_cons_cons (a b : UInt8) (bs : List UInt8) :
    total (a :: b :: bs) = 256 * a.toNat + b.toNat + total bs := List.sum_cons

/-- The word that makes some bytes add up is unique but for the two forms of zero. -/
theorem word_unique {before after : List UInt8} {a b a' b' : UInt8} (heven : before.length % 2 = 0)
    (h : Verifies (before ++ a :: b :: after)) (h' : Verifies (before ++ a' :: b' :: after))
    (hne : ¬(a = 0 ∧ b = 0)) (hne' : ¬(a' = 0 ∧ b' = 0)) : a = a' ∧ b = b' := by
  obtain ⟨m, hm⟩ := ((verifies_iff _).mp h).2
  obtain ⟨m', hm'⟩ := ((verifies_iff _).mp h').2
  rw [total_append heven, total_cons_cons] at hm hm'
  simp only [← UInt8.toNat_inj] at hne hne' ⊢
  have ha := a.toNat_lt
  have hb := b.toNat_lt
  have ha' := a'.toNat_lt
  have hb' := b'.toNat_lt
  change ¬(a.toNat = 0 ∧ b.toNat = 0) at hne
  change ¬(a'.toNat = 0 ∧ b'.toNat = 0) at hne'
  -- both words are from 1 to 65535
  have hsame : m = m' := by omega
  subst hsame
  omega

/-- What a position counts: in a word the first byte counts 256 times. -/
def weightAt {ι : Type*} [DecidableEq ι] : List ι → ι → ℕ
  | [], _ => 0
  | [p], a => if p = a then 256 else 0
  | p :: q :: ps, a => (if p = a then 256 else 0) + (if q = a then 1 else 0) + weightAt ps a

theorem weightAt_of_not_mem {ι : Type*} [DecidableEq ι] {a : ι} :
    ∀ {ps : List ι}, a ∉ ps → weightAt ps a = 0
  | [], _ => rfl
  | [p], h => if_neg fun hp => h (List.mem_singleton.mpr hp.symm)
  | p :: q :: ps, h => by
    rw [List.mem_cons, List.mem_cons, not_or, not_or] at h
    rw [weightAt, if_neg (Ne.symm h.1), if_neg (Ne.symm h.2.1), weightAt_of_not_mem h.2.2]

theorem weightAt_of_nodup {ι : Type*} [DecidableEq ι] {a : ι} : ∀ {ps : List ι} {k : ℕ},
    ps.Nodup → ps[k]? = some a → weightAt ps a = if k % 2 = 0 then 256 else 1
  | [], k, _, h => by simp at h
  | [p], k, _, h => by
    obtain ⟨hk, hp⟩ := List.getElem?_eq_some_iff.mp h
    obtain rfl : k = 0 := Nat.lt_one_iff.mp hk
    exact if_pos hp
  | p :: q :: ps, k, hnodup, h => by
    obtain ⟨hp, hnodup⟩ := List.nodup_cons.mp hnodup
    obtain ⟨hq, hps⟩ := List.nodup_cons.mp hnodup
    rw [List.mem_cons, not_or] at hp
    rw [weightAt]
    match k with
    | 0 =>
      obtain rfl : p = a := Option.some.inj h
      rw [if_pos rfl, if_neg (Ne.symm hp.1), weightAt_of_not_mem hp.2]
      rfl
    | 1 =>
      obtain rfl : q = a := Option.some.inj h
      rw [if_neg hp.1, if_pos rfl, weightAt_of_not_mem hq]
      rfl
    | k + 2 =>
      have hmem : a ∈ ps := List.mem_of_getElem? h
      have hpa : p ≠ a := fun he => hp.2 (he ▸ hmem)
      have hqa : q ≠ a := fun he => hq (he ▸ hmem)
      have ih := weightAt_of_nodup hps h
      rw [if_neg hpa, if_neg hqa, Nat.zero_add, ih, Nat.add_mod_right]

theorem weight_update {ι : Type*} [DecidableEq ι] (mem : ι → UInt8) (a p : ι) (b : UInt8) (w : ℕ) :
    w * (Function.update mem a b p).toNat + (if p = a then w else 0) * (mem a).toNat =
      w * (mem p).toNat + (if p = a then w else 0) * b.toNat := by
  by_cases hp : p = a
  · rw [hp, Function.update_self, if_pos rfl, Nat.add_comm]
  · rw [Function.update_of_ne hp, if_neg hp, Nat.zero_mul, Nat.zero_mul]

/-- A change at one place changes the sum by what the place counts. -/
theorem total_update {ι : Type*} [DecidableEq ι] (mem : ι → UInt8) (a : ι) (b : UInt8) :
    ∀ ps : List ι,
      total (ps.map (Function.update mem a b)) + weightAt ps a * (mem a).toNat =
        total (ps.map mem) + weightAt ps a * b.toNat
  | [] => by simp [weightAt, total, words]
  | [p] => by simpa [weightAt, total, words] using weight_update mem a p b 256
  | p :: q :: ps => by
    have hp := weight_update mem a p b 256
    have hq := weight_update mem a q b 1
    have ih := total_update mem a b ps
    unfold total at ih ⊢
    simp only [List.map_cons, words, List.sum_cons, weightAt, Nat.add_mul]
    omega

end RpiCc2520.OnesComplement
