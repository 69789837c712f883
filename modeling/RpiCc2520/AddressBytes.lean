import RpiCc2520.BytePipe

/-! Addresses as byte strings in network order: 64-bit words, masks and networks. -/
namespace RpiCc2520.AddressBytes
open BytePipe

def putUint64 (n : UInt64) : List UInt8 := (littleEndian 8 n.toNat).reverse

def uint64 (bs : List UInt8) : UInt64 := UInt64.ofNat (ofLittleEndian (bs.take 8).reverse)

/-- `length` bytes whose first `ones` bits are set. -/
def maskBytes : ℕ → ℕ → List UInt8
  | 0, _ => []
  | length + 1, ones =>
      if 8 ≤ ones then 0xFF :: maskBytes length (ones - 8)
      else ~~~((0xFF : UInt8) >>> UInt8.ofNat ones) :: maskBytes length 0

def cidrMask (ones bits : ℕ) : List UInt8 := maskBytes (bits / 8) ones

def maskIP (ip mask : List UInt8) : List UInt8 := List.zipWith (· &&& ·) ip mask

structure IPNet where
  ip : List UInt8
  mask : List UInt8

def IPNet.contains (n : IPNet) (ip : List UInt8) : Bool :=
  maskIP n.ip n.mask == maskIP ip n.mask

def network (ip : List UInt8) (ones : ℕ) : IPNet :=
  ⟨maskIP ip (cidrMask ones 128), cidrMask ones 128⟩

@[simp] theorem putUint64_length (n : UInt64) : (putUint64 n).length = 8 := by
  simp [putUint64]

theorem uint64_putUint64 (n : UInt64) (rest : List UInt8) :
    uint64 (putUint64 n ++ rest) = n := by
  have hn : n.toNat < 256 ^ 8 := n.toNat_lt
  rw [uint64, List.take_left' (putUint64_length n), putUint64, List.reverse_reverse,
    ofLittleEndian_littleEndian, Nat.mod_eq_of_lt hn, UInt64.ofNat_toNat]

theorem putUint64_injective {m n : UInt64} (h : putUint64 m = putUint64 n) : m = n := by
  have hm := uint64_putUint64 m []
  rw [h, uint64_putUint64] at hm
  exact hm.symm

@[simp] theorem maskBytes_length (length ones : ℕ) : (maskBytes length ones).length = length := by
  induction length generalizing ones with
  | zero => rfl
  | succ length ih =>
    rw [maskBytes]
    split <;> simp [ih]

theorem maskBytes_zero (length : ℕ) : maskBytes length 0 = List.replicate length 0 := by
  induction length with
  | zero => rfl
  | succ length ih =>
    rw [maskBytes, if_neg (by decide), ih, List.replicate_succ]
    rfl

theorem maskBytes_add {k ones : ℕ} (m : ℕ) (h : ones ≤ 8 * k) :
    maskBytes (k + m) ones = maskBytes k ones ++ List.replicate m 0 := by
  induction k generalizing ones with
  | zero =>
    obtain rfl : ones = 0 := by omega
    simpa [maskBytes] using maskBytes_zero m
  | succ k ih =>
    rw [Nat.add_right_comm, maskBytes, maskBytes]
    split
    · rw [ih (by omega), List.cons_append]
    · rw [ih (by omega), List.cons_append]

theorem maskIP_replicate_zero (ip : List UInt8) :
    maskIP ip (List.replicate ip.length 0) = List.replicate ip.length 0 := by
  induction ip with
  | nil => rfl
  | cons b ip ih =>
    rw [List.length_cons, List.replicate_succ, maskIP, List.zipWith_cons_cons, UInt8.and_zero]
    exact congrArg _ ih

theorem maskIP_maskBytes {ip : List UInt8} {k m ones : ℕ} (hip : ip.length = k + m)
    (h : ones ≤ 8 * k) :
    maskIP ip (maskBytes (k + m) ones) =
      maskIP (ip.take k) (maskBytes k ones) ++ List.replicate m 0 := by
  have htake : (ip.take k).length = (maskBytes k ones).length := by simp [hip]
  have hdrop : (ip.drop k).length = m := by simp [hip]
  rw [maskBytes_add m h]
  conv_lhs => rw [← List.take_append_drop k ip]
  rw [maskIP, List.zipWith_append htake]
  congr 1
  have := maskIP_replicate_zero (ip.drop k)
  rwa [hdrop] at this

/-- A network with a prefix of at most 64 bits holds the whole /64 of each of its addresses. -/
theorem network_contains_congr {ip a b : List UInt8} {ones : ℕ} (h : ones ≤ 64)
    (ha : a.length = 16) (hb : b.length = 16) (hab : a.take 8 = b.take 8) :
    (network ip ones).contains a = (network ip ones).contains b := by
  have hmask {c : List UInt8} (hc : c.length = 8 + 8) : maskIP c (cidrMask ones 128) =
      maskIP (c.take 8) (maskBytes 8 ones) ++ List.replicate 8 0 := maskIP_maskBytes hc h
  rw [IPNet.contains, IPNet.contains, network, hmask ha, hmask hb, hab]

/-- Addresses of one network agree in their first bit. -/
theorem network_contains_head {ip a b : List UInt8} {x y : UInt8} {ones : ℕ} (h : 1 ≤ ones)
    (ha : (network ip ones).contains (x :: a) = true)
    (hb : (network ip ones).contains (y :: b) = true) : x &&& 0x80 = y &&& 0x80 := by
  obtain ⟨m, mask, hm, hbit⟩ : ∃ m mask, cidrMask ones 128 = m :: mask ∧ m &&& 0x80 = 0x80 := by
    by_cases h8 : 8 ≤ ones
    · exact ⟨0xFF, maskBytes 15 (ones - 8), by simp [cidrMask, maskBytes, h8], rfl⟩
    · refine ⟨~~~((0xFF : UInt8) >>> UInt8.ofNat ones), maskBytes 15 0, ?_, ?_⟩
      · simp [cidrMask, maskBytes, h8]
      · interval_cases ones <;> rfl
  have hxy : x &&& m = y &&& m := by
    have he : maskIP (x :: a) (m :: mask) = maskIP (y :: b) (m :: mask) := by
      rw [IPNet.contains, network, hm, beq_iff_eq] at ha hb
      exact ha.symm.trans hb
    exact (List.cons.inj he).1
  rw [← hbit, ← UInt8.and_assoc, ← UInt8.and_assoc, hxy]

theorem ofLittleEndian_append (xs : List UInt8) (b : UInt8) :
    ofLittleEndian (xs ++ [b]) = ofLittleEndian xs + 256 ^ xs.length * b.toNat := by
  induction xs with
  | nil => simp [ofLittleEndian]
  | cons x xs ih =>
    rw [List.cons_append, ofLittleEndian, ofLittleEndian, ih, List.length_cons, pow_succ']
    ring

theorem ofLittleEndian_lt (bs : List UInt8) : ofLittleEndian bs < 256 ^ bs.length := by
  induction bs with
  | nil => simp [ofLittleEndian]
  | cons b bs ih =>
    have hb := b.toNat_lt
    rw [ofLittleEndian, List.length_cons, pow_succ']
    omega

def ofBigEndian (bs : List UInt8) : ℕ := ofLittleEndian bs.reverse

theorem ofBigEndian_cons (b : UInt8) (bs : List UInt8) :
    ofBigEndian (b :: bs) = ofBigEndian bs + 256 ^ bs.length * b.toNat := by
  rw [ofBigEndian, List.reverse_cons, ofLittleEndian_append, List.length_reverse, ofBigEndian]

theorem ofBigEndian_lt (bs : List UInt8) : ofBigEndian bs < 256 ^ bs.length := by
  have h := ofLittleEndian_lt bs.reverse
  rwa [List.length_reverse] at h

theorem toNat_and_mask {ones : ℕ} (h : ones < 8) (b : UInt8) :
    (b &&& ~~~((0xFF : UInt8) >>> UInt8.ofNat ones)).toNat =
      b.toNat / 2 ^ (8 - ones) * 2 ^ (8 - ones) := by
  have hall : ∀ ones < 8, ∀ n < 256,
      (UInt8.ofNat n &&& ~~~((0xFF : UInt8) >>> UInt8.ofNat ones)).toNat =
        n / 2 ^ (8 - ones) * 2 ^ (8 - ones) := by decide +kernel
  have hb := hall ones h b.toNat b.toNat_lt
  rwa [UInt8.ofNat_toNat] at hb

theorem and_mask_eq_iff {ones : ℕ} (h : ones < 8) (a b : UInt8) :
    a &&& ~~~((0xFF : UInt8) >>> UInt8.ofNat ones) =
        b &&& ~~~((0xFF : UInt8) >>> UInt8.ofNat ones) ↔
      a.toNat / 2 ^ (8 - ones) = b.toNat / 2 ^ (8 - ones) := by
  rw [← UInt8.toNat_inj, toNat_and_mask h, toNat_and_mask h]
  exact Nat.mul_left_inj (by positivity)

theorem add_mul_eq_iff {c p q x y : ℕ} (hp : p < c) (hq : q < c) :
    p + c * x = q + c * y ↔ x = y ∧ p = q := by
  constructor
  · intro h
    have hxy : x = y := by
      have hdiv := congrArg (· / c) h
      simpa [Nat.add_mul_div_left _ _ (by omega : 0 < c), Nat.div_eq_of_lt hp,
        Nat.div_eq_of_lt hq] using hdiv
    subst hxy
    exact ⟨rfl, by omega⟩
  · rintro ⟨rfl, rfl⟩
    rfl

theorem maskIP_eq_iff {a b : List UInt8} {k ones : ℕ} (ha : a.length = k) (hb : b.length = k)
    (h : ones ≤ 8 * k) : maskIP a (maskBytes k ones) = maskIP b (maskBytes k ones) ↔
      ofBigEndian a / 2 ^ (8 * k - ones) = ofBigEndian b / 2 ^ (8 * k - ones) := by
  induction k generalizing a b ones with
  | zero =>
    rw [List.length_eq_zero_iff] at ha hb
    simp [ha, hb]
  | succ k ih =>
    obtain ⟨x, a, rfl⟩ := List.exists_cons_of_length_eq_add_one ha
    obtain ⟨y, b, rfl⟩ := List.exists_cons_of_length_eq_add_one hb
    simp only [List.length_cons, Nat.add_right_cancel_iff] at ha hb
    have hlta := ofBigEndian_lt a
    have hltb := ofBigEndian_lt b
    rw [ha] at hlta
    rw [hb] at hltb
    rw [maskBytes, ofBigEndian_cons, ofBigEndian_cons, ha, hb]
    by_cases h8 : 8 ≤ ones
    · -- the whole first byte counts
      have hexp : 8 * (k + 1) - ones = 8 * k - (ones - 8) := by omega
      have hpow : 256 ^ k = 2 ^ (8 * k - (ones - 8)) * 2 ^ (ones - 8) := by
        rw [← pow_add, Nat.sub_add_cancel (by omega), pow_mul]
        norm_num
      have hpos : 0 < 2 ^ (8 * k - (ones - 8)) := by positivity
      have hfull (z : UInt8) : z &&& 0xFF = z := UInt8.and_neg_one
      rw [if_pos h8, maskIP, maskIP, List.zipWith_cons_cons, List.zipWith_cons_cons,
        List.cons.injEq, ← maskIP, ← maskIP, ih ha hb (by omega), hexp, hfull, hfull, hpow,
        mul_assoc, mul_assoc, Nat.add_mul_div_left _ _ hpos, Nat.add_mul_div_left _ _ hpos,
        ← UInt8.toNat_inj]
      rw [hpow] at hlta hltb
      exact (add_mul_eq_iff (Nat.div_lt_of_lt_mul hlta) (Nat.div_lt_of_lt_mul hltb)).symm
    · -- the mask ends in the first byte
      have hexp : 8 * (k + 1) - ones = 8 * k + (8 - ones) := by omega
      have hpow : (256 : ℕ) ^ k = 2 ^ (8 * k) := by
        rw [pow_mul]
        norm_num
      have hzero {c : List UInt8} (hc : c.length = k) :
          maskIP c (List.replicate k 0) = List.replicate k 0 := hc ▸ maskIP_replicate_zero c
      have hhigh {c : List UInt8} (hc : ofBigEndian c < 256 ^ k) (z : UInt8) :
          (ofBigEndian c + 256 ^ k * z.toNat) / 2 ^ (8 * k + (8 - ones)) =
            z.toNat / 2 ^ (8 - ones) := by
        rw [pow_add, ← hpow, ← Nat.div_div_eq_div_mul,
          Nat.add_mul_div_left _ _ (by positivity), Nat.div_eq_of_lt hc, Nat.zero_add]
      rw [if_neg h8, maskIP, maskIP, List.zipWith_cons_cons, List.zipWith_cons_cons,
        List.cons.injEq, ← maskIP, ← maskIP, maskBytes_zero, hzero ha, hzero hb, hexp,
        hhigh hlta, hhigh hltb, and_mask_eq_iff (by omega)]
      exact and_iff_left rfl

theorem maskIP_length {ip mask : List UInt8} (h : ip.length = mask.length) :
    (maskIP ip mask).length = ip.length := by
  rw [maskIP, List.length_zipWith, h, min_self]

theorem ofBigEndian_replicate_zero (k : ℕ) : ofBigEndian (List.replicate k 0) = 0 := by
  induction k with
  | zero => rfl
  | succ k ih => rw [List.replicate_succ, ofBigEndian_cons, ih, UInt8.toNat_zero, Nat.mul_zero]

theorem ofBigEndian_maskIP {a : List UInt8} {k ones : ℕ} (ha : a.length = k) (h : ones ≤ 8 * k) :
    ofBigEndian (maskIP a (maskBytes k ones)) =
      ofBigEndian a / 2 ^ (8 * k - ones) * 2 ^ (8 * k - ones) := by
  induction k generalizing a ones with
  | zero =>
    rw [List.length_eq_zero_iff] at ha
    simp [ha, maskIP, ofBigEndian, ofLittleEndian]
  | succ k ih =>
    obtain ⟨x, a, rfl⟩ := List.exists_cons_of_length_eq_add_one ha
    simp only [List.length_cons, Nat.add_right_cancel_iff] at ha
    have hlt := ofBigEndian_lt a
    rw [ha] at hlt
    rw [maskBytes, ofBigEndian_cons, ha]
    by_cases h8 : 8 ≤ ones
    · have hexp : 8 * (k + 1) - ones = 8 * k - (ones - 8) := by omega
      have hpow : 256 ^ k = 2 ^ (8 * k - (ones - 8)) * 2 ^ (ones - 8) := by
        rw [← pow_add, Nat.sub_add_cancel (by omega), pow_mul]
        norm_num
      have hpos : 0 < 2 ^ (8 * k - (ones - 8)) := by positivity
      have hfull : x &&& 0xFF = x := UInt8.and_neg_one
      have hlen : (maskIP a (maskBytes k (ones - 8))).length = k := by
        rw [maskIP_length (by rw [ha, maskBytes_length]), ha]
      rw [if_pos h8, maskIP, List.zipWith_cons_cons, ← maskIP, ofBigEndian_cons, hlen,
        ih ha (by omega), hexp, hfull, hpow, mul_assoc, Nat.add_mul_div_left _ _ hpos]
      ring
    · have hexp : 8 * (k + 1) - ones = 8 * k + (8 - ones) := by omega
      have hpow : (256 : ℕ) ^ k = 2 ^ (8 * k) := by
        rw [pow_mul]
        norm_num
      have hzero : maskIP a (maskBytes k 0) = List.replicate k 0 := by
        rw [maskBytes_zero, ← ha, maskIP_replicate_zero]
      have hhigh : (ofBigEndian a + 256 ^ k * x.toNat) / 2 ^ (8 * k + (8 - ones)) =
          x.toNat / 2 ^ (8 - ones) := by
        rw [pow_add, ← hpow, ← Nat.div_div_eq_div_mul,
          Nat.add_mul_div_left _ _ (by positivity), Nat.div_eq_of_lt hlt, Nat.zero_add]
      rw [if_neg h8, maskIP, List.zipWith_cons_cons, ← maskIP, hzero, ofBigEndian_cons,
        ofBigEndian_replicate_zero, List.length_replicate, toNat_and_mask (by omega), hexp, hhigh,
        hpow, pow_add]
      ring

theorem littleEndian_ofLittleEndian (bs : List UInt8) :
    littleEndian bs.length (ofLittleEndian bs) = bs := by
  induction bs with
  | nil => rfl
  | cons b bs ih =>
    have hb := b.toNat_lt
    have hlow : (b.toNat + 256 * ofLittleEndian bs) % 256 = b.toNat := by omega
    have hhigh : (b.toNat + 256 * ofLittleEndian bs) / 256 = ofLittleEndian bs := by omega
    rw [List.length_cons, littleEndian, ofLittleEndian, hlow, hhigh, ih, UInt8.ofNat_toNat]

theorem putUint64_uint64 {bs : List UInt8} (h : bs.length = 8) : putUint64 (uint64 bs) = bs := by
  have hlt := ofLittleEndian_lt bs.reverse
  rw [List.length_reverse, h] at hlt
  have hback := littleEndian_ofLittleEndian bs.reverse
  rw [List.length_reverse, h] at hback
  rw [putUint64, uint64, List.take_of_length_le h.le, UInt64.toNat_ofNat',
    Nat.mod_eq_of_lt (show _ < 2 ^ 64 from hlt), hback, List.reverse_reverse]

theorem maskIP_maskIP (ip mask : List UInt8) : maskIP (maskIP ip mask) mask = maskIP ip mask := by
  induction ip generalizing mask with
  | nil => rfl
  | cons b ip ih =>
    cases mask with
    | nil => rfl
    | cons m mask =>
      have hb : b &&& m &&& m = b &&& m := by rw [UInt8.and_assoc, UInt8.and_self]
      simp only [maskIP, List.zipWith_cons_cons, hb]
      exact congrArg _ (ih mask)

theorem uint64_toNat {bs : List UInt8} (h : 8 ≤ bs.length) :
    (uint64 bs).toNat = ofBigEndian (bs.take 8) := by
  have hlt := ofBigEndian_lt (bs.take 8)
  rw [List.length_take, min_eq_left h] at hlt
  rw [uint64, UInt64.toNat_ofNat', ofBigEndian]
  exact Nat.mod_eq_of_lt hlt

/-- A /64 is in a network just when the two agree in the network's prefix. -/
theorem network_contains_iff {ip a : List UInt8} {ones : ℕ} (h : ones ≤ 64)
    (hip : ip.length = 16) (ha : a.length = 16) : (network ip ones).contains a = true ↔
      (uint64 a).toNat / 2 ^ (64 - ones) = (uint64 ip).toNat / 2 ^ (64 - ones) := by
  have hmask {c : List UInt8} (hc : c.length = 8 + 8) : maskIP c (cidrMask ones 128) =
      maskIP (c.take 8) (maskBytes 8 ones) ++ List.replicate 8 0 := maskIP_maskBytes hc h
  have htake {c : List UInt8} (hc : c.length = 16) : (c.take 8).length = 8 := by simp [hc]
  rw [IPNet.contains, network, beq_iff_eq, maskIP_maskIP, hmask hip, hmask ha,
    List.append_left_inj, maskIP_eq_iff (htake hip) (htake ha) h, uint64_toNat (by omega),
    uint64_toNat (by omega)]
  exact eq_comm

end RpiCc2520.AddressBytes
