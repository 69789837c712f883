import RpiCc2520.HexText

/-! The RFID reader: frames of 16 characters from the UART, a code of five bytes in hexadecimal
and its checksum. -/
namespace RpiCc2520.RfidReader
open HexText

abbrev Code := Vector UInt8 5

structure Reader where
  active : Bool
  rfidCode : Code

/-- `Notify.enable`, without the settings of the UART. -/
def enable (s : Reader) : Reader := { s with active := true }
def disable (s : Reader) : Reader := { s with active := false }

/-- A character that is no hexadecimal digit counts as 0. -/
def ahex2b (ascii : UInt8) : UInt8 :=
  if 0x2f < ascii ∧ ascii < 0x3a then ascii - 0x30
  else if 0x40 < ascii ∧ ascii < 0x47 then ascii - 0x37
  else if 0x60 < ascii ∧ ascii < 0x67 then ascii - 0x57
  else 0

def convertRfid (buf : ℕ → UInt8) : Code :=
  Vector.ofFn fun i =>
    let char1 := ahex2b (buf (i.val <<< 1))
    let char2 := ahex2b (buf (i.val <<< 1 + 1))
    char1 <<< 4 ||| char2

def chksum (code : Code) : UInt8 := code.toList.foldl (· ^^^ ·) 0

/-- All zeros pass for no code. -/
def verifyChecksum (code : Code) (chksumBuf : ℕ → UInt8) : Bool :=
  let realChksum := ahex2b (chksumBuf 0) <<< 4 ||| ahex2b (chksumBuf 1)
  let zeroChecker := code.toList.foldl (· ||| ·) 0
  chksum code == realChksum && zeroChecker != 0

/-- `UartBuffer.receive`, with the code `Notify.notify` is signaled with. -/
def receive (buf : ℕ → UInt8) (len : UInt8) (s : Reader) : Option Code × Reader :=
  if ¬s.active then (none, s)
  else if len ≠ 16 then (none, s)
  else
    let s := { s with rfidCode := convertRfid fun i => buf (i + 1) }
    if verifyChecksum s.rfidCode fun i => buf (i + 11) then (some s.rfidCode, s) else (none, s)

/-- A frame that holds a code and its checksum in characters 1 to 12, in digits of either case. -/
structure Frame (code : Code) (buf : ℕ → UInt8) : Prop where
  data : ∀ i : Fin 5, Spells (buf (2 * i + 1)).toNat (buf (2 * i + 2)).toNat code[i].toNat
  checksum : Spells (buf 11).toNat (buf 12).toNat (chksum code).toNat

/-- A reader that is told the code a frame holds, and never another one for a frame with one wrong
character. -/
structure Detects (code : Code) (buf : ℕ → UInt8) (s : Reader) : Prop where
  decoded : (receive buf 16 s).1 = some code
  damaged : ∀ p c, 1 ≤ p → p ≤ 12 → c ≠ buf p →
    (receive (Function.update buf p c) 16 s).1 = none ∨
      (receive (Function.update buf p c) 16 s).1 = some code

theorem toNat_ahex2b (c : UInt8) : (ahex2b c).toNat = (digitValue c.toNat).getD 0 := by
  have hsub (k : UInt8) (hk : k.toNat ≤ c.toNat) : (c - k).toNat = c.toNat - k.toNat :=
    UInt8.toNat_sub_of_le _ _ (UInt8.le_iff_toNat_le.mpr hk)
  have hnumeral : (0x2f < c ∧ c < 0x3a) ↔ 48 ≤ c.toNat ∧ c.toNat ≤ 57 := by
    simp [UInt8.lt_iff_toNat_lt]
    omega
  have hupper : (0x40 < c ∧ c < 0x47) ↔ 65 ≤ c.toNat ∧ c.toNat ≤ 70 := by
    simp [UInt8.lt_iff_toNat_lt]
    omega
  have hlower : (0x60 < c ∧ c < 0x67) ↔ 97 ≤ c.toNat ∧ c.toNat ≤ 102 := by
    simp [UInt8.lt_iff_toNat_lt]
    omega
  rw [ahex2b, digitValue]
  simp only [hnumeral, hupper, hlower]
  split_ifs with h1 h2 h3
  · exact hsub 0x30 h1.1
  · exact hsub 0x37 (Nat.le_trans (by decide) h2.1)
  · exact hsub 0x57 (Nat.le_trans (by decide) h3.1)
  · rfl

theorem byte_of_spells {high low b : UInt8} (h : Spells high.toNat low.toNat b.toNat) :
    ahex2b high <<< 4 ||| ahex2b low = b := by
  have hhigh : (ahex2b high).toNat = b.toNat / 16 := by rw [toNat_ahex2b, h.high, Option.getD_some]
  have hlow : (ahex2b low).toNat = b.toNat % 16 := by rw [toNat_ahex2b, h.low, Option.getD_some]
  have hb := b.toNat_lt
  have hmod : b.toNat % 16 < 2 ^ 4 := Nat.mod_lt _ (by decide)
  have hfour : (4 : UInt8).toNat % 8 = 4 := rfl
  rw [← UInt8.toNat_inj, UInt8.toNat_or, UInt8.toNat_shiftLeft, hhigh, hlow, hfour,
    Nat.mod_eq_of_lt (by rw [Nat.shiftLeft_eq]; omega), ← Nat.shiftLeft_add_eq_or_of_lt hmod,
    Nat.shiftLeft_eq]
  omega

theorem convertRfid_congr (buf buf' : ℕ → UInt8) {i : Fin 5}
    (hhigh : buf (2 * i) = buf' (2 * i)) (hlow : buf (2 * i + 1) = buf' (2 * i + 1)) :
    (convertRfid buf)[i] = (convertRfid buf')[i] := by
  have hshift : i.val <<< 1 = 2 * i := by
    rw [Nat.shiftLeft_eq, Nat.mul_comm]
  simp only [convertRfid, Fin.getElem_fin, Vector.getElem_ofFn, hshift, hhigh, hlow]

theorem convertRfid_of_frame {code : Code} {buf : ℕ → UInt8} (h : Frame code buf) :
    (convertRfid fun i => buf (i + 1)) = code := by
  apply Vector.ext
  intro i hi
  have hshift : i <<< 1 = 2 * i := by
    rw [Nat.shiftLeft_eq, Nat.mul_comm]
  simp only [convertRfid, Vector.getElem_ofFn, hshift]
  exact byte_of_spells (h.data ⟨i, hi⟩)

theorem zeroChecker_eq_zero {bs : List UInt8} {acc : UInt8} :
    bs.foldl (· ||| ·) acc = 0 ↔ acc = 0 ∧ ∀ b ∈ bs, b = 0 := by
  induction bs generalizing acc with
  | nil => simp
  | cons b bs ih => simp [ih, and_assoc]

theorem receive_fst {buf : ℕ → UInt8} {s : Reader} (hactive : s.active = true) :
    (receive buf 16 s).1 =
      if verifyChecksum (convertRfid fun i => buf (i + 1)) fun i => buf (i + 11) then
        some (convertRfid fun i => buf (i + 1))
      else none := by
  unfold receive
  rw [if_neg (not_not.mpr hactive), if_neg (by decide)]
  dsimp only
  split <;> rfl

theorem verifyChecksum_of_frame {code : Code} {buf : ℕ → UInt8} (h : Frame code buf)
    (hcode : code ≠ .replicate 5 0) :
    verifyChecksum code (fun i => buf (i + 11)) = true := by
  have hreal := byte_of_spells h.checksum
  unfold verifyChecksum
  dsimp only
  rw [Bool.and_eq_true, beq_iff_eq, bne_iff_ne]
  refine ⟨hreal.symm, fun hzero => hcode ?_⟩
  apply Vector.ext
  intro i hi
  have hall := (zeroChecker_eq_zero.mp hzero).2
  rw [Vector.getElem_replicate]
  exact hall _ (Vector.mem_toList_iff.mpr (Vector.getElem_mem hi))

/-- One wrong data character leaves four of the five bytes. -/
theorem agree_of_update {code : Code} {buf : ℕ → UInt8} (h : Frame code buf) {p : ℕ} (c : UInt8)
    {i : ℕ} (hi : i ≠ (p - 1) / 2) :
    (convertRfid fun i => Function.update buf p c (i + 1)).toList[i]? = code.toList[i]? := by
  by_cases hlt : i < 5
  · have hkept (j : ℕ) (hj : j ≠ p) : Function.update buf p c j = buf j :=
      Function.update_of_ne hj c buf
    have hsame := convertRfid_congr (fun i => Function.update buf p c (i + 1))
      (fun i => buf (i + 1)) (i := ⟨i, hlt⟩) (hkept _ (by dsimp only; omega))
      (hkept _ (by dsimp only; omega))
    rw [convertRfid_of_frame h] at hsame
    rw [Vector.getElem?_toList, Vector.getElem?_toList, Vector.getElem?_eq_getElem hlt,
      Vector.getElem?_eq_getElem hlt]
    exact congrArg some hsame
  · rw [List.getElem?_eq_none (by simpa using hlt), List.getElem?_eq_none (by simpa using hlt)]

theorem chksum_injective {code code' : Code} {j : ℕ}
    (hagree : ∀ i, i ≠ j → code.toList[i]? = code'.toList[i]?) (h : chksum code = chksum code') :
    code = code' := by
  apply Vector.toList_inj.mp
  exact eq_of_foldl_eq (fun a _ _ h => (UInt8.xor_left_inj a).mp h)
    (fun b _ _ h => (UInt8.xor_right_inj b).mp h) (by simp) hagree h

/-- A wrong character among the ten of the data is told by the checksum, unless it spells the same;
a wrong one of the checksum leaves the code as it is. -/
theorem damaged_of_frame {code : Code} {buf : ℕ → UInt8} {s : Reader} (h : Frame code buf)
    (hactive : s.active = true) {p : ℕ} (hlast : p ≤ 12) (c : UInt8) :
    (receive (Function.update buf p c) 16 s).1 = none ∨
      (receive (Function.update buf p c) 16 s).1 = some code := by
  rw [receive_fst hactive]
  split_ifs with hverify
  · right
    congr 1
    by_cases hdata : p ≤ 10
    · unfold verifyChecksum at hverify
      simp only [Bool.and_eq_true, beq_iff_eq] at hverify
      have hreal : ahex2b (Function.update buf p c (0 + 11)) <<< 4 |||
          ahex2b (Function.update buf p c (1 + 11)) = chksum code := by
        rw [Function.update_of_ne (by omega), Function.update_of_ne (by omega)]
        exact byte_of_spells h.checksum
      rw [hreal] at hverify
      exact chksum_injective (fun i hi => agree_of_update h c hi) hverify.1
    · apply Vector.toList_inj.mp
      apply List.ext_getElem?
      intro i
      by_cases hi : i = (p - 1) / 2
      · have hout : 5 ≤ i := by omega
        rw [List.getElem?_eq_none (by simpa using hout),
          List.getElem?_eq_none (by simpa using hout)]
      · exact agree_of_update h c hi
  · exact .inl rfl

/-- A frame is read as the code it holds, and with one character wrong it is read as that code or
not at all. -/
theorem detects_of_frame (code : Code) (hcode : code ≠ .replicate 5 0) (buf : ℕ → UInt8)
    (h : Frame code buf) (s : Reader) (hactive : s.active = true) : Detects code buf s := by
  constructor
  · rw [receive_fst hactive, convertRfid_of_frame h, if_pos (verifyChecksum_of_frame h hcode)]
  · intro p c _ hlast _
    exact damaged_of_frame h hactive hlast c

def sampleBuf : ℕ → UInt8 := fun p =>
  [2, 48, 65, 49, 98, 50, 67, 51, 100, 52, 69, 52, 101].getD p 0

theorem sampleBuf_frame : Frame #v[0x0a, 0x1b, 0x2c, 0x3d, 0x4e] sampleBuf := by
  constructor
  · intro i
    constructor <;> fin_cases i <;> rfl
  · constructor <;> rfl

theorem detects_of_frame_mixed :
    Detects #v[0x0a, 0x1b, 0x2c, 0x3d, 0x4e] sampleBuf ⟨true, .replicate 5 0⟩ :=
  detects_of_frame _ (by decide) sampleBuf sampleBuf_frame _ rfl

end RpiCc2520.RfidReader
