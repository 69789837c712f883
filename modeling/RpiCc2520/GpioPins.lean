import Mathlib

/-! The pins of the processor: three-bit function fields, ten to a register, the set and clear
registers of the outputs, and the shadow masks the queries are answered from. -/
namespace RpiCc2520.GpioPins

abbrev Pin := Fin 32

def fselAlternate0 : ℕ := 4

/-- The function-select registers, the output latches behind the set and clear registers, and the
component's masks. -/
structure Gpio where
  fsel : ℕ → BitVec 32
  driven : BitVec 32
  pinLevel : BitVec 32
  pinOutput : BitVec 32
  pinAlt : BitVec 32

def boot (fsel : ℕ → BitVec 32) (driven : BitVec 32) : Gpio := ⟨fsel, driven, 0, 0, 0⟩

def inpGpio (g : Pin) (s : Gpio) : Gpio :=
  let r := s.fsel (g / 10) &&& ~~~(7#32 <<< (g.val % 10 * 3))
  { s with fsel := Function.update s.fsel (g / 10) r }

def setGpioAlt (g : Pin) (a : ℕ) (s : Gpio) : Gpio :=
  let r := s.fsel (g / 10) ||| BitVec.ofNat 32 a <<< (g.val % 10 * 3)
  { s with fsel := Function.update s.fsel (g / 10) r }

def outGpio (g : Pin) (s : Gpio) : Gpio := setGpioAlt g 1 s

/-- A write to the set register raises the pins whose bits are 1, a write to the clear register
lowers them. -/
def gpioSet (g : Pin) (s : Gpio) : Gpio := { s with driven := s.driven ||| 1#32 <<< g.val }
def gpioClr (g : Pin) (s : Gpio) : Gpio := { s with driven := s.driven &&& ~~~(1#32 <<< g.val) }

def gpioRead (levels : BitVec 32) (g : Pin) : BitVec 32 :=
  ((levels &&& 1#32 <<< g.val) >>> g.val) &&& 1

def pinNoteClr (a : BitVec 32) (g : Pin) : BitVec 32 := a &&& ~~~(1#32 <<< g.val)
def pinNoteSet (a : BitVec 32) (g : Pin) : BitVec 32 := a ||| 1#32 <<< g.val
def pinNoteGet (a : BitVec 32) (g : Pin) : BitVec 32 := (a >>> g.val) &&& 1

inductive Call
  | set (g : Pin)
  | clr (g : Pin)
  | toggle (g : Pin)
  | makeInput (g : Pin)
  | makeOutput (g : Pin)
  | selectModuleFunc (g : Pin)
  deriving DecidableEq

def set (g : Pin) (s : Gpio) : Gpio :=
  let s := gpioSet g s
  { s with pinLevel := pinNoteSet s.pinLevel g }

def clr (g : Pin) (s : Gpio) : Gpio :=
  let s := gpioClr g s
  { s with pinLevel := pinNoteClr s.pinLevel g }

def toggle (g : Pin) (s : Gpio) : Gpio := if pinNoteGet s.pinLevel g ≠ 0 then clr g s else set g s

def makeInput (g : Pin) (s : Gpio) : Gpio :=
  let s := inpGpio g s
  { s with pinOutput := pinNoteClr s.pinOutput g }

def makeOutput (g : Pin) (s : Gpio) : Gpio :=
  let s := outGpio g (inpGpio g s)
  { s with pinOutput := pinNoteSet s.pinOutput g }

def selectModuleFunc (g : Pin) (s : Gpio) : Gpio :=
  let s := setGpioAlt g fselAlternate0 (inpGpio g s)
  { s with pinOutput := pinNoteClr s.pinOutput g, pinAlt := pinNoteSet s.pinAlt g }

def isInput (g : Pin) (s : Gpio) : Bool :=
  pinNoteGet s.pinOutput g == 0 && pinNoteGet s.pinAlt g == 0
def isOutput (g : Pin) (s : Gpio) : Bool := pinNoteGet s.pinOutput g == 1
def isModuleFunc (g : Pin) (s : Gpio) : Bool := pinNoteGet s.pinAlt g == 1

def getRaw (levels : BitVec 32) (g : Pin) : UInt8 := UInt8.ofBitVec ((gpioRead levels g).setWidth 8)
def get (levels : BitVec 32) (g : Pin) : Bool := gpioRead levels g == 1

def apply (s : Gpio) : Call → Gpio
  | .set g => set g s
  | .clr g => clr g s
  | .toggle g => toggle g s
  | .makeInput g => makeInput g s
  | .makeOutput g => makeOutput g s
  | .selectModuleFunc g => selectModuleFunc g s

def run (s : Gpio) (calls : List Call) : Gpio := calls.foldl apply s

def field (s : Gpio) (g : Pin) : BitVec 3 := (s.fsel (g / 10)).extractLsb' (g.val % 10 * 3) 3

/-- The functions a pin is given. -/
inductive Mode
  | input
  | output
  | moduleFunc
  deriving DecidableEq

def Mode.code : Mode → BitVec 3
  | .input => 0b000
  | .output => 0b001
  | .moduleFunc => 0b100

def Call.mode (g : Pin) : Call → Option Mode
  | .makeInput p => if p = g then some .input else none
  | .makeOutput p => if p = g then some .output else none
  | .selectModuleFunc p => if p = g then some .moduleFunc else none
  | _ => none

def lastMode (g : Pin) (calls : List Call) : Option Mode :=
  calls.foldl (fun last c => (c.mode g).or last) none

/-- The answers for a pin that has been given a function agree with its field, and one of the three
is `TRUE`. -/
structure Truthful (s : Gpio) (g : Pin) : Prop where
  input : isInput g s = true ↔ field s g = 0b000
  output : isOutput g s = true ↔ field s g = 0b001
  moduleFunc : isModuleFunc g s = true ↔ field s g = 0b100
  one : [isInput g s, isOutput g s, isModuleFunc g s].count true = 1

theorem getLsbD_shifted {a b i : ℕ} (hb : b < 10) (hi : i < 3) (v : BitVec 3) :
    (BitVec.ofNat 32 v.toNat <<< (a * 3)).getLsbD (b * 3 + i) = (decide (a = b) && v.getLsbD i) := by
  have hin : b * 3 + i < 32 := by omega
  rw [BitVec.getLsbD_shiftLeft, BitVec.getLsbD_ofNat]
  rcases Nat.lt_trichotomy a b with hlt | rfl | hgt
  · have hhigh : v.toNat < 2 ^ (b * 3 + i - a * 3) :=
      v.isLt.trans_le (Nat.pow_le_pow_right (by omega) (by omega))
    rw [Nat.testBit_lt_two_pow hhigh]
    simp [hlt.ne]
  · have hsub : a * 3 + i - a * 3 = i := by omega
    rw [hsub]
    simp [hin, show i < 32 by omega, BitVec.getLsbD]
  · simp [show b * 3 + i < a * 3 by omega, hgt.ne']

theorem extract_clear {a b : ℕ} (hb : b < 10) (r : BitVec 32) :
    (r &&& ~~~(7#32 <<< (a * 3))).extractLsb' (b * 3) 3 =
      if a = b then 0 else r.extractLsb' (b * 3) 3 := by
  ext i hi
  have hall : (7#3).getLsbD i = true := by interval_cases i <;> rfl
  have hshift := getLsbD_shifted (a := a) hb hi (7#3)
  have hin : b * 3 + i < 32 := by omega
  rw [BitVec.getElem_extractLsb', BitVec.getLsbD_and, BitVec.getLsbD_not]
  change (_ && (_ && !(BitVec.ofNat 32 (7#3).toNat <<< (a * 3)).getLsbD (b * 3 + i))) = _
  rw [hshift, hall]
  by_cases hab : a = b
  · simp [hab]
  · simp [hab, hin]

theorem extract_or {a b : ℕ} (hb : b < 10) (r : BitVec 32) (v : BitVec 3) :
    (r ||| BitVec.ofNat 32 v.toNat <<< (a * 3)).extractLsb' (b * 3) 3 =
      if a = b then r.extractLsb' (b * 3) 3 ||| v else r.extractLsb' (b * 3) 3 := by
  ext i hi
  rw [BitVec.getElem_extractLsb', BitVec.getLsbD_or, getLsbD_shifted hb hi]
  by_cases hab : a = b
  · simp [hab, BitVec.getLsbD_eq_getElem hi]
  · simp [hab]

theorem getLsbD_oneAt (g q : Pin) : (1#32 <<< g.val).getLsbD q = decide (g = q) := by
  rw [BitVec.getLsbD_shiftLeft, BitVec.getLsbD_one]
  have hg := g.isLt
  have hq := q.isLt
  rw [Bool.eq_iff_iff]
  simp [Fin.ext_iff]
  omega

theorem pinNoteGet_eq (a : BitVec 32) (g : Pin) :
    pinNoteGet a g = if a.getLsbD g then 1 else 0 := by
  ext i hi
  rw [pinNoteGet, BitVec.getElem_and, BitVec.getElem_ushiftRight]
  rcases Nat.eq_zero_or_pos i with rfl | hpos
  · cases a.getLsbD g <;> simp_all
  · have hone : (1#32)[i] = false := by
      rw [BitVec.getElem_one]
      exact decide_eq_false hpos.ne'
    cases a.getLsbD g <;> simp_all

theorem getLsbD_pinNoteSet (a : BitVec 32) (g q : Pin) :
    (pinNoteSet a g).getLsbD q = (a.getLsbD q || decide (g = q)) := by
  rw [pinNoteSet, BitVec.getLsbD_or, getLsbD_oneAt]

theorem getLsbD_pinNoteClr (a : BitVec 32) (g q : Pin) :
    (pinNoteClr a g).getLsbD q = (a.getLsbD q && !decide (g = q)) := by
  rw [pinNoteClr, BitVec.getLsbD_and, BitVec.getLsbD_not, getLsbD_oneAt]
  simp

theorem pin_eq_iff (p g : Pin) :
    p = g ↔ p.val / 10 = g.val / 10 ∧ p.val % 10 = g.val % 10 := by
  rw [Fin.ext_iff]
  omega

theorem field_inpGpio (p g : Pin) (s : Gpio) :
    field (inpGpio p s) g = if p = g then 0 else field s g := by
  have hg : g.val % 10 < 10 := Nat.mod_lt _ (by omega)
  by_cases hr : g.val / 10 = p.val / 10
  · rw [field, inpGpio]
    dsimp only
    rw [hr, Function.update_self, extract_clear hg]
    simp only [pin_eq_iff, hr, true_and, field]
  · have hne : ¬p = g := fun he => hr (he ▸ rfl)
    rw [field, inpGpio]
    dsimp only
    rw [Function.update_of_ne hr, if_neg hne, field]

theorem field_setGpioAlt (p g : Pin) (v : BitVec 3) (s : Gpio) :
    field (setGpioAlt p v.toNat s) g = if p = g then field s g ||| v else field s g := by
  have hg : g.val % 10 < 10 := Nat.mod_lt _ (by omega)
  by_cases hr : g.val / 10 = p.val / 10
  · rw [field, setGpioAlt]
    dsimp only
    rw [hr, Function.update_self, extract_or hg]
    simp only [pin_eq_iff, hr, true_and, field]
  · have hne : ¬p = g := fun he => hr (he ▸ rfl)
    rw [field, setGpioAlt]
    dsimp only
    rw [Function.update_of_ne hr, if_neg hne, field]

theorem toggle_frame (g : Pin) (s : Gpio) : (toggle g s).fsel = s.fsel ∧
    (toggle g s).pinOutput = s.pinOutput ∧ (toggle g s).pinAlt = s.pinAlt := by
  rw [toggle]
  split <;> exact ⟨rfl, rfl, rfl⟩

/-- The field of a pin holds the function it was given last, whatever other pins are given. -/
theorem field_apply (g : Pin) (s : Gpio) (c : Call) :
    field (apply s c) g = ((c.mode g).map Mode.code).getD (field s g) := by
  cases c with
  | set p => rfl
  | clr p => rfl
  | toggle p =>
    rw [apply, field, (toggle_frame p s).1]
    rfl
  | makeInput p =>
    have h := field_inpGpio p g s
    by_cases hp : p = g
    · simpa [apply, makeInput, Call.mode, Mode.code, field, hp] using h
    · simpa [apply, makeInput, Call.mode, field, hp] using h
  | makeOutput p =>
    have h := field_setGpioAlt p g 1 (inpGpio p s)
    rw [field_inpGpio] at h
    by_cases hp : p = g
    · simpa [apply, makeOutput, outGpio, Call.mode, Mode.code, field, hp] using h
    · simpa [apply, makeOutput, outGpio, Call.mode, field, hp] using h
  | selectModuleFunc p =>
    have h := field_setGpioAlt p g 4 (inpGpio p s)
    rw [field_inpGpio] at h
    by_cases hp : p = g
    · simpa [apply, selectModuleFunc, fselAlternate0, Call.mode, Mode.code, field, hp] using h
    · simpa [apply, selectModuleFunc, fselAlternate0, Call.mode, field, hp] using h

theorem pinOutput_apply (g : Pin) (s : Gpio) (c : Call) :
    (apply s c).pinOutput.getLsbD g =
      ((c.mode g).map fun m => decide (m = .output)).getD (s.pinOutput.getLsbD g) := by
  cases c with
  | set p => rfl
  | clr p => rfl
  | toggle p =>
    rw [apply, (toggle_frame p s).2.1]
    rfl
  | makeInput p =>
    have h := getLsbD_pinNoteClr s.pinOutput p g
    by_cases hp : p = g <;> simpa [apply, makeInput, inpGpio, Call.mode, hp] using h
  | makeOutput p =>
    have h := getLsbD_pinNoteSet s.pinOutput p g
    by_cases hp : p = g <;>
      simpa [apply, makeOutput, outGpio, setGpioAlt, inpGpio, Call.mode, hp] using h
  | selectModuleFunc p =>
    have h := getLsbD_pinNoteClr s.pinOutput p g
    by_cases hp : p = g <;>
      simpa [apply, selectModuleFunc, setGpioAlt, inpGpio, Call.mode, hp] using h

/-- `pin_alt` notes whether the pin was ever given to a module. No other command clears it. -/
theorem pinAlt_apply (g : Pin) (s : Gpio) (c : Call) :
    (apply s c).pinAlt.getLsbD g = (s.pinAlt.getLsbD g || decide (c = .selectModuleFunc g)) := by
  cases c with
  | set p => simp [apply, set, gpioSet]
  | clr p => simp [apply, clr, gpioClr]
  | toggle p =>
    rw [apply, (toggle_frame p s).2.2]
    simp
  | makeInput p => simp [apply, makeInput, inpGpio]
  | makeOutput p => simp [apply, makeOutput, outGpio, setGpioAlt, inpGpio]
  | selectModuleFunc p =>
    have h := getLsbD_pinNoteSet s.pinAlt p g
    by_cases hp : p = g <;> simpa [apply, selectModuleFunc, setGpioAlt, inpGpio, hp] using h

theorem run_append (s : Gpio) (calls : List Call) (c : Call) :
    run s (calls ++ [c]) = apply (run s calls) c := by
  rw [run, List.foldl_append]
  rfl

theorem lastMode_append (g : Pin) (calls : List Call) (c : Call) :
    lastMode g (calls ++ [c]) = (c.mode g).or (lastMode g calls) := by
  rw [lastMode, List.foldl_append]
  rfl

/-- What a sequence of calls has left of pin `g`: its field and its two notes. -/
structure Left (s : Gpio) (calls : List Call) (g : Pin) : Prop where
  field : ∀ m, lastMode g calls = some m → GpioPins.field (run s calls) g = m.code
  output : (run s calls).pinOutput.getLsbD g = decide (lastMode g calls = some .output)
  alt : (run s calls).pinAlt.getLsbD g = decide (.selectModuleFunc g ∈ calls)

theorem left_run (fsel : ℕ → BitVec 32) (driven : BitVec 32) (calls : List Call) (g : Pin) :
    Left (boot fsel driven) calls g := by
  induction calls using List.reverseRecOn with
  | nil =>
    constructor
    · nofun
    · simp [run, boot, lastMode]
    · simp [run, boot]
  | append_singleton calls c ih =>
    constructor
    · intro m hm
      rw [lastMode_append] at hm
      rw [run_append, field_apply]
      cases hc : c.mode g with
      | some m' =>
        rw [hc] at hm
        cases hm
        rfl
      | none =>
        rw [hc] at hm
        exact ih.field m hm
    · rw [run_append, pinOutput_apply, lastMode_append, ih.output]
      cases c.mode g with
      | none => exact decide_eq_decide.mpr Iff.rfl
      | some m => simp
    · rw [run_append, pinAlt_apply, ih.alt]
      simp [eq_comm]

theorem isOutput_eq (g : Pin) (s : Gpio) : isOutput g s = s.pinOutput.getLsbD g := by
  rw [isOutput, pinNoteGet_eq]
  cases s.pinOutput.getLsbD g <;> rfl

theorem isModuleFunc_eq (g : Pin) (s : Gpio) : isModuleFunc g s = s.pinAlt.getLsbD g := by
  rw [isModuleFunc, pinNoteGet_eq]
  cases s.pinAlt.getLsbD g <;> rfl

theorem isInput_eq (g : Pin) (s : Gpio) :
    isInput g s = (!s.pinOutput.getLsbD g && !s.pinAlt.getLsbD g) := by
  rw [isInput, pinNoteGet_eq, pinNoteGet_eq]
  cases s.pinOutput.getLsbD g <;> cases s.pinAlt.getLsbD g <;> rfl

/-- The answers for a pin are right just when the note that it is a module's is. -/
theorem truthful_iff {s : Gpio} {g : Pin} {m : Mode} (hfield : field s g = m.code)
    (hout : s.pinOutput.getLsbD g = decide (m = .output)) :
    Truthful s g ↔ (s.pinAlt.getLsbD g = true ↔ m = .moduleFunc) := by
  constructor
  · intro h
    rw [← isModuleFunc_eq, h.moduleFunc, hfield]
    cases m <;> decide
  · intro h
    have halt : s.pinAlt.getLsbD g = decide (m = .moduleFunc) := by
      rw [Bool.eq_iff_iff, h, decide_eq_true_iff]
    constructor
    · rw [isInput_eq, hfield, hout, halt]
      cases m <;> decide
    · rw [isOutput_eq, hfield, hout]
      cases m <;> decide
    · rw [isModuleFunc_eq, hfield, halt]
      cases m <;> decide
    · rw [isInput_eq, isOutput_eq, isModuleFunc_eq, hout, halt]
      cases m <;> decide

theorem mem_of_lastMode {g : Pin} {calls : List Call} (h : lastMode g calls = some .moduleFunc) :
    .selectModuleFunc g ∈ calls := by
  induction calls using List.reverseRecOn with
  | nil => cases h
  | append_singleton calls c ih =>
    rw [lastMode_append] at h
    rw [List.mem_append, List.mem_singleton]
    cases hc : c.mode g with
    | none =>
      rw [hc] at h
      exact .inl (ih h)
    | some m =>
      rw [hc] at h
      cases h
      cases c with
      | selectModuleFunc p =>
        by_cases hp : p = g
        · exact .inr (by rw [hp])
        · simp [Call.mode, hp] at hc
      | makeInput p => by_cases hp : p = g <;> simp [Call.mode, hp] at hc
      | makeOutput p => by_cases hp : p = g <;> simp [Call.mode, hp] at hc
      | set | clr | toggle => cases hc

theorem lastMode_isSome {g : Pin} {calls : List Call} (h : .selectModuleFunc g ∈ calls) :
    (lastMode g calls).isSome = true := by
  induction calls using List.reverseRecOn with
  | nil => cases h
  | append_singleton calls c ih =>
    rw [lastMode_append, Option.isSome_or]
    rcases List.mem_append.mp h with hmem | hmem
    · rw [ih hmem, Bool.or_true]
    · rw [← List.mem_singleton.mp hmem, Call.mode, if_pos rfl]
      rfl

/-- The queries tell the truth about every pin that was given a function exactly when no pin that
was given to a module has been taken back. -/
theorem truthful_iff_notTakenBack (fsel : ℕ → BitVec 32) (driven : BitVec 32) (calls : List Call) :
    (∀ g, (lastMode g calls).isSome = true → Truthful (run (boot fsel driven) calls) g) ↔
      ∀ g, .selectModuleFunc g ∈ calls → lastMode g calls = some .moduleFunc := by
  have hpin {g : Pin} {m : Mode} (hm : lastMode g calls = some m) :
      Truthful (run (boot fsel driven) calls) g ↔
        (.selectModuleFunc g ∈ calls ↔ m = .moduleFunc) := by
    have hl := left_run fsel driven calls g
    have hout := hl.output
    simp only [hm, Option.some.injEq] at hout
    rw [truthful_iff (hl.field m hm) hout, hl.alt, decide_eq_true_iff]
  constructor
  · intro h g hg
    obtain ⟨m, hm⟩ := Option.isSome_iff_exists.mp (lastMode_isSome hg)
    have htrue := h g (lastMode_isSome hg)
    rw [hpin hm] at htrue
    rw [hm, htrue.mp hg]
  · intro h g hs
    obtain ⟨m, hm⟩ := Option.isSome_iff_exists.mp hs
    rw [hpin hm]
    constructor
    · intro hg
      exact Option.some.inj (hm.symm.trans (h g hg))
    · rintro rfl
      exact mem_of_lastMode hm

/-- A pin that was a module's and then made an input is still said to be the module's, and no
input. -/
theorem taken_back_pin_misreported :
    let s := run (boot (fun _ => 0) 0) [.selectModuleFunc 17, .makeInput 17]
    field s 17 = 0b000 ∧ isInput 17 s = false ∧ isModuleFunc 17 s = true ∧ ¬Truthful s 17 := by
  refine ⟨by decide, by decide, by decide, ?_⟩
  intro h
  exact absurd (h.input.mpr (by decide)) (by decide)

end RpiCc2520.GpioPins
