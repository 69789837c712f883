import RpiCc2520.GpioPins

/-! Each pin on its own: what a call does to the pin it names, and that it does nothing to the
others that share its registers and masks. -/
namespace RpiCc2520.GpioPins

/-- All that the registers and the masks hold of one pin. -/
structure PinState where
  field : BitVec 3
  driven : Bool
  level : Bool
  output : Bool
  alt : Bool
  deriving DecidableEq

def pinState (s : Gpio) (g : Pin) : PinState :=
  ⟨field s g, s.driven.getLsbD g, s.pinLevel.getLsbD g, s.pinOutput.getLsbD g,
    s.pinAlt.getLsbD g⟩

def Call.pin : Call → Pin
  | .set g | .clr g | .toggle g | .makeInput g | .makeOutput g | .selectModuleFunc g => g

def PinState.after (v : PinState) : Call → PinState
  | .set _ => { v with driven := true, level := true }
  | .clr _ => { v with driven := false, level := false }
  | .toggle _ => { v with driven := !v.level, level := !v.level }
  | .makeInput _ => { v with field := Mode.input.code, output := false }
  | .makeOutput _ => { v with field := Mode.output.code, output := true }
  | .selectModuleFunc _ => { v with field := Mode.moduleFunc.code, output := false, alt := true }

def Call.level (q : Pin) : Call → Option Bool
  | .set g => if g = q then some true else none
  | .clr g => if g = q then some false else none
  | _ => none

/-- The pins do not interfere: all that is held of `q` comes from the calls on `q`, and its level
from the last call that gave one and the toggles since. -/
structure Independent (s : Gpio) (calls : List Call) (q : Pin) : Prop where
  alone : pinState (run s calls) q = pinState (run s (calls.filter fun c => c.pin = q)) q
  level : ∀ before c after b, calls = before ++ c :: after → c.level q = some b →
    (∀ c' ∈ after, c'.level q = none) →
    (run s calls).driven.getLsbD q = (b ^^ (after.count (.toggle q)).bodd)

theorem driven_set (p g : Pin) (s : Gpio) :
    (set p s).driven.getLsbD g = (s.driven.getLsbD g || decide (p = g)) ∧
      (set p s).pinLevel.getLsbD g = (s.pinLevel.getLsbD g || decide (p = g)) :=
  ⟨getLsbD_pinNoteSet s.driven p g, getLsbD_pinNoteSet s.pinLevel p g⟩

theorem driven_clr (p g : Pin) (s : Gpio) :
    (clr p s).driven.getLsbD g = (s.driven.getLsbD g && !decide (p = g)) ∧
      (clr p s).pinLevel.getLsbD g = (s.pinLevel.getLsbD g && !decide (p = g)) :=
  ⟨getLsbD_pinNoteClr s.driven p g, getLsbD_pinNoteClr s.pinLevel p g⟩

theorem pinState_set (p g : Pin) (s : Gpio) :
    pinState (set p s) g = if p = g then (pinState s g).after (.set p) else pinState s g := by
  obtain ⟨hdriven, hlevel⟩ := driven_set p g s
  rw [pinState, hdriven, hlevel]
  by_cases hp : p = g
  · simp [hp, pinState, PinState.after, field, set, gpioSet]
  · simp [hp, pinState, field, set, gpioSet]

theorem pinState_clr (p g : Pin) (s : Gpio) :
    pinState (clr p s) g = if p = g then (pinState s g).after (.clr p) else pinState s g := by
  obtain ⟨hdriven, hlevel⟩ := driven_clr p g s
  rw [pinState, hdriven, hlevel]
  by_cases hp : p = g
  · simp [hp, pinState, PinState.after, field, clr, gpioClr]
  · simp [hp, pinState, field, clr, gpioClr]

theorem toggle_eq (p : Pin) (s : Gpio) :
    toggle p s = if s.pinLevel.getLsbD p then clr p s else set p s := by
  rw [toggle, pinNoteGet_eq]
  cases s.pinLevel.getLsbD p <;> rfl

theorem pinState_toggle (p g : Pin) (s : Gpio) :
    pinState (toggle p s) g = if p = g then (pinState s g).after (.toggle p) else pinState s g := by
  have hlevel : (pinState s p).level = s.pinLevel.getLsbD p := rfl
  rw [toggle_eq, ← hlevel]
  by_cases hp : p = g
  · subst hp
    cases hl : (pinState s p).level with
    | true =>
      rw [if_pos rfl, pinState_clr, if_pos rfl, if_pos rfl]
      simp only [PinState.after, hl, Bool.not_true]
    | false =>
      rw [if_neg Bool.false_ne_true, pinState_set, if_pos rfl, if_pos rfl]
      simp only [PinState.after, hl, Bool.not_false]
  · rw [if_neg hp]
    split
    · rw [pinState_clr, if_neg hp]
    · rw [pinState_set, if_neg hp]

theorem pinState_of_mode {g : Pin} {s : Gpio} {c : Call}
    (hdriven : (apply s c).driven = s.driven) (hlevel : (apply s c).pinLevel = s.pinLevel) :
    pinState (apply s c) g =
      ⟨((c.mode g).map Mode.code).getD (pinState s g).field, (pinState s g).driven,
        (pinState s g).level,
        ((c.mode g).map fun m => decide (m = .output)).getD (pinState s g).output,
        (pinState s g).alt || decide (c = .selectModuleFunc g)⟩ := by
  rw [pinState, field_apply, pinOutput_apply, pinAlt_apply, hdriven, hlevel]
  rfl

/-- A call does to the pin it names what it is for, and nothing to the others. -/
theorem pinState_apply (s : Gpio) (c : Call) (g : Pin) :
    pinState (apply s c) g = if c.pin = g then (pinState s g).after c else pinState s g := by
  cases c with
  | set p => exact pinState_set p g s
  | clr p => exact pinState_clr p g s
  | toggle p => exact pinState_toggle p g s
  | makeInput p =>
    rw [pinState_of_mode rfl rfl]
    by_cases hp : p = g <;> simp [Call.mode, Call.pin, PinState.after, hp]
  | makeOutput p =>
    rw [pinState_of_mode rfl rfl]
    by_cases hp : p = g <;> simp [Call.mode, Call.pin, PinState.after, hp]
  | selectModuleFunc p =>
    rw [pinState_of_mode rfl rfl]
    by_cases hp : p = g <;> simp [Call.mode, Call.pin, PinState.after, hp]

theorem pinState_run (s : Gpio) (calls : List Call) (g : Pin) :
    pinState (run s calls) g =
      (calls.filter fun c => c.pin = g).foldl PinState.after (pinState s g) := by
  rw [run, List.foldl_filter]
  symm
  apply List.foldl_hom (pinState · g)
  intro s c
  simp only [decide_eq_true_eq]
  exact (pinState_apply s c g).symm

theorem after_of_level_none {q : Pin} {c : Call} (hc : c.level q = none) (hpin : c.pin = q)
    (v : PinState) : (v.after c).driven = (if c = .toggle q then !v.level else v.driven) ∧
      (v.after c).level = (v.level ^^ decide (c = .toggle q)) := by
  subst hpin
  cases c with
  | set g => simp [Call.level, Call.pin] at hc
  | clr g => simp [Call.level, Call.pin] at hc
  | toggle g => simp [PinState.after, Call.pin]
  | makeInput g => simp [PinState.after]
  | makeOutput g => simp [PinState.after]
  | selectModuleFunc g => simp [PinState.after]

theorem driven_toggles {q : Pin} {calls : List Call} {v : PinState} (hsame : v.driven = v.level)
    (hlevel : ∀ c ∈ calls, c.level q = none) (hpin : ∀ c ∈ calls, c.pin = q) :
    (calls.foldl PinState.after v).driven = (v.driven ^^ (calls.count (.toggle q)).bodd) := by
  induction calls generalizing v with
  | nil => simp
  | cons c calls ih =>
    obtain ⟨hc, hlevel⟩ := List.forall_mem_cons.mp hlevel
    obtain ⟨hcp, hpin⟩ := List.forall_mem_cons.mp hpin
    obtain ⟨hdriven, hlev⟩ := after_of_level_none hc hcp v
    rw [List.foldl_cons]
    by_cases ht : c = .toggle q
    · rw [if_pos ht] at hdriven
      rw [ih (by rw [hdriven, hlev]; simp [ht]) hlevel hpin, hdriven, hsame, ht,
        List.count_cons_self, Nat.bodd_succ]
      simp
    · rw [if_neg ht] at hdriven
      rw [ih (by rw [hdriven, hlev, hsame]; simp [ht]) hlevel hpin, hdriven,
        List.count_cons_of_ne ht]

theorem after_of_level {q : Pin} {c : Call} {b : Bool} (hc : c.level q = some b) (v : PinState) :
    c.pin = q ∧ (v.after c).driven = b ∧ (v.after c).level = b := by
  cases c with
  | set g =>
    simp only [Call.level, Option.ite_none_right_eq_some, Option.some.injEq] at hc
    obtain ⟨rfl, rfl⟩ := hc
    exact ⟨rfl, rfl, rfl⟩
  | clr g =>
    simp only [Call.level, Option.ite_none_right_eq_some, Option.some.injEq] at hc
    obtain ⟨rfl, rfl⟩ := hc
    exact ⟨rfl, rfl, rfl⟩
  | toggle | makeInput | makeOutput | selectModuleFunc => cases hc

/-- Whatever the registers and the masks hold, and whatever the calls, no pin sees the calls on
another. -/
theorem independent_run (s : Gpio) (calls : List Call) (q : Pin) : Independent s calls q := by
  constructor
  · rw [pinState_run, pinState_run, List.filter_filter]
    simp only [Bool.and_self]
  · intro before c after b hcalls hc hafter
    have hrun := congrArg PinState.driven (pinState_run s calls q)
    change (run s calls).driven.getLsbD q = _ at hrun
    rw [hrun, hcalls, List.filter_append, List.foldl_append]
    generalize (before.filter fun c => c.pin = q).foldl PinState.after (pinState s q) = v
    obtain ⟨hpin, hdriven, hlevel⟩ := after_of_level hc v
    rw [List.filter_cons_of_pos (by simpa using hpin), List.foldl_cons,
      driven_toggles (hdriven.trans hlevel.symm)
        (fun c hmem => hafter c (List.mem_filter.mp hmem).1)
        (fun c hmem => by simpa using (List.mem_filter.mp hmem).2),
      hdriven, List.count_filter (by simp [Call.pin])]

end RpiCc2520.GpioPins
