import Mathlib

/-! The alarm behind every virtual timer: 32-bit milliseconds that wrap around, turned into an
absolute time of the monotonic clock. -/
namespace RpiCc2520.AlarmTime

structure Timespec where
  tvSec : ℕ
  tvNsec : ℕ
  deriving DecidableEq, Repr

structure Clock extends Timespec where
  nsec_le : tvNsec ≤ 999999999

def Timespec.nanoseconds (t : Timespec) : ℕ := t.tvSec * 1000000000 + t.tvNsec

def Timespec.milliseconds (t : Timespec) : UInt32 :=
  UInt32.ofNat (t.tvSec * 1000 + t.tvNsec / 1000000)

/-- `last_alarm` and the `it_value` the timer was last armed with; both fields zero means that it
is disarmed. -/
structure Alarm where
  lastAlarm : UInt32
  itValue : Timespec

/-- `timer_settime` with `TIMER_ABSTIME`. It fails on nanoseconds that make up a second. -/
def timerSettime (newTimer : Timespec) (s : Alarm) : Alarm :=
  if newTimer.tvNsec ≤ 999999999 then { s with itValue := newTimer } else s

def newTimer (clock : Clock) (t0 dt : UInt32) : Timespec :=
  let elapsed := clock.milliseconds - t0
  if dt ≤ elapsed then ⟨clock.tvSec, clock.tvNsec + 500000⟩
  else
    let remaining := dt - elapsed
    let remainingSeconds := remaining / 1000
    let remainingNanoseconds := (remaining - remainingSeconds * 1000) * 1000000
    let tvSec := clock.tvSec + remainingSeconds.toNat
    let tvNsec := clock.tvNsec + remainingNanoseconds.toNat
    if 999999999 < tvNsec then ⟨tvSec + 1, tvNsec - 999999999⟩ else ⟨tvSec, tvNsec⟩

/-- `Alarm.startAt`; without a reading of the clock nothing is done. -/
def startAt (clock : Option Clock) (t0 dt : UInt32) (s : Alarm) : Alarm :=
  match clock with
  | none => s
  | some clock => timerSettime (newTimer clock t0 dt) { s with lastAlarm := t0 + dt }

def getNow (clock : Option Clock) : UInt32 :=
  match clock with
  | none => 0
  | some clock => clock.milliseconds

/-- `Alarm.start`, which reads the clock twice. -/
def start (first second : Option Clock) (dt : UInt32) (s : Alarm) : Alarm :=
  startAt second (getNow first) dt s

def stop (s : Alarm) : Alarm := timerSettime ⟨0, 0⟩ s

/-- `Alarm.isRunning`, as long as the timer has not expired. -/
def isRunning (s : Alarm) : Bool := s.itValue != ⟨0, 0⟩

def getAlarm (s : Alarm) : UInt32 := s.lastAlarm

/-- The timer is given a time it takes, later than the reading and when the alarm is due. -/
structure ArmsRight (clock : Clock) (t0 dt : UInt32) : Prop where
  valid : (newTimer clock t0 dt).tvNsec ≤ 999999999
  armed : newTimer clock t0 dt ≠ ⟨0, 0⟩
  later : clock.nanoseconds < (newTimer clock t0 dt).nanoseconds
  notEarly : clock.milliseconds - t0 < dt →
    clock.nanoseconds + (dt - (clock.milliseconds - t0)).toNat * 1000000 ≤
      (newTimer clock t0 dt).nanoseconds
  notLate : clock.milliseconds - t0 < dt →
    (newTimer clock t0 dt).nanoseconds ≤
      clock.nanoseconds + (dt - (clock.milliseconds - t0)).toNat * 1000000 + 1000
  reached : clock.milliseconds - t0 < dt →
    (newTimer clock t0 dt).milliseconds = t0 + dt ∨
      (newTimer clock t0 dt).milliseconds = t0 + dt + 1
  overdue : dt ≤ clock.milliseconds - t0 →
    (newTimer clock t0 dt).nanoseconds ≤ clock.nanoseconds + 1000000

variable {clock : Clock} {t0 dt : UInt32}

theorem newTimer_overdue (h : dt ≤ clock.milliseconds - t0) :
    newTimer clock t0 dt = ⟨clock.tvSec, clock.tvNsec + 500000⟩ := if_pos h

theorem nanoseconds_overdue (h : dt ≤ clock.milliseconds - t0) :
    (newTimer clock t0 dt).nanoseconds = clock.nanoseconds + 500000 := by
  rw [newTimer_overdue h]
  exact (Nat.add_assoc _ _ _).symm

theorem remaining_split (remaining : UInt32) :
    (remaining / 1000).toNat = remaining.toNat / 1000 ∧
      ((remaining - remaining / 1000 * 1000) * 1000000).toNat =
        remaining.toNat % 1000 * 1000000 := by
  have hlt := remaining.toNat_lt
  have hdiv : (remaining / 1000).toNat = remaining.toNat / 1000 := UInt32.toNat_div _ _
  have hmul : (remaining / 1000 * 1000).toNat = remaining.toNat / 1000 * 1000 := by
    rw [UInt32.toNat_mul, hdiv]
    exact Nat.mod_eq_of_lt (by change remaining.toNat / 1000 * 1000 < 2 ^ 32; omega)
  have hsub : (remaining - remaining / 1000 * 1000).toNat = remaining.toNat % 1000 := by
    rw [UInt32.toNat_sub_of_le _ _ (by rw [UInt32.le_iff_toNat_le, hmul]; omega), hmul]
    omega
  refine ⟨hdiv, ?_⟩
  rw [UInt32.toNat_mul, hsub]
  exact Nat.mod_eq_of_lt (by change remaining.toNat % 1000 * 1000000 < 2 ^ 32; omega)

/-- A time in the future: the seconds and the nanoseconds of the wait are added, and a carry
costs a nanosecond. -/
theorem newTimer_future (h : clock.milliseconds - t0 < dt) :
    let wait := (dt - (clock.milliseconds - t0)).toNat
    let tvNsec := clock.tvNsec + wait % 1000 * 1000000
    newTimer clock t0 dt = if 999999999 < tvNsec then
        ⟨clock.tvSec + wait / 1000 + 1, tvNsec - 999999999⟩
      else ⟨clock.tvSec + wait / 1000, tvNsec⟩ := by
  obtain ⟨hsec, hnsec⟩ := remaining_split (dt - (clock.milliseconds - t0))
  dsimp only [newTimer]
  rw [if_neg (UInt32.not_le.mpr h), hsec, hnsec]

theorem wait_pos (h : clock.milliseconds - t0 < dt) :
    0 < (dt - (clock.milliseconds - t0)).toNat := by
  have hlt := UInt32.lt_iff_toNat_lt.mp h
  rw [UInt32.toNat_sub_of_le _ _ (UInt32.le_of_lt h)]
  omega

theorem nanoseconds_newTimer (h : clock.milliseconds - t0 < dt) :
    ∃ late ≤ 1, (newTimer clock t0 dt).nanoseconds = clock.nanoseconds +
      (dt - (clock.milliseconds - t0)).toNat * 1000000 + late ∧
      (newTimer clock t0 dt).tvNsec ≤ 999999999 := by
  have hle := clock.nsec_le
  have hnew := newTimer_future h
  dsimp only at hnew
  rw [hnew]
  unfold Timespec.nanoseconds
  split
  · refine ⟨1, le_rfl, ?_, ?_⟩
    · dsimp only
      omega
    · dsimp only
      omega
  · refine ⟨0, by omega, ?_, ?_⟩
    · dsimp only
      omega
    · dsimp only
      omega

theorem milliseconds_toNat (t : Timespec) :
    t.milliseconds.toNat = t.nanoseconds / 1000000 % 2 ^ 32 := by
  rw [Timespec.milliseconds, UInt32.toNat_ofNat', Timespec.nanoseconds]
  congr 1
  omega

theorem milliseconds_newTimer (h : clock.milliseconds - t0 < dt) :
    (newTimer clock t0 dt).milliseconds = t0 + dt ∨
      (newTimer clock t0 dt).milliseconds = t0 + dt + 1 := by
  obtain ⟨late, hlate, hnew, -⟩ := nanoseconds_newTimer h
  have hwait := UInt32.toNat_sub_of_le _ _ (UInt32.le_of_lt h)
  have helapsed := UInt32.toNat_sub clock.milliseconds t0
  have hlt := UInt32.lt_iff_toNat_lt.mp h
  have hnow := milliseconds_toNat clock.toTimespec
  have hthen := milliseconds_toNat (newTimer clock t0 dt)
  have ht0 := t0.toNat_lt
  have hdt := dt.toNat_lt
  rw [hwait] at hnew
  rw [← UInt32.toNat_inj, ← UInt32.toNat_inj, UInt32.toNat_add, UInt32.toNat_add,
    UInt32.toNat_add, UInt32.toNat_one]
  omega

/-- A time that has passed is half a millisecond ahead, in nanoseconds that may make up a
second. -/
theorem armsRight_overdue (h : dt ≤ clock.milliseconds - t0) :
    ArmsRight clock t0 dt ↔ clock.tvNsec + 500000 ≤ 999999999 := by
  have hnot : ¬clock.milliseconds - t0 < dt := UInt32.not_lt.mpr h
  constructor
  · intro ha
    have hvalid := ha.valid
    rwa [newTimer_overdue h] at hvalid
  · intro hle
    constructor
    · rwa [newTimer_overdue h]
    · rw [newTimer_overdue h]
      intro he
      have hnsec : clock.tvNsec + 500000 = 0 := congrArg Timespec.tvNsec he
      omega
    · rw [nanoseconds_overdue h]
      omega
    · exact fun hf => absurd hf hnot
    · exact fun hf => absurd hf hnot
    · exact fun hf => absurd hf hnot
    · intro _
      rw [nanoseconds_overdue h]
      omega

theorem armsRight_future (h : clock.milliseconds - t0 < dt) : ArmsRight clock t0 dt := by
  obtain ⟨late, hlate, hnew, hvalid⟩ := nanoseconds_newTimer h
  have hpos := wait_pos h
  constructor
  · exact hvalid
  · intro hzero
    rw [hzero] at hnew
    simp only [Timespec.nanoseconds] at hnew
    omega
  · omega
  · intro _
    omega
  · intro _
    omega
  · exact milliseconds_newTimer
  · exact fun hle => absurd h (UInt32.not_lt.mpr hle)

/-- The timer is armed right exactly when the alarm is in the future, or half a millisecond more
stays within the second. -/
theorem armsRight_iff (clock : Clock) (t0 dt : UInt32) :
    ArmsRight clock t0 dt ↔
      clock.milliseconds - t0 < dt ∨ clock.tvNsec + 500000 ≤ 999999999 := by
  by_cases h : clock.milliseconds - t0 < dt
  · exact iff_of_true (armsRight_future h) (.inl h)
  · rw [armsRight_overdue (UInt32.not_lt.mp h)]
    exact (or_iff_right h).symm

/-- An alarm for now in the last half millisecond of a second is not set: the timer keeps the time
it had. -/
theorem late_reading_not_armed :
    ¬ArmsRight ⟨⟨5, 999600000⟩, by decide⟩ 5999 0 ∧
      startAt (some ⟨⟨5, 999600000⟩, by decide⟩) 5999 0 ⟨4000, ⟨4, 0⟩⟩ = ⟨5999, ⟨4, 0⟩⟩ := by
  constructor
  · intro ha
    exact absurd ha.valid (by decide)
  · rfl

end RpiCc2520.AlarmTime
