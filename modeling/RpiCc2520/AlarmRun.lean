import RpiCc2520.AlarmTime
import RpiCc2520.EventMachine

/-! The alarm over a run: the clock goes on, the timer expires and raises a signal, and its handler
fires the alarm. -/
namespace RpiCc2520.AlarmRun
open AlarmTime

/-- The clock so many nanoseconds after it began to count. -/
def reading (now : ℕ) : Clock :=
  ⟨⟨now / 1000000000, now % 1000000000⟩, Nat.le_of_lt_succ (Nat.mod_lt _ (by norm_num))⟩

/-- A start the timer was armed for, with the time of its reading of the clock. -/
structure Start where
  now : ℕ
  t0 : UInt32
  dt : UInt32
  deriving DecidableEq

def Start.elapsed (a : Start) : UInt32 := (reading a.now).milliseconds - a.t0

/-- When the alarm is due, in nanoseconds: `dt` after `t0`, or soon if that has passed. -/
def Start.due (a : Start) : ℕ :=
  if a.dt ≤ a.elapsed then a.now + 500000 else a.now + (a.dt - a.elapsed).toNat * 1000000

/-- The clock, the alarm, what it is armed for, what the pending signal is for, the starts that armed
it so far, those it fired for with the time it did, and the time the last start asked for. -/
structure Timer where
  now : ℕ
  alarm : Alarm
  armed : Option Start
  pending : Option Start
  starts : List Start
  fired : List (Start × ℕ)
  asked : UInt32

/-- `Alarm.startAt`. A time the timer does not take leaves it armed for what it was armed for. -/
def startAt (t0 dt : UInt32) (s : Timer) : Timer :=
  let a : Start := ⟨s.now, t0, dt⟩
  let taken := (newTimer (reading s.now) t0 dt).tvNsec ≤ 999999999
  { s with
    alarm := AlarmTime.startAt (some (reading s.now)) t0 dt s.alarm
    armed := if taken then some a else s.armed
    starts := if taken then s.starts ++ [a] else s.starts
    asked := t0 + dt }

/-- `Alarm.start`, which reads the clock twice. -/
def start (between : ℕ) (dt : UInt32) (s : Timer) : Timer :=
  startAt (getNow (some (reading s.now))) dt { s with now := s.now + between }

def stop (s : Timer) : Timer := { s with alarm := AlarmTime.stop s.alarm, armed := none }

/-- The timer expires. While its signal is pending no second one is raised. -/
def expire (s : Timer) : Option Timer :=
  if s.alarm.itValue ≠ ⟨0, 0⟩ ∧ s.alarm.itValue.nanoseconds ≤ s.now then
    some { s with
      alarm := { s.alarm with itValue := ⟨0, 0⟩ }
      armed := none
      pending := s.pending <|> s.armed }
  else none

def alarmMilli32Fired (s : Timer) : Option Timer :=
  s.pending.map fun a => { s with pending := none, fired := s.fired ++ [(a, s.now)] }

/-- A kernel may drop the signal that is pending when the timer is set anew. -/
inductive Event
  | pass (time : ℕ)
  | startAt (t0 dt : UInt32)
  | start (between : ℕ) (dt : UInt32)
  | stop
  | expire
  | drop
  | alarmMilli32Fired

def step (s : Timer) : Event → Option Timer
  | .pass time => some { s with now := s.now + time }
  | .startAt t0 dt => some (startAt t0 dt s)
  | .start between dt => some (start between dt s)
  | .stop => some (stop s)
  | .expire => expire s
  | .drop => some { s with pending := none }
  | .alarmMilli32Fired => alarmMilli32Fired s

/-- After `Init.init`. -/
structure Booted (s : Timer) : Prop where
  alarm : s.alarm = ⟨0, ⟨0, 0⟩⟩
  armed : s.armed = none
  pending : s.pending = none
  starts : s.starts = []
  fired : s.fired = []
  asked : s.asked = 0

def machine : Machine Timer Event := ⟨Booted, step⟩

/-- Each start that armed the timer fires once at most, in order, and none before it is due: whoever
looks at the time then finds that `dt` has gone by since `t0`, as long as the milliseconds have not
come round. The alarm is running just when it is armed, and then it does fire, within a nanosecond of
the time it is due or at once. -/
structure Punctual (s : Timer) : Prop where
  once : (s.fired.map Prod.fst).Sublist s.starts
  due : ∀ f ∈ s.fired, f.1.due ≤ f.2
  seen : ∀ f ∈ s.fired, f.1.elapsed.toNat + (f.2 / 1000000 - f.1.now / 1000000) < 2 ^ 32 →
    f.1.dt ≤ getNow (some (reading f.2)) - f.1.t0
  running : isRunning s.alarm = s.armed.isSome
  alarm : getAlarm s.alarm = s.asked
  fires : ∀ a, s.armed = some a → s.pending = none → ∃ es t, machine.run s es = some t ∧
    t.fired = s.fired ++ [(a, t.now)] ∧ t.now ≤ max s.now (a.due + 1)

/-- What the timer is armed for, in the time it was given. -/
structure Sound (s : Timer) : Prop where
  order : (s.fired.map Prod.fst ++ s.pending.toList ++ s.armed.toList).Sublist s.starts
  fired : ∀ f ∈ s.fired, f.1.due ≤ f.2 ∧ f.1.now ≤ f.2
  pending : ∀ a, s.pending = some a → a.due ≤ s.now ∧ a.now ≤ s.now
  armed : ∀ a, s.armed = some a → a.due ≤ s.alarm.itValue.nanoseconds ∧
    s.alarm.itValue.nanoseconds ≤ a.due + 1 ∧ a.now ≤ s.now
  off : s.armed = none → s.alarm.itValue = ⟨0, 0⟩
  asked : s.alarm.lastAlarm = s.asked

@[simp] theorem nanoseconds_reading (now : ℕ) : (reading now).nanoseconds = now := by
  change now / 1000000000 * 1000000000 + now % 1000000000 = now
  omega

theorem now_lt_due (a : Start) : a.now < a.due := by
  unfold Start.due
  split_ifs with h
  · omega
  · have hpos : 0 < (a.dt - a.elapsed).toNat := wait_pos (UInt32.not_le.mp h)
    omega

/-- The timer is given the time the alarm is due, or a nanosecond more. -/
theorem due_newTimer (a : Start) :
    a.due ≤ (newTimer (reading a.now) a.t0 a.dt).nanoseconds ∧
      (newTimer (reading a.now) a.t0 a.dt).nanoseconds ≤ a.due + 1 := by
  unfold Start.due Start.elapsed
  split_ifs with h
  · rw [nanoseconds_overdue h, nanoseconds_reading]
    omega
  · obtain ⟨late, hlate, hnew, -⟩ := nanoseconds_newTimer (UInt32.not_le.mp h)
    rw [hnew, nanoseconds_reading]
    omega

theorem toNat_sub_t0 (a : Start) {time : ℕ} (hle : a.now ≤ time)
    (hround : a.elapsed.toNat + (time / 1000000 - a.now / 1000000) < 2 ^ 32) :
    ((reading time).milliseconds - a.t0).toNat =
      a.elapsed.toNat + (time / 1000000 - a.now / 1000000) := by
  have hnow := milliseconds_toNat (reading a.now).toTimespec
  have hthen := milliseconds_toNat (reading time).toTimespec
  rw [nanoseconds_reading] at hnow hthen
  have helapsed : a.elapsed.toNat = _ := UInt32.toNat_sub (reading a.now).milliseconds a.t0
  have hdiv : a.now / 1000000 ≤ time / 1000000 := Nat.div_le_div_right hle
  have ht0 := a.t0.toNat_lt
  rw [UInt32.toNat_sub, hthen]
  rw [hnow] at helapsed
  omega

theorem seen_of_due (a : Start) {time : ℕ} (hle : a.now ≤ time) (hdue : a.due ≤ time)
    (hround : a.elapsed.toNat + (time / 1000000 - a.now / 1000000) < 2 ^ 32) :
    a.dt ≤ getNow (some (reading time)) - a.t0 := by
  have hsub := toNat_sub_t0 a hle hround
  change a.dt ≤ (reading time).milliseconds - a.t0
  rw [UInt32.le_iff_toNat_le, hsub]
  unfold Start.due at hdue
  split_ifs at hdue with h
  · have hdt := UInt32.le_iff_toNat_le.mp h
    omega
  · have hlt := UInt32.not_le.mp h
    have hwait := UInt32.toNat_sub_of_le _ _ (UInt32.le_of_lt hlt)
    have hdt := UInt32.lt_iff_toNat_lt.mp hlt
    rw [hwait] at hdue
    omega

theorem sound_booted {s : Timer} (h : Booted s) : Sound s := by
  obtain ⟨alarm, armed, pending, starts, fired, asked⟩ := h
  refine ⟨?_, ?_, ?_, ?_, fun _ => ?_, ?_⟩
  · rw [fired, pending, armed, starts]
    exact List.Sublist.refl []
  · simp [fired]
  · simp [pending]
  · simp [armed]
  · rw [alarm]
  · rw [alarm, asked]

theorem Sound.due {s : Timer} (h : Sound s) : ∀ f ∈ s.fired, f.1.due ≤ f.2 :=
  fun f hf => (h.fired f hf).1

theorem sound_pass {s : Timer} (h : Sound s) (time : ℕ) : Sound { s with now := s.now + time } := by
  refine ⟨h.order, h.fired, fun a ha => ?_, fun a ha => ?_, h.off, h.asked⟩
  · obtain ⟨hdue, hnow⟩ := h.pending a ha
    exact ⟨hdue.trans (Nat.le_add_right _ _), hnow.trans (Nat.le_add_right _ _)⟩
  · obtain ⟨hlow, hhigh, hnow⟩ := h.armed a ha
    exact ⟨hlow, hhigh, hnow.trans (Nat.le_add_right _ _)⟩

theorem sound_startAt {s : Timer} (h : Sound s) (t0 dt : UInt32) : Sound (startAt t0 dt s) := by
  by_cases htaken : (newTimer (reading s.now) t0 dt).tvNsec ≤ 999999999
  · have halarm : AlarmTime.startAt (some (reading s.now)) t0 dt s.alarm =
        ⟨t0 + dt, newTimer (reading s.now) t0 dt⟩ := if_pos htaken
    unfold startAt
    rw [halarm]
    simp only [htaken, if_true]
    obtain ⟨hlow, hhigh⟩ := due_newTimer ⟨s.now, t0, dt⟩
    refine ⟨?_, h.fired, h.pending, ?_, (by simp), rfl⟩
    · have horder := (List.sublist_append_left _ _).trans h.order
      exact horder.append (List.Sublist.refl _)
    · rintro a ha
      obtain rfl := Option.some.inj ha
      exact ⟨hlow, hhigh, le_rfl⟩
  · have halarm : AlarmTime.startAt (some (reading s.now)) t0 dt s.alarm =
        { s.alarm with lastAlarm := t0 + dt } := if_neg htaken
    unfold startAt
    rw [halarm]
    simp only [htaken, if_false]
    exact ⟨h.order, h.fired, h.pending, h.armed, h.off, rfl⟩

theorem sound_stop {s : Timer} (h : Sound s) : Sound (stop s) := by
  refine ⟨?_, h.fired, h.pending, (by simp [stop]), fun _ => rfl, h.asked⟩
  exact (List.append_nil _).symm ▸ (List.sublist_append_left _ _).trans h.order

theorem sound_drop {s : Timer} (h : Sound s) : Sound { s with pending := none } := by
  refine ⟨?_, h.fired, (by simp), h.armed, h.off, h.asked⟩
  have hsub : (s.fired.map Prod.fst ++ (none : Option Start).toList).Sublist
      (s.fired.map Prod.fst ++ s.pending.toList) :=
    (List.Sublist.refl _).append (List.nil_sublist _)
  exact (hsub.append (List.Sublist.refl _)).trans h.order

theorem sound_expire {s t : Timer} (h : Sound s) (hst : expire s = some t) : Sound t := by
  obtain ⟨⟨-, hexpired⟩, hst⟩ := Option.ite_none_right_eq_some.mp hst
  obtain rfl := Option.some.inj hst
  have horder := h.order
  cases hp : s.pending with
  | some b =>
    -- the signal is pending already: this one is not seen
    simp only [hp] at horder ⊢
    refine ⟨?_, h.fired, fun a ha => ?_, (by simp), fun _ => rfl, h.asked⟩
    · exact (List.append_nil _).symm ▸ (List.sublist_append_left _ _).trans horder
    · obtain rfl := Option.some.inj ha
      exact h.pending b hp
  | none =>
    simp only [hp] at horder ⊢
    refine ⟨?_, h.fired, fun a ha => ?_, (by simp), fun _ => rfl, h.asked⟩
    · simpa using horder
    · obtain ⟨hlow, -, hnow⟩ := h.armed a ha
      exact ⟨hlow.trans hexpired, hnow⟩

theorem sound_fired {s t : Timer} (h : Sound s) (hst : alarmMilli32Fired s = some t) :
    Sound t := by
  obtain ⟨a, hp, rfl⟩ := Option.map_eq_some_iff.mp hst
  have horder := h.order
  rw [hp] at horder
  refine ⟨?_, ?_, (by simp), h.armed, h.off, h.asked⟩
  · simpa using horder
  · intro f hf
    rcases List.mem_append.mp hf with hf | hf
    · exact h.fired f hf
    · obtain rfl := List.mem_singleton.mp hf
      exact h.pending a hp

theorem sound_step {s t : Timer} {e : Event} (h : Sound s) (hst : step s e = some t) :
    Sound t := by
  cases e with
  | pass time =>
    obtain rfl := Option.some.inj hst
    exact sound_pass h time
  | startAt t0 dt =>
    obtain rfl := Option.some.inj hst
    exact sound_startAt h t0 dt
  | start between dt =>
    obtain rfl := Option.some.inj hst
    exact sound_startAt (sound_pass h between) _ dt
  | stop =>
    obtain rfl := Option.some.inj hst
    exact sound_stop h
  | expire => exact sound_expire h hst
  | drop =>
    obtain rfl := Option.some.inj hst
    exact sound_drop h
  | alarmMilli32Fired => exact sound_fired h hst

theorem Sound.itValue_ne {s : Timer} (h : Sound s) {a : Start} (ha : s.armed = some a) :
    s.alarm.itValue ≠ ⟨0, 0⟩ := by
  intro hzero
  have hlow := (h.armed a ha).1
  have hlt := now_lt_due a
  rw [hzero] at hlow
  simp only [Timespec.nanoseconds] at hlow
  omega

theorem Sound.running {s : Timer} (h : Sound s) : isRunning s.alarm = s.armed.isSome := by
  cases ha : s.armed with
  | none =>
    rw [isRunning, h.off ha]
    rfl
  | some a =>
    rw [isRunning, bne_iff_ne.mpr (h.itValue_ne ha)]
    rfl

theorem Sound.fires {s : Timer} (h : Sound s) {a : Start} (ha : s.armed = some a)
    (hp : s.pending = none) : ∃ es t, machine.run s es = some t ∧
      t.fired = s.fired ++ [(a, t.now)] ∧ t.now ≤ max s.now (a.due + 1) := by
  obtain ⟨-, hhigh, -⟩ := h.armed a ha
  have hlate : s.alarm.itValue.nanoseconds ≤
      s.now + (s.alarm.itValue.nanoseconds - s.now) := by omega
  let wait := s.alarm.itValue.nanoseconds - s.now
  have hexpire : expire { s with now := s.now + wait } = some { s with
      now := s.now + wait
      alarm := { s.alarm with itValue := ⟨0, 0⟩ }
      armed := none
      pending := some a } := by
    unfold expire
    rw [if_pos ⟨h.itValue_ne ha, hlate⟩]
    simp only [hp, ha]
    rfl
  refine ⟨[.pass wait, .expire, .alarmMilli32Fired], { s with
    now := s.now + wait
    alarm := { s.alarm with itValue := ⟨0, 0⟩ }
    armed := none
    pending := none
    fired := s.fired ++ [(a, s.now + wait)] }, ?_, rfl, ?_⟩
  · change (expire { s with now := s.now + wait }).bind _ = _
    rw [hexpire]
    rfl
  · change s.now + wait ≤ _
    omega

/-- Whatever is started and stopped, and whenever the signal is handled. -/
theorem punctual_of_reachable (s : Timer) (h : machine.Reachable Machine.Any s) : Punctual s := by
  have hs : Sound s := by
    apply h.invariant (I := Sound)
    · exact fun s hb => sound_booted hb
    · exact fun s e t hs _ hst => sound_step hs hst
  refine ⟨?_, hs.due, fun f hf hround => ?_, hs.running, hs.asked, fun a ha hp => hs.fires ha hp⟩
  · have horder := hs.order
    rw [List.append_assoc] at horder
    exact (List.sublist_append_left _ _).trans horder
  · obtain ⟨hdue, hnow⟩ := hs.fired f hf
    exact seen_of_due f.1 hnow hdue hround

/-- Just before the milliseconds come round. -/
def boot : Timer := ⟨4294967295999999, ⟨0, ⟨0, 0⟩⟩, none, none, [], [], 0⟩

/-- An alarm for 3 ms is superseded by one for 5, which expires, and is stopped when its signal is
on its way. -/
def session : List Event :=
  [.start 0 3, .pass 1000000, .start 10 5, .pass 7000000, .expire, .stop, .alarmMilli32Fired]

theorem punctual_of_reachable_round : ∃ s, machine.run boot session = some s ∧
    s.starts.map (fun a => (a.t0, a.dt)) = [(4294967295, 3), (0, 5)] ∧
    s.fired.map (fun f => (f.1.t0, getNow (some (reading f.2)))) = [(0, 8)] ∧ Punctual s := by
  have hseen : (machine.run boot session).map (fun s => (s.starts.map (fun a => (a.t0, a.dt)),
      s.fired.map fun f => (f.1.t0, getNow (some (reading f.2))))) =
      some ([(4294967295, 3), (0, 5)], [(0, 8)]) := by decide +kernel
  obtain ⟨s, hs, hout⟩ := Option.map_eq_some_iff.mp hseen
  obtain ⟨hstarts, hfired⟩ := Prod.mk.inj hout
  have hboot : machine.Reachable Machine.Any boot := .start ⟨rfl, rfl, rfl, rfl, rfl, rfl⟩
  exact ⟨s, hs, hstarts, hfired, punctual_of_reachable s (hboot.run session hs)⟩

end RpiCc2520.AlarmRun
