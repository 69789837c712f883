import RpiCc2520.EventMachine
import RpiCc2520.SignalMask

/-! The scheduler's main loop and the sleep of the mote: signals are unblocked in one step,
the process blocks in `select` in a later one. -/
namespace RpiCc2520.SchedulerSleep
open SignalMask

/-- Where the main program is. The atomic section of the loop spans `popTask` to
`atomicEnd`, `McuSleep.sleep` the points from `enable` to `disable`; from `waitForIO` on the
read set is being built, and `select` is being blocked in the call. -/
inductive Pc (τ : Type*)
  | atomicStart
  | popTask
  | enable
  | waitForIo
  | select
  | received
  | disable
  | atomicEnd (task : τ)
  | run (task : τ)

/-- `reenable` is what the loop's atomic section was started with. `posted` are the tasks
accepted so far and `ran` those that have run, both oldest first. -/
structure Mote (σ τ : Type*) where
  pc : Pc τ
  signals : Signals σ
  reenable : Bool
  queue : List τ
  posted : List τ
  ran : List τ

variable {σ τ : Type*}

/-- One step of the main program. `ready` says whether `select` finds a descriptor ready. -/
def mainStep (ready : Bool) (s : Mote σ τ) : Option (Mote σ τ) :=
  match s.pc with
  | .atomicStart =>
      let (reenable, signals) := nescAtomicStart s.signals
      some { s with reenable := reenable, signals := signals, pc := .popTask }
  | .popTask =>
      match s.queue with
      | [] => some { s with pc := .enable }
      | task :: queue => some { s with queue := queue, pc := .atomicEnd task }
  | .enable => some { s with signals := nescEnableInterrupt s.signals, pc := .waitForIo }
  | .waitForIo => some { s with pc := if ready then .received else .select }
  | .select => if ready then some { s with pc := .received } else none
  | .received => some { s with pc := .disable }
  | .disable => some { s with signals := nescDisableInterrupt s.signals, pc := .popTask }
  | .atomicEnd task =>
      some { s with signals := nescAtomicEnd s.reenable s.signals, pc := .run task }
  | .run task => some { s with ran := s.ran ++ [task], pc := .atomicStart }

/-- `post`: an atomic section, in which a task that is queued already is not queued again. -/
def post [DecidableEq τ] (task : τ) (s : Mote σ τ) : Mote σ τ :=
  let (reenable, signals) := nescAtomicStart s.signals
  let s := if task ∈ s.queue then s
    else { s with queue := s.queue ++ [task], posted := s.posted ++ [task] }
  { s with signals := nescAtomicEnd reenable signals }

/-- A running task or handler and the events of ready descriptors post tasks. -/
def MayPost (s : Mote σ τ) : Prop :=
  s.signals.saved ≠ [] ∨ s.pc = .received ∨ ∃ task, s.pc = .run task

instance [DecidableEq τ] (s : Mote σ τ) : Decidable (MayPost s) :=
  match h : s.pc with
  | .received => .isTrue (.inr (.inl h))
  | .run task => .isTrue (.inr (.inr ⟨task, h⟩))
  | .atomicStart | .popTask | .enable | .waitForIo | .select | .disable | .atomicEnd _ =>
      decidable_of_iff (s.signals.saved.isEmpty = false) (by simp [MayPost, h])

inductive Event (σ τ : Type*)
  | main (ready : Bool)
  | arrive (sig : σ)
  | deliver (sig : σ)
  | handlerReturn
  | post (task : τ)

/-- The main program waits for running handlers. A handler that starts while the process is
blocked makes `select` return with `EINTR`. -/
def step [DecidableEq σ] [DecidableEq τ] (s : Mote σ τ) : Event σ τ → Option (Mote σ τ)
  | .main ready => if Settled s.signals ∧ s.signals.saved = [] then mainStep ready s else none
  | .arrive sig => some { s with signals := arrive sig s.signals }
  | .deliver sig => (deliver sig s.signals).map fun signals =>
      { s with
        signals := signals
        pc := match s.pc with
          | .select => .disable
          | pc => pc }
  | .handlerReturn => if Settled s.signals then
      (handlerReturn s.signals).map fun signals => { s with signals := signals }
    else none
  | .post task => if Settled s.signals ∧ MayPost s then some (post task s) else none

def Booted (s : Mote σ τ) : Prop :=
  s.pc = .atomicStart ∧ s.signals.saved = [] ∧ s.signals.interuptsEnabled = true ∧
    s.posted = s.queue ∧ s.ran = []

def machine [DecidableEq σ] [DecidableEq τ] : Machine (Mote σ τ) (Event σ τ) := ⟨Booted, step⟩

/-- The process is blocked only with an empty queue: every task posted before has run. -/
def SleepsIdle (s : Mote σ τ) : Prop := s.pc = .select → s.queue = [] ∧ s.ran = s.posted

/-- No task is posted between the unblocking of signals and the entry into `select`. -/
def NoPostBeforeSelect (s : Mote σ τ) (e : Event σ τ) : Prop :=
  ∀ task, e = .post task → s.pc ≠ .waitForIo

namespace Pc

def current : Pc τ → List τ
  | .atomicEnd task => [task]
  | .run task => [task]
  | _ => []

/-- The points inside the atomic section at which signals are blocked. -/
inductive Masked : Pc τ → Prop
  | popTask : Masked .popTask
  | enable : Masked .enable
  | atomicEnd (task : τ) : Masked (.atomicEnd task)

/-- The points on the way to sleep, after the queue was found empty. -/
inductive Sleepy : Pc τ → Prop
  | enable : Sleepy .enable
  | waitForIo : Sleepy .waitForIo
  | select : Sleepy .select

end Pc

structure Watched (s : Mote σ τ) : Prop where
  masked : s.pc.Masked → (∀ sig, s.signals.mask sig = true) ∧ s.signals.saved = []
  blocked : s.pc = .select → s.signals.saved = []
  empty : s.pc.Sleepy → s.queue = []
  order : s.posted = s.ran ++ (s.pc.current ++ s.queue)

theorem watched_booted {s : Mote σ τ} (h : Booted s) : Watched s := by
  obtain ⟨hpc, hsaved, -, hposted, hran⟩ := h
  refine ⟨?_, ?_, ?_, ?_⟩
  · rw [hpc]; nofun
  · rw [hpc]; nofun
  · rw [hpc]; nofun
  · rw [hpc, hposted, hran]; rfl

theorem watched_main {s t : Mote σ τ} {ready : Bool} (h : Watched s)
    (idle : s.signals.saved = []) (hst : mainStep ready s = some t) : Watched t := by
  have horder := h.order
  unfold mainStep at hst
  cases hpc : s.pc with
  | atomicStart =>
    simp only [hpc] at hst horder
    cases hst
    exact ⟨fun _ => ⟨fun _ => rfl, idle⟩, nofun, nofun, horder⟩
  | popTask =>
    have hmask := h.masked (hpc ▸ .popTask)
    cases hq : s.queue with
    | nil =>
      simp only [hpc, hq] at hst horder
      cases hst
      exact ⟨fun _ => hmask, nofun, fun _ => rfl, horder⟩
    | cons task queue =>
      simp only [hpc, hq] at hst horder
      cases hst
      exact ⟨fun _ => hmask, nofun, nofun, horder⟩
  | enable =>
    have hempty := h.empty (hpc ▸ .enable)
    simp only [hpc] at hst horder
    cases hst
    exact ⟨nofun, nofun, fun _ => hempty, horder⟩
  | waitForIo =>
    have hempty := h.empty (hpc ▸ .waitForIo)
    simp only [hpc] at hst horder
    cases hst
    cases ready with
    | false => exact ⟨nofun, fun _ => idle, fun _ => hempty, horder⟩
    | true => exact ⟨nofun, nofun, nofun, horder⟩
  | select =>
    simp only [hpc, Option.ite_none_right_eq_some] at hst horder
    obtain ⟨-, hst⟩ := hst
    cases hst
    exact ⟨nofun, nofun, nofun, horder⟩
  | received =>
    simp only [hpc] at hst horder
    cases hst
    exact ⟨nofun, nofun, nofun, horder⟩
  | disable =>
    simp only [hpc] at hst horder
    cases hst
    exact ⟨fun _ => ⟨fun _ => rfl, idle⟩, nofun, nofun, horder⟩
  | atomicEnd task =>
    simp only [hpc] at hst horder
    cases hst
    exact ⟨nofun, nofun, nofun, horder⟩
  | run task =>
    simp only [hpc] at hst horder
    cases hst
    exact ⟨nofun, nofun, nofun, by simp [horder, Pc.current]⟩

theorem pc_post [DecidableEq τ] {task : τ} {s : Mote σ τ} : (post task s).pc = s.pc := by
  unfold post
  dsimp only
  split <;> rfl

/-- A post needs a handler, a task or a ready descriptor, none of which is there while
signals are blocked or the process is in `select`. -/
theorem watched_post [DecidableEq τ] {s : Mote σ τ} {task : τ} (h : Watched s) (may : MayPost s)
    (ok : s.pc ≠ .waitForIo) : Watched (post task s) := by
  have hmasked : ¬s.pc.Masked := by
    intro hm
    rcases may with hs | hr | ⟨t, hr⟩
    · exact hs (h.masked hm).2
    · rw [hr] at hm; nomatch hm
    · rw [hr] at hm; nomatch hm
  have hselect : s.pc ≠ .select := by
    intro hc
    rcases may with hs | hr | ⟨t, hr⟩
    · exact hs (h.blocked hc)
    · rw [hc] at hr; nomatch hr
    · rw [hc] at hr; nomatch hr
  have hsleepy : ¬s.pc.Sleepy := by
    intro hs
    generalize hpc : s.pc = pc at hs
    cases hs with
    | enable => exact hmasked (hpc ▸ .enable)
    | waitForIo => exact ok hpc
    | select => exact hselect hpc
  have hpc : (post task s).pc = s.pc := pc_post
  refine ⟨fun hm => absurd (hpc ▸ hm) hmasked, fun hc => absurd (hpc ▸ hc) hselect,
    fun hs => absurd (hpc ▸ hs) hsleepy, ?_⟩
  unfold post
  dsimp only
  split
  · exact h.order
  · simp [h.order]

theorem watched_deliver [DecidableEq σ] {s : Mote σ τ} {sig : σ} {signals : Signals σ}
    (h : Watched s) (hd : deliver sig s.signals = some signals) :
    Watched { s with
      signals := signals
      pc := match s.pc with
        | .select => .disable
        | pc => pc } := by
  have hmask := (deliver_eq_some hd).1
  have hmasked : ¬s.pc.Masked := fun hm => absurd ((h.masked hm).1 sig) (by simp [hmask])
  have horder := h.order
  cases hpc : s.pc with
  | select =>
    simp only [hpc] at horder ⊢
    exact ⟨nofun, nofun, nofun, horder⟩
  | popTask => exact absurd (hpc ▸ .popTask) hmasked
  | enable => exact absurd (hpc ▸ .enable) hmasked
  | atomicEnd task => exact absurd (hpc ▸ .atomicEnd task) hmasked
  | waitForIo =>
    simp only [hpc] at horder ⊢
    exact ⟨nofun, nofun, fun _ => h.empty (hpc ▸ .waitForIo), horder⟩
  | atomicStart | received | disable | run =>
    simp only [hpc] at horder ⊢
    exact ⟨nofun, nofun, nofun, horder⟩

theorem watched_handlerReturn {s : Mote σ τ} {signals : Signals σ} (h : Watched s)
    (hr : handlerReturn s.signals = some signals) : Watched { s with signals := signals } := by
  have hne : s.signals.saved ≠ [] := by
    rw [handlerReturn_eq_some hr]
    exact List.cons_ne_nil _ _
  exact ⟨fun hm => absurd (h.masked hm).2 hne, fun hc => absurd (h.blocked hc) hne, h.empty,
    h.order⟩

/-- The main program gets nearer to sleep only from an empty queue. -/
theorem queue_of_mainStep {ready : Bool} {s t : Mote σ τ} (h : mainStep ready s = some t)
    (ht : t.pc.Sleepy) : t.queue = [] ∨ s.pc.Sleepy ∧ t.queue = s.queue := by
  unfold mainStep at h
  cases hpc : s.pc with
  | popTask =>
    cases hq : s.queue with
    | nil =>
      simp only [hpc, hq] at h
      cases h
      exact .inl rfl
    | cons task queue =>
      simp only [hpc, hq] at h
      cases h
      cases ht
  | enable =>
    simp only [hpc] at h
    cases h
    exact .inr ⟨.enable, rfl⟩
  | waitForIo =>
    simp only [hpc] at h
    cases h
    exact .inr ⟨.waitForIo, rfl⟩
  | select =>
    simp only [hpc, Option.ite_none_right_eq_some] at h
    obtain ⟨-, h⟩ := h
    cases h
    cases ht
  | atomicStart | received | disable | atomicEnd | run =>
    simp only [hpc] at h
    cases h
    cases ht

theorem mem_queue_post [DecidableEq τ] {task other : τ} {s : Mote σ τ}
    (h : other ∈ (post task s).queue) : other ∈ s.queue ∨ other = task := by
  unfold post at h
  dsimp only at h
  split at h
  · exact .inl h
  · simpa using h

variable [DecidableEq σ] [DecidableEq τ]

theorem watched_step {s t : Mote σ τ} {e : Event σ τ} (h : Watched s)
    (ok : NoPostBeforeSelect s e) (hst : step s e = some t) : Watched t := by
  cases e with
  | main ready =>
    simp only [step, Option.ite_none_right_eq_some] at hst
    obtain ⟨⟨-, idle⟩, hst⟩ := hst
    exact watched_main h idle hst
  | arrive sig =>
    cases hst
    exact ⟨h.masked, h.blocked, h.empty, h.order⟩
  | deliver sig =>
    obtain ⟨signals, hd, hst⟩ := Option.map_eq_some_iff.mp hst
    cases hst
    exact watched_deliver h hd
  | handlerReturn =>
    simp only [step, Option.ite_none_right_eq_some] at hst
    obtain ⟨-, hst⟩ := hst
    obtain ⟨signals, hr, hst⟩ := Option.map_eq_some_iff.mp hst
    cases hst
    exact watched_handlerReturn h hr
  | post task =>
    simp only [step, Option.ite_none_right_eq_some] at hst
    obtain ⟨⟨-, may⟩, hst⟩ := hst
    cases hst
    exact watched_post h may (ok task rfl)

/-- Where nothing is posted in the gap before `select`, the mote sleeps with nothing to do. -/
theorem sleepsIdle_of_noPostBeforeSelect (s : Mote σ τ)
    (h : machine.Reachable NoPostBeforeSelect s) : SleepsIdle s := by
  have hw : Watched s := h.invariant (fun _ => watched_booted) fun _ _ _ => watched_step
  intro hpc
  have hempty := hw.empty (hpc ▸ .select)
  refine ⟨hempty, ?_⟩
  rw [hw.order, hpc, hempty]
  simp [Pc.current]

/-- The task is posted only by the event of a ready descriptor. -/
def PostedWhenReceived (task : τ) (s : Mote σ τ) (e : Event σ τ) : Prop :=
  e = .post task → s.pc = .received

theorem not_mem_queue_step {task : τ} {s t : Mote σ τ} {e : Event σ τ}
    (h : s.pc.Sleepy → task ∉ s.queue) (hposts : PostedWhenReceived task s e)
    (hst : step s e = some t) (ht : t.pc.Sleepy) : task ∉ t.queue := by
  cases e with
  | main ready =>
    simp only [step, Option.ite_none_right_eq_some] at hst
    rcases queue_of_mainStep hst.2 ht with hempty | ⟨hs, hsame⟩
    · rw [hempty]
      exact List.not_mem_nil
    · rw [hsame]
      exact h hs
  | arrive sig =>
    cases hst
    exact h ht
  | deliver sig =>
    obtain ⟨signals, -, hst⟩ := Option.map_eq_some_iff.mp hst
    cases hst
    apply h
    cases hpc : s.pc with
    | select => exact .select
    | atomicStart | popTask | enable | waitForIo | received | disable | atomicEnd | run =>
      simpa only [hpc] using ht
  | handlerReturn =>
    simp only [step, Option.ite_none_right_eq_some] at hst
    obtain ⟨signals, -, hst⟩ := Option.map_eq_some_iff.mp hst.2
    cases hst
    exact h ht
  | post other =>
    simp only [step, Option.ite_none_right_eq_some] at hst
    obtain ⟨-, hst⟩ := hst
    cases hst
    rw [pc_post] at ht
    intro hmem
    rcases mem_queue_post hmem with hmem | rfl
    · exact h ht hmem
    · rw [hposts rfl] at ht
      cases ht

/-- A task that ready descriptors post has run when they are looked at again. -/
theorem not_mem_queue_of_sleepy {task : τ} {s : Mote σ τ}
    (h : machine.Reachable (PostedWhenReceived task) s) :
    s.pc.Sleepy → task ∉ s.queue :=
  h.invariant (I := fun s => s.pc.Sleepy → task ∉ s.queue)
    (fun s hb hs => by rw [hb.1] at hs; cases hs) fun _ _ _ => not_mem_queue_step

/-- The signals of the two handlers: the alarm and the interrupt process. -/
inductive MoteSignal
  | sigalrm
  | sigusr1
  deriving DecidableEq

def bootedMote : Mote MoteSignal ℕ :=
  ⟨.atomicStart, ⟨fun _ => false, [], [], true, fun _ => false⟩, false, [1], [1], []⟩

theorem booted_bootedMote : Booted bootedMote := ⟨rfl, rfl, rfl, rfl, rfl⟩

instance (s : Mote MoteSignal ℕ) : DecidablePred (NoPostBeforeSelect s)
  | .post task => match h : s.pc with
      | .waitForIo => .isFalse fun ok => ok task rfl h
      | .atomicStart | .popTask | .enable | .select | .received | .disable | .atomicEnd _
      | .run _ => .isTrue fun _ _ hpc => by cases h.symm.trans hpc
  | .main _ | .arrive _ | .deliver _ | .handlerReturn => .isTrue nofun

/-- The main program runs a task and comes to `select`. -/
def untilSelect : List (Event MoteSignal ℕ) := List.replicate 8 (.main false)

/-- An alarm posts a task while the process sleeps. -/
def session : List (Event MoteSignal ℕ) :=
  untilSelect ++ [.arrive .sigalrm, .deliver .sigalrm, .post 2, .handlerReturn] ++ untilSelect

/-- The mote sleeps after its first task, and again after the task an alarm posts. -/
theorem sleepsIdle_of_noPostBeforeSelect_alarm :
    ∃ s : Mote MoteSignal ℕ, machine.Reachable NoPostBeforeSelect s ∧ s.pc = .select ∧
      s.ran = [1, 2] ∧ SleepsIdle s := by
  have hseen : (machine.runMeeting NoPostBeforeSelect bootedMote session).map
      (fun s => (s.pc, s.ran)) = some (.select, [1, 2]) := rfl
  obtain ⟨s, hs, he⟩ := Option.map_eq_some_iff.mp hseen
  obtain ⟨hpc, hran⟩ := Prod.mk.inj he
  have hreach := (Machine.Reachable.start booted_bootedMote).runMeeting session hs
  exact ⟨s, hreach, hpc, hran, sleepsIdle_of_noPostBeforeSelect s hreach⟩

/-- An alarm held back while the queue is found empty is delivered when signals are unblocked.
Its task is posted before `select`, and the process blocks all the same. -/
theorem pending_alarm_lost :
    ¬∀ s : Mote MoteSignal ℕ, machine.Reachable Machine.Any s → SleepsIdle s := by
  intro h
  have h0 : machine.Reachable Machine.Any bootedMote := .start booted_bootedMote
  have hs := h _ (h0.run [.main false, .main false, .main false, .main false,
    .main false, .arrive .sigalrm, .main false, .main false, .deliver .sigalrm, .post 2,
    .handlerReturn, .main false] rfl)
  exact absurd (hs rfl).1 (List.cons_ne_nil 2 [])

end RpiCc2520.SchedulerSleep
