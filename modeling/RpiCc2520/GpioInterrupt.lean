import RpiCc2520.SignalAtomic

/-! Interrupts of the pins: a child process waits for edges and queues a signal with the number of
the pin to the parent, whose handler signals the event for that pin. -/
namespace RpiCc2520.GpioInterrupt
open SignalMask SignalAtomic

variable {σ : Type*}

def pins : List ℕ := [2, 7, 8, 9, 10, 11, 14, 15, 18, 27]

inductive Setting
  | none
  | rising
  | falling
  deriving DecidableEq

structure InterruptSetting where
  pinNumber : ℕ
  setting : Setting

/-- `gpio_value_fds`: each value file has a descriptor of its own. -/
structure GpioValueFds where
  fds : List ℕ
  length_eq : fds.length = pins.length
  nodup : fds.Nodup

/-- The parent with its signals, what the pending `SIGUSR1` carries, and for each handler in it,
innermost first, the pin its `InterruptSignal` has yet to signal. Then the settings in the pipe,
the value files in the epoll of the child, the pins of the edges it has consumed and the pins whose
`Port1.fired` was signaled. -/
structure State (σ : Type*) where
  process : Process σ
  siValue : ℕ
  handlers : List (Option ℕ)
  settings : List InterruptSetting
  watched : List ℕ
  consumed : List ℕ
  fired : List ℕ

def State.signals (s : State σ) : Signals σ := s.process.signals

/-- `get_pin_index`, -1 as `none`. -/
def getPinIndex (pinNumber : ℕ) : Option ℕ := pins.idxOf? pinNumber

def configureInterrupt (iset : InterruptSetting) (s : State σ) : State σ :=
  { s with settings := s.settings ++ [iset] }

/-- The child has a setting from the pipe. A pin that is not in `pins` would index the arrays
with -1. -/
def configure (files : GpioValueFds) (s : State σ) : Option (State σ) :=
  match s.settings with
  | [] => none
  | iset :: settings =>
      ((getPinIndex iset.pinNumber).bind fun pinIndex => files.fds[pinIndex]?).map fun fd =>
        let watched := match iset.setting with
          | .none => s.watched.erase fd
          | .rising | .falling => s.watched.insert fd
        { s with settings := settings, watched := watched }

/-- While a signal is pending the kernel queues no second one and drops its value. -/
def sigqueue [DecidableEq σ] (sigusr1 : σ) (sival : ℕ) (s : State σ) : State σ :=
  { s with
    process := { s.process with signals := arrive sigusr1 s.signals }
    siValue := if sigusr1 ∈ s.signals.pending then s.siValue else sival }

/-- The child has an edge on `pins[i]`: it looks the descriptor up and passes the pin on, at the
moment of its `sigqueue`. -/
def interrupt [DecidableEq σ] (files : GpioValueFds) (sigusr1 : σ) (i : ℕ) (s : State σ) :
    Option (State σ) :=
  match pins[i]?, files.fds[i]? with
  | some pin, some fd =>
      if fd ∈ s.watched then
        ((files.fds.idxOf? fd).bind fun pinIndex => pins[pinIndex]?).map fun sival =>
          sigqueue sigusr1 sival { s with consumed := s.consumed ++ [pin] }
      else none
  | _, _ => none

/-- A handler starts. That of `SIGUSR1` is `InterruptSignal`. -/
def deliver [DecidableEq σ] (sigusr1 sig : σ) (s : State σ) : Option (State σ) :=
  (SignalAtomic.step s.process (.deliver sig)).map fun process =>
    let due := if sig = sigusr1 then some s.siValue else none
    { s with process := process, handlers := due :: s.handlers }

def interruptSignal (s : State σ) : Option (State σ) :=
  match s.handlers, s.process.current with
  | some chipPin :: handlers, ⟨.body, []⟩ =>
      some { s with fired := s.fired ++ [chipPin], handlers := none :: handlers }
  | _, _ => none

def handlerReturn (s : State σ) : Option (State σ) :=
  match s.handlers with
  | none :: handlers => (SignalAtomic.handlerReturn s.process).map fun process =>
      { s with process := process, handlers := handlers }
  | _ => none

inductive Event (σ : Type*)
  /-- the parent runs on, or a signal other than `SIGUSR1` arrives -/
  | parent (e : SignalAtomic.Event σ)
  | interruptSignal
  | configureInterrupt (iset : InterruptSetting)
  | configure
  | interrupt (i : ℕ)

def step [DecidableEq σ] (files : GpioValueFds) (sigusr1 : σ) (s : State σ) :
    Event σ → Option (State σ)
  | .parent (.deliver sig) => deliver sigusr1 sig s
  | .parent .handlerReturn => handlerReturn s
  | .parent (.arrive sig) =>
      if sig = sigusr1 then none
      else some { s with process := { s.process with signals := arrive sig s.signals } }
  | .parent e => (SignalAtomic.step s.process e).map fun process => { s with process := process }
  | .interruptSignal => interruptSignal s
  | .configureInterrupt iset => some (configureInterrupt iset s)
  | .configure => configure files s
  | .interrupt i => interrupt files sigusr1 i s

structure Booted (sigusr1 : σ) (s : State σ) : Prop where
  process : SignalAtomic.Booted s.process
  unblocked : s.signals.mask sigusr1 = false
  pending : s.signals.pending = []
  handlers : s.handlers = []
  watched : s.watched = []
  consumed : s.consumed = []
  fired : s.fired = []

def machine [DecidableEq σ] (files : GpioValueFds) (sigusr1 : σ) : Machine (State σ) (Event σ) :=
  ⟨Booted sigusr1, step files sigusr1⟩

/-- No edge is consumed while the signal for an earlier one is pending. -/
def Uncrowded (sigusr1 : σ) (s : State σ) : Event σ → Prop
  | .interrupt _ => sigusr1 ∉ s.signals.pending
  | _ => True

/-- Where `SIGUSR1` is not blocked, one that is pending is delivered and handled. -/
def handled [DecidableEq σ] (files : GpioValueFds) (sigusr1 : σ) (s : State σ) : Option (State σ) :=
  if sigusr1 ∈ s.signals.pending then
    (machine files sigusr1).run s [.parent (.deliver sigusr1), .interruptSignal]
  else some s

/-- Outside its atomic sections the parent comes to have fired once for every edge consumed. -/
def Delivers [DecidableEq σ] (files : GpioValueFds) (sigusr1 : σ) (s : State σ) : Prop :=
  ∃ t, handled files sigusr1 s = some t ∧ t.consumed = s.consumed ∧ t.fired.Perm t.consumed

/-- The edges on their way: handlers that have yet to signal, and the pending signal. -/
def owed [DecidableEq σ] (sigusr1 : σ) (s : State σ) : List ℕ :=
  s.handlers.reduceOption ++ if sigusr1 ∈ s.signals.pending then [s.siValue] else []

/-- The masks of the running code and of what it interrupted, innermost first, with the handlers
above the main program: where `SIGUSR1` is unblocked no `InterruptSignal` below has yet to signal. -/
inductive Guarded (sigusr1 : σ) : List (σ → Bool) → List (Option ℕ) → Prop
  | main {own : σ → Bool} (unblocked : own sigusr1 = false) : Guarded sigusr1 [own] []
  | handler {own : σ → Bool} {owns : List (σ → Bool)} {due : Option ℕ} {dues : List (Option ℕ)}
      (done : own sigusr1 = false → ∀ d ∈ due :: dues, d = none)
      (below : Guarded sigusr1 owns dues) : Guarded sigusr1 (own :: owns) (due :: dues)

/-- Atomic sections are kept, and a standard signal is pending at most once. -/
structure Regular (sigusr1 : σ) (s : State σ) : Prop where
  guarded : ∃ own, Running s.signals own s.process.current ∧
    Guarded sigusr1 (own :: s.signals.saved) s.handlers
  waiting : List.Forall₂ Waiting s.signals.saved s.process.interrupted
  nodup : s.signals.pending.Nodup

theorem owed_of_pending [DecidableEq σ] {sigusr1 : σ} {s : State σ}
    (h : sigusr1 ∈ s.signals.pending) :
    owed sigusr1 s = s.handlers.reduceOption ++ [s.siValue] := by
  rw [owed, if_pos h]

theorem owed_of_not_pending [DecidableEq σ] {sigusr1 : σ} {s : State σ}
    (h : sigusr1 ∉ s.signals.pending) : owed sigusr1 s = s.handlers.reduceOption := by
  rw [owed, if_neg h, List.append_nil]

theorem owed_congr [DecidableEq σ] {sigusr1 : σ} {s t : State σ}
    (handlers : t.handlers.reduceOption = s.handlers.reduceOption) (siValue : t.siValue = s.siValue)
    (pending : sigusr1 ∈ t.signals.pending ↔ sigusr1 ∈ s.signals.pending) :
    owed sigusr1 t = owed sigusr1 s := by
  unfold owed
  rw [handlers, siValue, if_congr pending rfl rfl]

theorem Guarded.done {sigusr1 : σ} {own : σ → Bool} {owns : List (σ → Bool)}
    {dues : List (Option ℕ)} (h : Guarded sigusr1 (own :: owns) dues)
    (hm : own sigusr1 = false) : ∀ d ∈ dues, d = none := by
  cases h with
  | main => simp
  | handler done => exact done hm

theorem Guarded.top {sigusr1 : σ} {own : σ → Bool} {owns : List (σ → Bool)} {due : Option ℕ}
    {dues : List (Option ℕ)} (h : Guarded sigusr1 (own :: owns) (due :: dues)) :
    (own sigusr1 = false → due = none) ∧ Guarded sigusr1 owns dues := by
  refine ⟨fun hm => h.done hm due (List.mem_cons_self ..), ?_⟩
  cases h with
  | handler _ below => exact below

/-- What a step does to the edges consumed, on their way and fired. -/
inductive Effect [DecidableEq σ] (sigusr1 : σ) (s t : State σ) (e : Event σ) : Prop
  | silent (consumed : t.consumed = s.consumed) (fired : t.fired = s.fired)
      (owed : (owed sigusr1 t).Perm (owed sigusr1 s))
  | fires (pin : ℕ) (consumed : t.consumed = s.consumed) (fired : t.fired = s.fired ++ [pin])
      (owed : (owed sigusr1 s).Perm (pin :: owed sigusr1 t))
  | queued (pin : ℕ) (consumed : t.consumed = s.consumed ++ [pin]) (fired : t.fired = s.fired)
      (owed : (owed sigusr1 t).Perm (pin :: owed sigusr1 s))
  | dropped (pin : ℕ) (crowded : ¬Uncrowded sigusr1 s e)
      (consumed : t.consumed = s.consumed ++ [pin]) (fired : t.fired = s.fired)
      (owed : owed sigusr1 t = owed sigusr1 s)

section
variable [DecidableEq σ] {files : GpioValueFds} {sigusr1 : σ} {s t : State σ}

theorem parent_cases {e : SignalAtomic.Event σ} (he : e.inFrame = true)
    (hst : step files sigusr1 s (.parent e) = some t) :
    ∃ process, SignalAtomic.step s.process e = some process ∧ t = { s with process := process } ∧
      (sigusr1 ∈ process.signals.pending ↔ sigusr1 ∈ s.signals.pending) ∧
      (s.signals.pending.Nodup → process.signals.pending.Nodup) := by
  have hcall (he' : step files sigusr1 s (.parent e) =
        (SignalAtomic.step s.process e).map fun process => { s with process := process })
      (hframe : ∀ process, SignalAtomic.step s.process e = some process →
        process.signals.pending = s.signals.pending) :
      ∃ process, SignalAtomic.step s.process e = some process ∧ t = { s with process := process } ∧
        (sigusr1 ∈ process.signals.pending ↔ sigusr1 ∈ s.signals.pending) ∧
        (s.signals.pending.Nodup → process.signals.pending.Nodup) := by
    rw [he'] at hst
    obtain ⟨process, hp, rfl⟩ := Option.map_eq_some_iff.mp hst
    rw [← hframe process hp]
    exact ⟨process, hp, rfl, Iff.rfl, id⟩
  cases e with
  | arrive sig =>
    simp only [step, Option.ite_none_left_eq_some, Option.some.injEq] at hst
    obtain ⟨hne, rfl⟩ := hst
    refine ⟨_, rfl, rfl, ?_, nodup_pending_arrive⟩
    rw [mem_pending_arrive]
    constructor
    · rintro (rfl | h)
      · exact absurd rfl hne
      · exact h
    · exact .inr
  | deliver sig => cases he
  | handlerReturn => cases he
  | atomicStart => exact hcall rfl fun _ h => (call_frame (.inl h)).2.2
  | atomicEnd => exact hcall rfl fun _ h => (call_frame (.inr (.inl h))).2.2
  | sleep => exact hcall rfl fun _ h => (call_frame (.inr (.inr (.inl h)))).2.2
  | wake => exact hcall rfl fun _ h => (call_frame (.inr (.inr (.inr (.inl h))))).2.2
  | advance => exact hcall rfl fun _ h => (call_frame (.inr (.inr (.inr (.inr h))))).2.2

theorem deliver_cases {sig : σ} (hst : deliver sigusr1 sig s = some t) :
    ∃ signals, SignalMask.deliver sig s.signals = some signals ∧
      t = { s with
        process := ⟨signals, ⟨.body, []⟩, s.process.current :: s.process.interrupted⟩
        handlers := (if sig = sigusr1 then some s.siValue else none) :: s.handlers } := by
  obtain ⟨process, hp, rfl⟩ := Option.map_eq_some_iff.mp hst
  obtain ⟨signals, hd, rfl⟩ := Option.map_eq_some_iff.mp hp
  exact ⟨signals, hd, rfl⟩

omit [DecidableEq σ] in
theorem interruptSignal_cases (hst : interruptSignal s = some t) :
    ∃ pin dues, s.handlers = some pin :: dues ∧
      t = { s with fired := s.fired ++ [pin], handlers := none :: dues } := by
  unfold interruptSignal at hst
  split at hst
  · rename_i pin dues hh hc
    cases hst
    exact ⟨pin, dues, hh, rfl⟩
  · cases hst

omit [DecidableEq σ] in
theorem handlerReturn_cases (hst : handlerReturn s = some t) :
    ∃ process dues, s.handlers = none :: dues ∧
      SignalAtomic.handlerReturn s.process = some process ∧
      t = { s with process := process, handlers := dues } := by
  unfold handlerReturn at hst
  split at hst
  · rename_i dues hh
    obtain ⟨process, hp, rfl⟩ := Option.map_eq_some_iff.mp hst
    exact ⟨process, dues, hh, hp, rfl⟩
  · cases hst

omit [DecidableEq σ] in
theorem configure_cases (hst : configure files s = some t) :
    ∃ settings watched, t = { s with settings := settings, watched := watched } := by
  unfold configure at hst
  split at hst
  · cases hst
  · obtain ⟨fd, -, rfl⟩ := Option.map_eq_some_iff.mp hst
    exact ⟨_, _, rfl⟩

theorem interrupt_cases {i : ℕ} (hst : interrupt files sigusr1 i s = some t) :
    ∃ pin, t = sigqueue sigusr1 pin { s with consumed := s.consumed ++ [pin] } := by
  unfold interrupt at hst
  split at hst
  · rename_i pin fd hpin hfd
    split_ifs at hst
    obtain ⟨hi, rfl⟩ := List.getElem?_eq_some_iff.mp hfd
    have hindex : files.fds.idxOf? files.fds[i] = some i := by
      rw [List.idxOf?_eq_some_iff]
      refine ⟨hi, rfl, ?_⟩
      intro j hj he
      exact absurd ((files.nodup.getElem_inj_iff).mp he) hj.ne
    rw [hindex, Option.bind_some, hpin] at hst
    exact ⟨pin, (Option.some.inj hst).symm⟩
  · cases hst

omit [DecidableEq σ] in
theorem regular_booted (h : Booted sigusr1 s) : Regular sigusr1 s := by
  have hs : Consistent s.process := consistent_booted h.process
  obtain ⟨hc, hi, hsaved, he⟩ := h.process
  constructor
  · refine ⟨s.signals.mask, ?_, ?_⟩
    · rw [hc]
      exact .outside ⟨.nil, id, .inl rfl⟩ rfl he
    · rw [show s.signals.saved = [] from hsaved, h.handlers]
      exact .main h.unblocked
  · exact hs.waiting
  · rw [h.pending]
    exact .nil

theorem regular_deliver {sig : σ} (h : Regular sigusr1 s) (hst : deliver sigusr1 sig s = some t) :
    Regular sigusr1 t := by
  obtain ⟨signals, hd, rfl⟩ := deliver_cases hst
  obtain ⟨⟨own, hrun, hguard⟩, hwait, hnodup⟩ := h
  obtain ⟨hm, hsaved⟩ := deliver_eq_some hd
  obtain ⟨hpending, hmask⟩ := pending_deliver hd
  obtain ⟨hw, hown, henabled⟩ := running_unblocked hrun hm
  constructor
  · refine ⟨signals.mask, ?_, ?_⟩
    · refine .outside ⟨.nil, id, .inl rfl⟩ rfl ?_
      change signals.interuptsEnabled = true
      rw [interuptsEnabled_deliver hd, henabled]
    · change Guarded sigusr1 (signals.mask :: signals.saved) _
      rw [hsaved, hown]
      refine .handler ?_ hguard
      -- the new handler blocks the signal it runs for
      intro hopen
      rw [hmask, Function.update_apply] at hopen
      split_ifs at hopen with hsig
      rw [if_neg (Ne.symm hsig)]
      intro d hd'
      rcases List.mem_cons.mp hd' with rfl | hd'
      · rfl
      · exact hguard.done (hown ▸ hopen) d hd'
  · change List.Forall₂ Waiting signals.saved (s.process.current :: s.process.interrupted)
    rw [hsaved, hown]
    exact .cons hw hwait
  · change signals.pending.Nodup
    rw [hpending]
    exact hnodup.erase sig

omit [DecidableEq σ] in
theorem regular_handlerReturn (h : Regular sigusr1 s) (hst : handlerReturn s = some t) :
    Regular sigusr1 t := by
  obtain ⟨process, dues, hh, hp, rfl⟩ := handlerReturn_cases hst
  obtain ⟨⟨own, hrun, hguard⟩, hwait, hnodup⟩ := h
  obtain ⟨hc, hi, hr⟩ := SignalAtomic.handlerReturn_cases hp
  have hsaved := handlerReturn_eq_some hr
  have hpending := pending_handlerReturn hr
  rw [hc] at hrun
  change List.Forall₂ Waiting s.process.signals.saved _ at hwait
  change Guarded sigusr1 (own :: s.process.signals.saved) s.handlers at hguard
  rw [hi, hsaved] at hwait
  rw [hsaved, hh] at hguard
  cases hwait with
  | cons hw hrest =>
    constructor
    · refine ⟨process.signals.mask, ?_, ?_⟩
      · rcases (running_body hrun).2 with ⟨-, -, henabled⟩ | ⟨hin, -⟩
        · refine .outside hw rfl ?_
          change process.signals.interuptsEnabled = true
          rw [interuptsEnabled_handlerReturn hr]
          exact henabled
        · exact hin.elim
      · exact hguard.top.2
    · exact hrest
    · change process.signals.pending.Nodup
      rw [hpending]
      exact hnodup

theorem regular_inFrame {e : SignalAtomic.Event σ} (h : Regular sigusr1 s) (he : e.inFrame = true)
    (hst : step files sigusr1 s (.parent e) = some t) : Regular sigusr1 t := by
  obtain ⟨process, hp, rfl, -, hnodup⟩ := parent_cases he hst
  obtain ⟨⟨own, hrun, hguard⟩, hwait, hn⟩ := h
  obtain ⟨hrun', hi, hsaved⟩ := running_step he hrun hp
  constructor
  · refine ⟨own, hrun', ?_⟩
    change Guarded sigusr1 (own :: process.signals.saved) s.handlers
    rw [hsaved]
    exact hguard
  · change List.Forall₂ Waiting process.signals.saved process.interrupted
    rw [hsaved, hi]
    exact hwait
  · exact hnodup hn

theorem regular_step {e : Event σ} (h : Regular sigusr1 s) (hst : step files sigusr1 s e = some t) :
    Regular sigusr1 t := by
  cases e with
  | parent e =>
    cases e with
    | deliver sig => exact regular_deliver h hst
    | handlerReturn => exact regular_handlerReturn h hst
    | arrive | atomicStart | atomicEnd | sleep | wake | advance =>
      exact regular_inFrame h rfl hst
  | interruptSignal =>
    obtain ⟨pin, dues, hh, rfl⟩ := interruptSignal_cases hst
    obtain ⟨⟨own, hrun, hguard⟩, hwait, hn⟩ := h
    refine ⟨⟨own, hrun, ?_⟩, hwait, hn⟩
    rw [hh] at hguard
    refine .handler ?_ hguard.top.2
    intro hopen
    exact absurd (hguard.top.1 hopen) (Option.some_ne_none pin)
  | configureInterrupt iset =>
    obtain rfl := Option.some.inj hst
    exact ⟨h.guarded, h.waiting, h.nodup⟩
  | configure =>
    obtain ⟨settings, watched, rfl⟩ := configure_cases hst
    exact ⟨h.guarded, h.waiting, h.nodup⟩
  | interrupt i =>
    obtain ⟨pin, rfl⟩ := interrupt_cases hst
    obtain ⟨⟨own, hrun, hguard⟩, hwait, hn⟩ := h
    exact ⟨⟨own, hrun.congr rfl rfl rfl, hguard⟩, hwait, nodup_pending_arrive hn⟩

theorem effect_deliver {sig : σ} (h : Regular sigusr1 s)
    (hst : deliver sigusr1 sig s = some t) : (owed sigusr1 t).Perm (owed sigusr1 s) := by
  obtain ⟨signals, hd, rfl⟩ := deliver_cases hst
  obtain ⟨hpending, -⟩ := pending_deliver hd
  by_cases hsig : sig = sigusr1
  · subst hsig
    have hmem : sig ∈ s.signals.pending := by
      unfold SignalMask.deliver at hd
      split_ifs at hd with hc
      exact hc.1
    have hclear : sig ∉ signals.pending := by
      rw [hpending]
      exact h.nodup.not_mem_erase
    rw [owed_of_not_pending hclear, owed_of_pending hmem, if_pos rfl,
      List.reduceOption_cons_of_some]
    exact (List.perm_append_singleton _ _).symm
  · refine .of_eq (owed_congr ?_ rfl ?_)
    · rw [if_neg hsig, List.reduceOption_cons_of_none]
    · change sigusr1 ∈ signals.pending ↔ _
      rw [hpending]
      exact List.mem_erase_of_ne (Ne.symm hsig)

theorem effect_sigqueue (sigusr1 : σ) (pin : ℕ) :
    (sigusr1 ∉ s.signals.pending →
        (owed sigusr1 (sigqueue sigusr1 pin s)).Perm (pin :: owed sigusr1 s)) ∧
      (sigusr1 ∈ s.signals.pending → owed sigusr1 (sigqueue sigusr1 pin s) = owed sigusr1 s) := by
  have hpending : sigusr1 ∈ (sigqueue sigusr1 pin s).signals.pending :=
    mem_pending_arrive.mpr (.inl rfl)
  rw [owed_of_pending hpending]
  constructor
  · intro hclear
    rw [owed_of_not_pending hclear, sigqueue, if_neg hclear]
    exact List.perm_append_singleton _ _
  · intro hmem
    rw [owed_of_pending hmem, sigqueue, if_pos hmem]

theorem effect_step {e : Event σ} (h : Regular sigusr1 s) (hst : step files sigusr1 s e = some t) :
    Effect sigusr1 s t e := by
  cases e with
  | parent e =>
    cases e with
    | deliver sig =>
      have howed := effect_deliver h hst
      obtain ⟨signals, -, rfl⟩ := deliver_cases hst
      exact .silent rfl rfl howed
    | handlerReturn =>
      obtain ⟨process, dues, hh, hp, rfl⟩ := handlerReturn_cases hst
      obtain ⟨-, -, hr⟩ := SignalAtomic.handlerReturn_cases hp
      refine .silent rfl rfl (.of_eq (owed_congr ?_ rfl ?_))
      · rw [hh, List.reduceOption_cons_of_none]
      · exact iff_of_eq (congrArg (sigusr1 ∈ ·) (pending_handlerReturn hr))
    | arrive | atomicStart | atomicEnd | sleep | wake | advance =>
      obtain ⟨process, -, rfl, hmem, -⟩ := parent_cases rfl hst
      exact .silent rfl rfl (.of_eq (owed_congr rfl rfl hmem))
  | interruptSignal =>
    obtain ⟨pin, dues, hh, rfl⟩ := interruptSignal_cases hst
    refine .fires pin rfl rfl (.of_eq ?_)
    unfold owed
    rw [hh, List.reduceOption_cons_of_some, List.reduceOption_cons_of_none]
    rfl
  | configureInterrupt iset =>
    cases hst
    exact .silent rfl rfl (.refl _)
  | configure =>
    obtain ⟨settings, watched, rfl⟩ := configure_cases hst
    exact .silent rfl rfl (.refl _)
  | interrupt i =>
    obtain ⟨pin, rfl⟩ := interrupt_cases hst
    obtain ⟨hclear, hcrowded⟩ := effect_sigqueue sigusr1 pin
      (s := { s with consumed := s.consumed ++ [pin] })
    by_cases hmem : sigusr1 ∈ s.signals.pending
    · exact .dropped pin (fun met => met hmem) rfl rfl (hcrowded hmem)
    · exact .queued pin rfl rfl (hclear hmem)

/-- Every edge consumed has fired or is on its way. -/
def Balanced (sigusr1 : σ) (s : State σ) : Prop := s.consumed.Perm (s.fired ++ owed sigusr1 s)

/-- More edges were consumed than have fired or are on their way. -/
def Short (sigusr1 : σ) (s : State σ) : Prop :=
  s.fired.length + (owed sigusr1 s).length < s.consumed.length

theorem balanced_step {e : Event σ} (h : Regular sigusr1 s) (hb : Balanced sigusr1 s)
    (met : Uncrowded sigusr1 s e) (hst : step files sigusr1 s e = some t) : Balanced sigusr1 t := by
  unfold Balanced at *
  cases effect_step h hst with
  | silent consumed fired owed =>
    rw [consumed, fired]
    exact hb.trans (owed.symm.append_left _)
  | fires pin consumed fired owed =>
    rw [consumed, fired, List.append_assoc]
    exact hb.trans (owed.append_left _)
  | queued pin consumed fired owed =>
    rw [consumed, fired]
    calc
      (s.consumed ++ [pin]).Perm (pin :: s.consumed) := List.perm_append_singleton _ _
      List.Perm _ (pin :: (s.fired ++ GpioInterrupt.owed sigusr1 s)) := hb.cons pin
      List.Perm _ (s.fired ++ pin :: GpioInterrupt.owed sigusr1 s) := List.perm_middle.symm
      List.Perm _ (s.fired ++ GpioInterrupt.owed sigusr1 t) := owed.symm.append_left _
  | dropped pin crowded => exact absurd met crowded

theorem short_step {e : Event σ} (h : Regular sigusr1 s) (hs : Short sigusr1 s)
    (hst : step files sigusr1 s e = some t) : Short sigusr1 t := by
  unfold Short at *
  cases effect_step h hst with
  | silent consumed fired owed =>
    rw [consumed, fired, owed.length_eq]
    exact hs
  | fires pin consumed fired owed =>
    have hlen := owed.length_eq
    rw [List.length_cons] at hlen
    rw [consumed, fired, List.length_append, List.length_singleton]
    omega
  | queued pin consumed fired owed =>
    rw [consumed, fired, owed.length_eq, List.length_cons, List.length_append,
      List.length_singleton]
    omega
  | dropped pin _ consumed fired owed =>
    rw [consumed, fired, owed, List.length_append]
    omega

/-- The edge of a step that is not uncrowded is lost. -/
theorem short_of_crowded {e : Event σ} (hb : Balanced sigusr1 s)
    (crowded : ¬Uncrowded sigusr1 s e) (hst : step files sigusr1 s e = some t) :
    Short sigusr1 t := by
  have hlen := hb.length_eq
  rw [List.length_append] at hlen
  unfold Short
  cases e with
  | interrupt i =>
    obtain ⟨pin, rfl⟩ := interrupt_cases hst
    have howed := (effect_sigqueue sigusr1 pin
      (s := { s with consumed := s.consumed ++ [pin] })).2 (not_not.mp crowded)
    rw [howed]
    change s.fired.length + (owed sigusr1 s).length < (s.consumed ++ [pin]).length
    rw [List.length_append, List.length_singleton]
    omega
  | _ => exact absurd trivial crowded

theorem regular_of_reachable {ok : State σ → Event σ → Prop}
    (h : (machine files sigusr1).Reachable ok s) : Regular sigusr1 s :=
  h.invariant (I := Regular sigusr1) (fun _ => regular_booted) fun _ _ _ hs _ => regular_step hs

theorem balanced_of_reachable (h : (machine files sigusr1).Reachable (Uncrowded sigusr1) s) :
    Balanced sigusr1 s := by
  induction h with
  | start hb =>
    unfold Balanced
    rw [hb.consumed, hb.fired, owed, hb.handlers, hb.pending]
    exact .refl _
  | next prior met taken ih => exact balanced_step (regular_of_reachable prior) ih met taken

/-- A run has lost no edge, or it consumed one while `SIGUSR1` was pending and never gets it back. -/
theorem uncrowded_or_short (h : (machine files sigusr1).Reachable Machine.Any s) :
    (machine files sigusr1).Reachable (Uncrowded sigusr1) s ∨ Short sigusr1 s := by
  have hs : (machine files sigusr1).Reachable (Uncrowded sigusr1) s ∨
      Regular sigusr1 s ∧ Short sigusr1 s := by
    refine h.ok_or_broken (B := fun s => Regular sigusr1 s ∧ Short sigusr1 s) ?_ ?_
    · intro s e t hr crowded hst
      have hs := regular_of_reachable hr
      exact ⟨regular_step hs hst, short_of_crowded (balanced_of_reachable hr) crowded hst⟩
    · intro s e t hs hst
      exact ⟨regular_step hs.1 hst, short_step hs.1 hs.2 hst⟩
  exact hs.imp_right And.right

theorem handled_of_regular (h : Regular sigusr1 s) (hm : s.signals.mask sigusr1 = false) :
    ∃ t, handled files sigusr1 s = some t ∧ t.consumed = s.consumed ∧
      t.fired = s.fired ++ owed sigusr1 s := by
  obtain ⟨⟨own, hrun, hguard⟩, -, -⟩ := h
  have hnone : s.handlers.reduceOption = [] := by
    obtain rfl := (running_unblocked hrun hm).2.1
    rw [List.reduceOption_eq_nil_iff]
    exact ⟨s.handlers.length, List.eq_replicate_iff.mpr ⟨rfl, hguard.done hm⟩⟩
  unfold handled
  split_ifs with hmem
  · obtain ⟨signals, hd⟩ : ∃ signals, SignalMask.deliver sigusr1 s.signals = some signals :=
      ⟨_, if_pos ⟨hmem, hm⟩⟩
    have hdeliver : deliver sigusr1 sigusr1 s = some { s with
        process := ⟨signals, ⟨.body, []⟩, s.process.current :: s.process.interrupted⟩
        handlers := some s.siValue :: s.handlers } := by
      rw [deliver, if_pos rfl]
      change ((SignalMask.deliver sigusr1 s.signals).map _).map _ = _
      rw [hd]
      rfl
    refine ⟨{ s with
      process := ⟨signals, ⟨.body, []⟩, s.process.current :: s.process.interrupted⟩
      handlers := none :: s.handlers
      fired := s.fired ++ [s.siValue] }, ?_, rfl, ?_⟩
    · rw [Machine.run_cons]
      change (deliver sigusr1 sigusr1 s).bind _ = _
      rw [hdeliver]
      rfl
    · rw [owed_of_pending hmem, hnone, List.nil_append]
  · refine ⟨s, rfl, rfl, ?_⟩
    rw [owed_of_not_pending hmem, hnone, List.append_nil]

omit [DecidableEq σ] in
theorem unblocked_of_outside (h : Regular sigusr1 s) (hmain : s.process.interrupted = [])
    (hbody : s.process.current.pc = .body) (hout : ¬InSection s.process.current.scopes) :
    s.signals.mask sigusr1 = false := by
  obtain ⟨⟨own, hrun, hguard⟩, hwait, -⟩ := h
  have hsaved : s.signals.saved = [] := by
    rw [hmain] at hwait
    cases hs : s.signals.saved with
    | nil => rfl
    | cons mask masks =>
      rw [hs] at hwait
      cases hwait
  have hown : own sigusr1 = false := by
    rw [hsaved] at hguard
    generalize s.handlers = dues at hguard
    cases hguard with
    | main unblocked => exact unblocked
    | handler _ below => cases below
  have hcurrent : s.process.current = ⟨.body, s.process.current.scopes⟩ := by rw [← hbody]
  rw [hcurrent] at hrun
  rcases (running_body hrun).2 with ⟨-, hmask, -⟩ | ⟨hin, -⟩
  · rw [hmask, hown]
  · exact absurd hin hout

/-- Outside its sections the parent fires once for every edge consumed exactly in the runs that
consume no edge while the signal for an earlier one is pending. -/
theorem delivers_iff_uncrowded (h : (machine files sigusr1).Reachable Machine.Any s)
    (hm : s.signals.mask sigusr1 = false) :
    Delivers files sigusr1 s ↔ (machine files sigusr1).Reachable (Uncrowded sigusr1) s := by
  obtain ⟨t, ht, hconsumed, hfired⟩ := handled_of_regular (regular_of_reachable h) hm
  constructor
  · rintro ⟨t', ht', -, hperm⟩
    obtain rfl := Option.some.inj (ht.symm.trans ht')
    rcases uncrowded_or_short h with hr | hshort
    · exact hr
    · have hlen := hperm.length_eq
      rw [hfired, hconsumed, List.length_append] at hlen
      exact absurd hlen hshort.ne
  · intro hr
    refine ⟨t, ht, hconsumed, ?_⟩
    rw [hfired, hconsumed]
    exact (balanced_of_reachable hr).symm

instance (s : State σ) : (e : Event σ) → Decidable (Uncrowded sigusr1 s e)
  | .interrupt _ => inferInstanceAs (Decidable (sigusr1 ∉ s.signals.pending))
  | .parent _ | .interruptSignal | .configureInterrupt _ | .configure => .isTrue trivial

end

def bootFiles : GpioValueFds := ⟨[20, 21, 22, 23, 24, 25, 26, 27, 28, 29], rfl, by decide⟩

/-- One signal besides `SIGUSR1`, which is 0. -/
def bootState : State (Fin 2) where
  process := bootProcess
  siValue := 0
  handlers := []
  settings := []
  watched := []
  consumed := []
  fired := []

def enabled : List (Event (Fin 2)) :=
  [.configureInterrupt ⟨2, .rising⟩, .configureInterrupt ⟨27, .falling⟩, .configure, .configure]

theorem bootState_booted : Booted 0 bootState :=
  ⟨⟨rfl, rfl, rfl, rfl⟩, rfl, rfl, rfl, rfl, rfl, rfl⟩

/-- An edge of pin 2 is handled before one of pin 27 is consumed in an atomic section, which then
ends. -/
theorem delivers_iff_uncrowded_apart : ∃ s : State (Fin 2),
    s.consumed = [2, 27] ∧ Delivers bootFiles 0 s := by
  have hrun : ((machine bootFiles 0).runMeeting (Uncrowded 0) bootState (enabled ++
      ([.interrupt 0, .parent (.deliver 0), .interruptSignal, .parent .handlerReturn,
        .parent .atomicStart, .parent .advance, .parent .advance, .parent .advance,
        .parent .advance, .parent .advance, .interrupt 9, .parent .atomicEnd, .parent .advance,
        .parent .advance] : List (Event (Fin 2))))).map (fun s => (s.consumed, s.signals.mask 0)) =
          some ([2, 27], false) := by decide +kernel
  obtain ⟨s, hs, he⟩ := Option.map_eq_some_iff.mp hrun
  obtain ⟨hconsumed, hmask⟩ := Prod.mk.inj he
  have hr := (Machine.Reachable.start bootState_booted).runMeeting _ hs
  refine ⟨s, hconsumed, ?_⟩
  exact (delivers_iff_uncrowded (hr.imp fun _ _ _ => trivial) hmask).mpr hr

/-- Edges of pins 2 and 27 are both consumed in one atomic section. After it only pin 2 fires. -/
theorem second_edge_lost : ∃ s : State (Fin 2),
    (machine bootFiles 0).Reachable Machine.Any s ∧ s.signals.mask 0 = false ∧
      s.consumed = [2, 27] ∧ (handled bootFiles 0 s).map State.fired = some [2] ∧
      ¬Delivers bootFiles 0 s := by
  have hrun : ((machine bootFiles 0).run bootState (enabled ++
      ([.parent .atomicStart, .parent .advance, .parent .advance, .parent .advance,
        .parent .advance, .parent .advance, .interrupt 0, .interrupt 9, .parent .atomicEnd,
        .parent .advance, .parent .advance] : List (Event (Fin 2))))).map (fun s =>
        (s.consumed, s.signals.mask 0, (handled bootFiles 0 s).map State.fired)) =
      some ([2, 27], false, some [2]) := by
    decide +kernel
  obtain ⟨s, hs, he⟩ := Option.map_eq_some_iff.mp hrun
  simp only [Prod.mk.injEq] at he
  obtain ⟨hconsumed, hmask, hfired⟩ := he
  have hr := (Machine.Reachable.start bootState_booted).run _ hs
  refine ⟨s, hr, hmask, hconsumed, hfired, ?_⟩
  rintro ⟨t, ht, htc, hperm⟩
  rw [ht, Option.map_some, Option.some.injEq] at hfired
  have hlen := hperm.length_eq
  rw [hfired, htc, hconsumed] at hlen
  cases hlen

end RpiCc2520.GpioInterrupt
