import RpiCc2520.RadioReceive
import RpiCc2520.RadioSendFraming
import RpiCc2520.TunReceive

/-! The radio, the TUN device and the UART of a mote under one scheduler: what the process reads of
its descriptors is delivered once and in order, and all of it before the process sleeps. -/
namespace RpiCc2520.MoteInput
open DescriptorLoop RadioReceive RadioSend TunReceive UartReceive
open SchedulerSleep (Mote)

/-- The receive module, which does not look whether its task is posted. -/
def receiveStep (s : Receive) : RadioReceive.Event → Option Receive
  | .receiveReady =>
      if s.exited = false ∧ s.bodyPending = false then some (RadioReceive.receiveReady s) else none
  | e => RadioReceive.step s e

def receiveKind : RadioReceive.Event → Kind
  | .receiveReady => .ready
  | .receiveBody => .inside
  | .task _ _ => .task
  | .driver _ | .childWrite | .write _ _ => .free

def sendKind : TxEvent → Kind
  | .receiveReady => .ready
  | .sendDoneTask => .task
  | .send _ _ _ | .sendBody | .child _ | .write _ _ => .free

/-- The UART, which does not look whether its task is posted. -/
def uartStep (s : Uart) : UartReceive.Event → Option Uart
  | .receiveReady (.bytes bs) =>
      if bs.length ≤ uartBufLen then UartReceive.receiveReady (.bytes bs) s else none
  | .receiveReady r => UartReceive.receiveReady r s
  | e => UartReceive.step s e

def uartKind : UartReceive.Event → Kind
  | .receiveReady _ => .ready
  | .task => .task
  | .enable | .disable => .free

theorem receiveReady_flags (s : Receive) :
    (RadioReceive.receiveReady s).taskPosted = s.taskPosted := by
  unfold RadioReceive.receiveReady
  split <;> rfl

theorem receiveBody_posted {s : Receive} (h : s.taskPosted = true) :
    (RadioReceive.receiveBody s).taskPosted = true := by
  unfold RadioReceive.receiveBody
  dsimp only
  split
  · split_ifs
    · exact h
    · exact h
  · exact Bool.or_eq_true_iff.mpr (.inl h)

theorem receiveTask_flags (now : UInt64) (next : RadioMessage.Ptr) (s : Receive) :
    (RadioReceive.receiveTask now next s).taskPosted = s.taskPosted ∧
      (RadioReceive.receiveTask now next s).bodyPending = s.bodyPending := by
  unfold RadioReceive.receiveTask
  dsimp only
  split_ifs
  · exact ⟨rfl, rfl⟩
  · exact ⟨rfl, rfl⟩

def receiveFile : IoFile where
  State := Receive
  Event := RadioReceive.Event
  initial := RadioReceive.Started
  step := receiveStep
  kind := receiveKind
  posted := Receive.taskPosted
  busy := Receive.bodyPending
  initial_posted _ h := h.2.2.2.2.1
  initial_busy _ h := h.2.2.2.1
  posted_free s e t hkind hst := by
    cases e with
    | receiveReady | receiveBody | task => cases hkind
    | driver frame =>
      simp only [receiveStep, RadioReceive.step] at hst
      split at hst
      · split_ifs at hst
        cases hst
        exact ⟨rfl, rfl⟩
      · cases hst
    | childWrite =>
      simp only [receiveStep, RadioReceive.step] at hst
      split at hst
      · cases hst
      · cases hst
        exact ⟨rfl, rfl⟩
    | write m msg =>
      obtain ⟨-, hst⟩ := Option.ite_none_right_eq_some.mp hst
      cases hst
      exact ⟨rfl, rfl⟩
  posted_read s e t hkind hst hposted := by
    cases e with
    | receiveReady =>
      obtain ⟨-, hst⟩ := Option.ite_none_right_eq_some.mp hst
      obtain rfl := Option.some.inj hst
      rw [receiveReady_flags]
      exact hposted
    | receiveBody =>
      obtain ⟨-, hst⟩ := Option.ite_none_right_eq_some.mp hst
      obtain rfl := Option.some.inj hst
      exact receiveBody_posted hposted
    | task | driver | childWrite | write => rcases hkind with hkind | hkind <;> cases hkind
  posted_task s e t hkind hst := by
    cases e with
    | task now next =>
      obtain ⟨-, hst⟩ := Option.ite_none_right_eq_some.mp hst
      obtain rfl := Option.some.inj hst
      exact receiveTask_flags now next _
    | receiveReady | receiveBody | driver | childWrite | write => cases hkind

theorem receiveReady_keepsPosted {s : SendP} (h : s.sendDonePosted = true) :
    (RadioSend.receiveReady s).sendDonePosted = true := by
  unfold RadioSend.receiveReady
  split
  · exact h
  · exact Bool.or_eq_true_iff.mpr (.inl h)

theorem childStep_posted {ret : Int32} {s t : SendP} (h : childStep ret s = some t) :
    t.sendDonePosted = s.sendDonePosted := by
  unfold childStep at h
  split at h
  · split_ifs at h
    · cases h
      rfl
    · obtain ⟨_, -, rfl⟩ := Option.map_eq_some_iff.mp h
      rfl
  · unfold readBody at h
    dsimp only at h
    split_ifs at h
    · cases h
      rfl
    · obtain ⟨_, -, rfl⟩ := Option.map_eq_some_iff.mp h
      rfl
  · cases h
    rfl
  · cases h
    rfl
  · cases h

def sendFile : IoFile where
  State := TxSystem
  Event := TxEvent
  initial := txMachine.initial
  step := txStep
  kind := sendKind
  posted s := s.sendP.sendDonePosted
  busy _ := false
  initial_posted _ h := h.1.2.2.2.2.2
  initial_busy _ _ := rfl
  posted_free s e t hkind hst := by
    refine ⟨?_, rfl⟩
    cases e with
    | receiveReady | sendDoneTask => cases hkind
    | send m len pad =>
      obtain ⟨-, hst⟩ := Option.ite_none_right_eq_some.mp hst
      cases hst
      rfl
    | sendBody =>
      obtain ⟨_, -, rfl⟩ := Option.map_eq_some_iff.mp hst
      rfl
    | child ret =>
      obtain ⟨u, hu, rfl⟩ := Option.map_eq_some_iff.mp hst
      exact childStep_posted hu
    | write m msg =>
      obtain ⟨-, hst⟩ := Option.ite_none_right_eq_some.mp hst
      cases hst
      rfl
  posted_read s e t hkind hst hposted := by
    cases e with
    | receiveReady =>
      obtain ⟨-, hst⟩ := Option.ite_none_right_eq_some.mp hst
      obtain rfl := Option.some.inj hst
      exact receiveReady_keepsPosted hposted
    | send | sendBody | child | sendDoneTask | write =>
      rcases hkind with hkind | hkind <;> cases hkind
  posted_task s e t hkind hst := by
    cases e with
    | sendDoneTask =>
      obtain ⟨-, hst⟩ := Option.ite_none_right_eq_some.mp hst
      obtain rfl := Option.some.inj hst
      exact ⟨rfl, rfl⟩
    | send | sendBody | child | receiveReady | write => cases hkind

theorem readEffect_posted {bs : List UInt8} {s t : Uart} (h : ReadEffect bs s t)
    (hposted : s.posted = true) : t.posted = true := by
  cases h with
  | dropped => exact hposted
  | posted => rfl

def uartFile : IoFile where
  State := Uart
  Event := UartReceive.Event
  initial := UartReceive.Booted
  step := uartStep
  kind := uartKind
  posted := Uart.posted
  busy _ := false
  initial_posted _ h := h.1
  initial_busy _ _ := rfl
  posted_free s e t hkind hst := by
    cases e with
    | receiveReady | task => cases hkind
    | enable | disable =>
      cases hst
      exact ⟨rfl, rfl⟩
  posted_read s e t hkind hst hposted := by
    cases e with
    | receiveReady r =>
      cases r with
      | bytes bs =>
        obtain ⟨-, hst⟩ := Option.ite_none_right_eq_some.mp hst
        exact readEffect_posted (readEffect hst) hposted
      | eagain =>
        cases hst
        exact hposted
      | error => cases hst
    | task | enable | disable => rcases hkind with hkind | hkind <;> cases hkind
  posted_task s e t hkind hst := by
    cases e with
    | task =>
      obtain ⟨-, hst⟩ := Option.ite_none_right_eq_some.mp hst
      obtain rfl := Option.some.inj hst
      exact ⟨rfl, rfl⟩
    | receiveReady | enable | disable => cases hkind

/-- Where its task has run, the UART is looked at as its own model has it. -/
theorem uart_step {s t : Uart} {e : UartReceive.Event} (h : uartFile.machine.step s e = some t) :
    UartReceive.step s e = some t := by
  obtain ⟨hguard, hst⟩ := Option.ite_none_left_eq_some.mp h
  cases e with
  | receiveReady r =>
    have hfree : ¬s.posted = true := fun hposted => hguard ⟨rfl, .inl hposted⟩
    change (if s.posted = true then none else _) = some t
    rw [if_neg hfree]
    cases r <;> exact hst
  | task | enable | disable => exact hst

theorem receive_step {s t : Receive} {e : RadioReceive.Event}
    (h : receiveFile.machine.step s e = some t) : RadioReceive.step s e = some t := by
  obtain ⟨hguard, hst⟩ := Option.ite_none_left_eq_some.mp h
  cases e with
  | receiveReady =>
    obtain ⟨⟨halive, hidle⟩, hst⟩ := Option.ite_none_right_eq_some.mp hst
    have hfree : s.taskPosted = false := by
      by_contra hposted
      have hposted : s.taskPosted = true := by simpa using hposted
      exact hguard ⟨rfl, .inl hposted⟩
    rw [RadioReceive.step, if_pos ⟨halive, hidle, hfree⟩]
    exact hst
  | driver | childWrite | receiveBody | task | write => exact hst

theorem inStep_of_reachable {s : Receive} (h : receiveFile.machine.Reachable DriverFrames s) :
    InStep s := by
  apply h.invariant (I := InStep)
  · exact fun s hs => ⟨[], [], [], [], synced_started hs⟩
  · exact fun s e t hs frames hst => RadioReceive.inStep_step hs frames (receive_step hst)

theorem inSync_of_reachable {s : TxSystem} (h : sendFile.machine.Reachable FrameLength s) :
    InSync s := by
  apply h.invariant (I := InSync)
  · exact fun s hs => inSync_initial hs
  · exact fun s e t hs lengths hst =>
      inSync_step hs lengths (Option.ite_none_left_eq_some.mp hst).2

theorem sound_of_reachable {s : Uart} (h : uartFile.machine.Reachable Short s) : Sound s := by
  apply h.invariant (I := Sound)
  · rintro s ⟨hposted, -, hlog⟩
    exact ⟨by simp [hlog], by simp [hposted]⟩
  · exact fun s e t hs short hst => UartReceive.sound_step hs short (uart_step hst)

/-- The components of a mote: the radio's two modules, the TUN device and the UART. -/
def stations : Fin 4 → IoFile
  | 0 => receiveFile
  | 1 => sendFile
  | 2 => tunFile
  | 3 => uartFile

/-- The driver returns frames, sends have lengths the radio takes, the TUN device hands over whole
packets, and the UART at most 255 bytes. -/
def Fair : ∀ i, (stations i).State → (stations i).Event → Prop
  | 0 => DriverFrames
  | 1 => FrameLength
  | 2 => WholePacket
  | 3 => Short

variable {σ α : Type}

def radioIn (s : Node σ α stations) : Receive := s.file 0
def radioOut (s : Node σ α stations) : TxSystem := s.file 1
def tun (s : Node σ α stations) : Tun := s.file 2
def uart (s : Node σ α stations) : Uart := s.file 3

/-- Frames from the radio and packets from the TUN device have been signaled as they were read, once
and in order, bytes from the UART with their length, and sends are answered one by one. Nothing that
was read is still to be signaled when the process sleeps. -/
structure Serves (s : Node σ α stations) : Prop where
  heard : (radioIn s).received <+: deliveries (radioIn s).frames ∧ (radioIn s).exited = false
  sent : Framed (radioOut s)
  packets : (tun s).received <+: (tun s).packets
  reads : ReportsTrueLength (uart s)
  asleep : s.mote.pc = .select → (radioIn s).taskPosted = false ∧
    (radioIn s).bodyPending = false ∧ (radioOut s).sendP.sendDonePosted = false ∧
    (tun s).received = (tun s).packets ∧ settled (uart s) = uart s

/-- Whatever signals arrive, whichever descriptors are ready together, and whatever other tasks and
handlers post. -/
theorem serves_of_fair [DecidableEq σ] [DecidableEq α] (s : Node σ α stations)
    (h : (machine stations).Reachable (Allowed Fair) s) : Serves s := by
  have hkept := kept_of_reachable h
  have hin : InStep (radioIn s) := inStep_of_reachable (hkept.apart 0)
  have hout : InSync (radioOut s) := inSync_of_reachable (hkept.apart 1)
  have htun : InOrder (tun s) := inOrder_of_reachable (hkept.apart 2)
  have huart : Sound (uart s) := sound_of_reachable (hkept.apart 3)
  have hheard := hin.delivers
  refine ⟨⟨hheard.order, hheard.alive⟩, hout.framed, htun.isPrefix, huart.reportsTrueLength, ?_⟩
  intro hpc
  have hfree := hkept.blocks hpc
  exact ⟨(hfree 0).1, (hfree 0).2, (hfree 1).1, htun.received_eq (hfree 2).1,
    settled_of_not_posted (hfree 3).1⟩

/-- The descriptors 5 to 8 are registered, and no task is in the queue. -/
def boot : Node SchedulerSleep.MoteSignal ℕ stations where
  mote := { SchedulerSleep.bootedMote with
    queue := [], posted := [], pc := .atomicStart, ran := [] }
  table := (List.finRange 4).foldl
    (fun table id => IoManager.registerFileDescriptor id (5 + id) table) IoManager.boot
  due := []
  file
    | 0 => RadioReceive.startedState
    | 1 => txBoot
    | 2 => ⟨fun _ => 0, false, [], []⟩
    | 3 => bootedUart

theorem boot_booted : Booted boot := by
  have htable : (IoManager.machine 4).Reachable Machine.Any boot.table := by
    have h0 : (IoManager.machine 4).Reachable Machine.Any IoManager.boot := .start rfl
    exact h0.run [.registerFileDescriptor 0 5, .registerFileDescriptor 1 6,
      .registerFileDescriptor 2 7, .registerFileDescriptor 3 8] rfl
  refine ⟨⟨rfl, rfl, rfl, rfl, rfl⟩, fun _ => List.not_mem_nil, htable, rfl, ?_⟩
  intro i
  fin_cases i
  · exact RadioReceive.started_startedState
  · exact txBoot_initial
  · exact ⟨rfl, rfl, rfl⟩
  · exact booted_bootedUart

def frame : List UInt8 := [3, 0x11, 7, 0x85]
def packet : List UInt8 := List.replicate 40 0

abbrev MoteEvent := Event SchedulerSleep.MoteSignal ℕ stations

def radioEvent (e : RadioReceive.Event) : MoteEvent := .file 0 e
def tunEvent (e : TunReceive.Event) : MoteEvent := .file 2 e
def uartEvent (e : UartReceive.Event) : MoteEvent := .file 3 e
def mainSteps (k : ℕ) : List MoteEvent := List.replicate k (.main ∅)

/-- The radio, the TUN device and the UART are ready together. A handler that interrupts the read of
the radio's frame posts a task of its own, and all tasks run before the process sleeps again. -/
def session : List MoteEvent :=
  radioEvent (.driver frame) :: radioEvent .childWrite :: mainSteps 3 ++
    .main {5, 7, 8} :: radioEvent .receiveReady :: .arrive .sigalrm :: .deliver .sigalrm ::
    .post 7 :: .handlerReturn :: radioEvent .receiveBody ::
    tunEvent (.receiveReady (.bytes packet)) :: uartEvent (.receiveReady (.bytes sampleFrame)) ::
    mainSteps 8 ++ radioEvent (.task 1000 32) :: mainSteps 3 ++ tunEvent .receiveTask ::
    mainSteps 3 ++ uartEvent .task :: mainSteps 4

theorem session_fair (e : MoteEvent) (he : e ∈ session)
    (s : Node SchedulerSleep.MoteSignal ℕ stations) : Allowed Fair s e := by
  intro i f hf
  subst hf
  simp only [session, mainSteps, radioEvent, tunEvent, uartEvent, List.mem_append, List.mem_cons,
    List.mem_replicate, reduceCtorEq, and_false, or_false, false_or] at he
  rcases he with (((((h | h) | h | h | h | h) | h) | h) | h)
  all_goals cases h
  · rintro _ he
    cases he
    exact ⟨3, _, rfl, rfl, by decide, by decide⟩
  · rintro _ he
    cases he
  · rintro _ he
    cases he
  · rintro _ he
    cases he
  · rintro bs he hne
    cases he
    exact ⟨le_rfl, by decide⟩
  · exact (by decide : sampleFrame.length ≤ 255)
  · rintro _ he
    cases he
  · rintro _ he
    cases he
  · trivial

def outcome (s : Node SchedulerSleep.MoteSignal ℕ stations) :
    List (List UInt8) × List (List UInt8) × List (List UInt8) × List (Fin 4 ⊕ ℕ) :=
  ((radioIn s).received.map Delivery.data, (tun s).received, (uart s).log.map Received.bytes,
    s.mote.ran)

theorem serves_of_fair_together : ∃ s : Node SchedulerSleep.MoteSignal ℕ stations,
    (machine stations).run boot session = some s ∧ s.mote.pc = .select ∧
      outcome s = ([[3, 0x11]], [packet], [sampleFrame], [.inr 7, .inl 0, .inl 2, .inl 3]) ∧
      Serves s := by
  have hseen : ((machine stations).run boot session).map (fun s => (s.mote.pc, outcome s)) =
      some (.select, [[3, 0x11]], [packet], [sampleFrame],
        [.inr 7, .inl 0, .inl 2, .inl 3]) := by
    rfl
  obtain ⟨s, hs, hout⟩ := Option.map_eq_some_iff.mp hseen
  obtain ⟨hpc, hout⟩ := Prod.mk.inj hout
  have h0 : (machine stations).Reachable (Allowed Fair) boot := .start boot_booted
  exact ⟨s, hs, hpc, hout, serves_of_fair s (h0.run_of_forall session session_fair hs)⟩

end RpiCc2520.MoteInput
