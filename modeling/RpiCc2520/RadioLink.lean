import RpiCc2520.EventMachine
import RpiCc2520.RadioMessage

/-! The link layer: one accepted send at a time, retried until it is acked. The state byte
holds the phase and, from `stateSignal` on, the error code to report. -/
namespace RpiCc2520.RadioLink
open RadioMessage

def stateReady : UInt8 := 0
def stateSending : UInt8 := 1
def stateSendDone : UInt8 := 2
def stateSignal : UInt8 := 4

/-- Calls and events that cross the layer's two interfaces. -/
inductive Call
  | accepted (m : Ptr)
  | sendDone (m : Ptr) (error : UInt8)
  | subSend (m : Ptr) (result : UInt8)
  | subSendDone (m : Ptr) (error : UInt8)
  | subCancel (m : Ptr)
  | startOneShot (delay : UInt16)
  deriving DecidableEq, Repr

/-- The variables of the component, the message memory, what the scheduler and the timer
hold for it, the transmissions the lower layer still owes an answer, and the calls made so
far, newest first. -/
structure Link where
  state : UInt8
  currentMsg : Ptr
  totalRetries : UInt16
  mem : Ptr → Message
  sendPosted : Bool
  delayTimer : Option UInt16
  outstanding : List Ptr
  log : List Call

/-- After boot: nothing accepted, nothing pending. -/
def Boot (s : Link) : Prop :=
  s.state = stateReady ∧ s.sendPosted = false ∧ s.delayTimer = none ∧
    s.outstanding = [] ∧ s.log = []

def bootState (mem : Ptr → Message) : Link :=
  ⟨stateReady, 0, 0, mem, false, none, [], []⟩

theorem boot_bootState (mem : Ptr → Message) : Boot (bootState mem) := ⟨rfl, rfl, rfl, rfl, rfl⟩

/-- Posting a posted task is a no-op. -/
def post (s : Link) : Link := { s with sendPosted := true }

def note (c : Call) (s : Link) : Link := { s with log := c :: s.log }

/-- `SubSend.send`: an accepted transmission is owed one `SubSend.sendDone`. -/
def subSend (sub : UInt8) (s : Link) : Link :=
  note (.subSend s.currentMsg sub)
    { s with outstanding := if sub = success then s.currentMsg :: s.outstanding
                            else s.outstanding }

def startOneShot (delay : UInt16) (s : Link) : Link :=
  note (.startOneShot delay) { s with delayTimer := some delay }

/-- The branch `state == STATE_SENDING` of the task. -/
def transmit (sub : UInt8) (s : Link) : Link :=
  let s := subSend sub { s with state := stateSendDone }
  if sub ≠ success then post s else s

/-- The branch `state >= STATE_SIGNAL` of the task. -/
def answer (retries : UInt16) (s : Link) : Link :=
  let error := s.state - stateSignal
  let mem := if 0 < retries then
      Function.update s.mem s.currentMsg ((s.mem s.currentMsg).setRetries s.totalRetries)
    else s.mem
  note (.sendDone s.currentMsg error) { s with mem := mem, state := stateReady }

/-- The rest of the task, once a finished attempt has been judged. -/
def resume (sub : UInt8) (retries : UInt16) (s : Link) : Link :=
  if s.state = stateSending then transmit sub s
  else if stateSignal ≤ s.state then answer retries s
  else s

/-- The task `send`; `sub` is what `SubSend.send` returns if the task calls it. -/
def sendTask (sub : UInt8) (s : Link) : Link :=
  let msg := s.mem s.currentMsg
  let retries := msg.getRetries
  if s.state = stateSendDone then
    if retries = 0 ∨ msg.wasAcked then
      resume sub retries { s with state := stateSignal + success }
    else if s.totalRetries + 1 < retries then
      let s := { s with totalRetries := s.totalRetries + 1, state := stateSending }
      if 0 < msg.getRetryDelay then startOneShot msg.getRetryDelay s
      else resume sub retries s
    else
      resume sub retries
        { s with totalRetries := s.totalRetries + 1, state := stateSignal + fail }
  else resume sub retries s

def subSendDone (error : UInt8) (s : Link) : Link :=
  post (if error ≠ success then { s with state := stateSignal + error } else s)

def send (m : Ptr) (s : Link) : UInt8 × Link :=
  if s.state ≠ stateReady then (ebusy, s)
  else
    let mem := if 0 < (s.mem m).getRetries then Function.update s.mem m (s.mem m).requestAck
      else s.mem
    (success, note (.accepted m) (post { s with
      mem := mem, currentMsg := m, totalRetries := 0, state := stateSending }))

/-- `Send.cancel`. The result of `SubSend.cancel` is not looked at. -/
def cancel (m : Ptr) (s : Link) : UInt8 × Link :=
  if s.currentMsg ≠ m ∨ s.state = stateReady then (fail, s)
  else
    let s := if s.state = stateSendDone then note (.subCancel m) s else post s
    (success, { s with delayTimer := none, state := stateSignal + ecancel })

inductive Event
  | send (m : Ptr)
  | cancel (m : Ptr)
  | subSendDone (m : Ptr) (error : UInt8)
  | fired
  | task (sub : UInt8)
  | write (m : Ptr) (msg : Message)

/-- A popped task is no longer posted while it runs, a one-shot timer that fires is no longer
armed, and anyone may write message memory between two events. -/
def step (s : Link) : Event → Option Link
  | .send m => some (send m s).2
  | .cancel m => some (cancel m s).2
  | .subSendDone m error =>
      if m ∈ s.outstanding ∧ error.toNat < 252 then
        some (subSendDone error (note (.subSendDone m error)
          { s with outstanding := s.outstanding.erase m }))
      else none
  | .fired => if s.delayTimer.isSome then some (post { s with delayTimer := none }) else none
  | .task sub =>
      if s.sendPosted then some (sendTask sub { s with sendPosted := false }) else none
  | .write m msg => some { s with mem := Function.update s.mem m msg }

def machine : Machine Link Event := ⟨Boot, step⟩

theorem send_of_ready (m : Ptr) {s : Link} (h : s.state = stateReady) :
    send m s = (success, note (.accepted m) (post { s with
      mem := if 0 < (s.mem m).getRetries then Function.update s.mem m (s.mem m).requestAck
        else s.mem
      currentMsg := m, totalRetries := 0, state := stateSending })) :=
  if_neg (not_not.mpr h)

theorem send_of_busy (m : Ptr) {s : Link} (h : s.state ≠ stateReady) : send m s = (ebusy, s) :=
  if_pos h

theorem signal_le {e : UInt8} (he : e.toNat < 252) : stateSignal ≤ stateSignal + e := by
  simp only [UInt8.le_iff_toNat_le, UInt8.toNat_add, stateSignal]
  have : (4 : UInt8).toNat = 4 := rfl
  omega

/-- Everything one run of the task can do, with the guards that led there. -/
inductive TaskOutcome (sub : UInt8) (s : Link) : Link → Prop
  | acked (phase : s.state = stateSendDone)
      (done : (s.mem s.currentMsg).getRetries = 0 ∨ (s.mem s.currentMsg).wasAcked = true) :
      TaskOutcome sub s (answer (s.mem s.currentMsg).getRetries
        { s with state := stateSignal + success })
  | exhausted (phase : s.state = stateSendDone)
      (missed : ¬((s.mem s.currentMsg).getRetries = 0 ∨ (s.mem s.currentMsg).wasAcked = true))
      (last : ¬s.totalRetries + 1 < (s.mem s.currentMsg).getRetries) :
      TaskOutcome sub s (answer (s.mem s.currentMsg).getRetries
        { s with totalRetries := s.totalRetries + 1, state := stateSignal + fail })
  | delayed (phase : s.state = stateSendDone)
      (missed : ¬((s.mem s.currentMsg).getRetries = 0 ∨ (s.mem s.currentMsg).wasAcked = true))
      (more : s.totalRetries + 1 < (s.mem s.currentMsg).getRetries)
      (pause : 0 < (s.mem s.currentMsg).getRetryDelay) :
      TaskOutcome sub s (startOneShot (s.mem s.currentMsg).getRetryDelay
        { s with totalRetries := s.totalRetries + 1, state := stateSending })
  | retried (phase : s.state = stateSendDone)
      (missed : ¬((s.mem s.currentMsg).getRetries = 0 ∨ (s.mem s.currentMsg).wasAcked = true))
      (more : s.totalRetries + 1 < (s.mem s.currentMsg).getRetries)
      (pause : ¬0 < (s.mem s.currentMsg).getRetryDelay) :
      TaskOutcome sub s (transmit sub
        { s with totalRetries := s.totalRetries + 1, state := stateSending })
  | attempt (phase : s.state = stateSending) : TaskOutcome sub s (transmit sub s)
  | report (phase : stateSignal ≤ s.state) :
      TaskOutcome sub s (answer (s.mem s.currentMsg).getRetries s)
  | idle (notDone : s.state ≠ stateSendDone) (notSending : s.state ≠ stateSending)
      (notSignal : ¬stateSignal ≤ s.state) : TaskOutcome sub s s

theorem sending_not_signal : ¬stateSignal ≤ stateSending := by decide
theorem sending_ne_ready : stateSending ≠ stateReady := by decide
theorem sendDone_ne_ready : stateSendDone ≠ stateReady := by decide
theorem sending_ne_sendDone : stateSending ≠ stateSendDone := by decide
theorem ecancel_ne_sendDone : stateSignal + ecancel ≠ stateSendDone := by decide
theorem ebusy_ne_success : ebusy ≠ success := by decide

theorem signal_ne_sending {state : UInt8} (h : stateSignal ≤ state) : state ≠ stateSending := by
  rintro rfl
  exact absurd h (by decide)

theorem signal_ne_sendDone {state : UInt8} (h : stateSignal ≤ state) :
    state ≠ stateSendDone := by
  rintro rfl
  exact absurd h (by decide)

theorem signal_ne_ready {state : UInt8} (h : stateSignal ≤ state) : state ≠ stateReady := by
  rintro rfl
  exact absurd h (by decide)

theorem resume_of_sending (sub : UInt8) (retries : UInt16) {s : Link}
    (h : s.state = stateSending) : resume sub retries s = transmit sub s := if_pos h

theorem resume_of_signal (sub : UInt8) (retries : UInt16) {s : Link}
    (h : stateSignal ≤ s.state) : resume sub retries s = answer retries s := by
  rw [resume, if_neg (signal_ne_sending h), if_pos h]

theorem sendTask_of_sending (sub : UInt8) {s : Link} (h : s.state = stateSending) :
    sendTask sub s = transmit sub s := by
  unfold sendTask
  rw [if_neg (by rw [h]; decide), resume_of_sending sub _ h]

theorem sendTask_outcome (sub : UInt8) (s : Link) : TaskOutcome sub s (sendTask sub s) := by
  unfold sendTask
  by_cases hd : s.state = stateSendDone
  · rw [if_pos hd]
    by_cases hr : (s.mem s.currentMsg).getRetries = 0 ∨ (s.mem s.currentMsg).wasAcked = true
    · rw [if_pos hr, resume_of_signal sub _ (signal_le (by decide))]
      exact .acked hd hr
    rw [if_neg hr]
    by_cases hm : s.totalRetries + 1 < (s.mem s.currentMsg).getRetries
    · rw [if_pos hm]
      by_cases hp : 0 < (s.mem s.currentMsg).getRetryDelay
      · rw [if_pos hp]
        exact .delayed hd hr hm hp
      · rw [if_neg hp, resume_of_sending sub _ rfl]
        exact .retried hd hr hm hp
    · rw [if_neg hm, resume_of_signal sub _ (signal_le (by decide))]
      exact .exhausted hd hr hm
  · rw [if_neg hd]
    by_cases hs : s.state = stateSending
    · rw [resume_of_sending sub _ hs]
      exact .attempt hs
    by_cases hg : stateSignal ≤ s.state
    · rw [resume_of_signal sub _ hg]
      exact .report hg
    · rw [resume, if_neg hs, if_neg hg]
      exact .idle hd hs hg

end RpiCc2520.RadioLink
