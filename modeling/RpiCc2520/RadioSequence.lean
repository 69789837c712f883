import RpiCc2520.RadioDelivery

/-! `Send.send` of the radio layer over the link layer over the send module: the header every
transmission carries. The counter moves and the header is written before the link layer says
whether it takes the message. -/
namespace RpiCc2520.RadioSequence
open RadioMessage RadioLink RadioSend RadioDelivery

structure Header where
  length : UInt8
  dsn : UInt8
  deriving DecidableEq, Repr

def headerOf (msg : Message) : Header := ⟨msg.bytes 0, msg.bytes 3⟩

/-- An accepted send: the header it wrote and those of its transmissions, newest first. -/
structure Accepted where
  header : Header
  transmissions : List Header
  deriving DecidableEq, Repr

/-- A refused send: the counter and the message memory before and after the call. -/
structure Refused where
  before : UInt8 × (Ptr → Message)
  after : UInt8 × (Ptr → Message)

/-- The radio layer over the two below it, with the sends made so far, newest first. -/
structure Radio where
  sequenceNumber : UInt8
  stack : Stack
  accepted : List Accepted
  refused : List Refused

inductive RadioEvent
  | send (m : Ptr) (len : UInt8)
  | below (e : StackEvent)

/-- The message with the header `Send.send` gives it. -/
def withHeader (m : Ptr) (len : UInt8) (s : Radio) : Ptr → Message :=
  Function.update s.stack.link.mem m ((s.stack.link.mem m).setHeader len s.sequenceNumber)

def send (m : Ptr) (len : UInt8) (s : Radio) : Option Radio :=
  let mem := withHeader m len s
  let link := { s.stack.link with mem := mem }
  let error := (RadioLink.send m link).1
  (stackStep { s.stack with link := link } (.send m)).map fun stack =>
    { sequenceNumber := s.sequenceNumber + 1
      stack := stack
      accepted := if error = success then ⟨headerOf (mem m), []⟩ :: s.accepted else s.accepted
      refused := if error = success then s.refused
        else ⟨(s.sequenceNumber, s.stack.link.mem),
          (s.sequenceNumber + 1, stack.link.mem)⟩ :: s.refused }

/-- Every transmission is one for the latest accepted send. -/
def transmitted (h : Header) : List Accepted → List Accepted
  | [] => []
  | a :: rest => { a with transmissions := h :: a.transmissions } :: rest

/-- A step of the lower layers; a transmission they make is noted with the header it has. -/
def below (e : StackEvent) (s : Radio) : Option Radio :=
  (stackStep s.stack e).map fun stack =>
    { s with
      stack := stack
      accepted := match e with
        | .task _ =>
            if stack.link.outstanding = s.stack.link.outstanding then s.accepted
            else transmitted (headerOf (stack.link.mem stack.link.currentMsg)) s.accepted
        | _ => s.accepted }

/-- The link layer has no other user. -/
def radioStep (s : Radio) : RadioEvent → Option Radio
  | .send m len => send m len s
  | .below (.send _) => none
  | .below e => below e s

def radioMachine : Machine Radio RadioEvent :=
  ⟨fun s => stackMachine.initial s.stack ∧ s.accepted = [] ∧ s.refused = [], radioStep⟩

/-- What a receiver that drops duplicates by sequence number relies on. -/
structure SequenceKept (s : Radio) : Prop where
  constant : ∀ a ∈ s.accepted, ∀ h ∈ a.transmissions, h = a.header
  consecutive : s.accepted.IsChain fun newer older => newer.header.dsn = older.header.dsn + 1
  refusals : ∀ r ∈ s.refused, r.after = r.before

/-- No send is made while the link layer is busy with another. -/
def LinkReady (s : Radio) : RadioEvent → Prop
  | .send _ _ => s.stack.link.state = stateReady
  | .below _ => True

/-- What the lower layers leave as it is when no message is accepted. -/
structure Untouched (s t : Link) : Prop where
  currentMsg : t.currentMsg = s.currentMsg
  bytes : s.state ≠ stateReady →
    (t.mem s.currentMsg).bytes = (s.mem s.currentMsg).bytes
  ready : s.state = stateReady → t.state = stateReady

theorem untouched_cancel (m : Ptr) (s : Link) : Untouched s (cancel m s).2 := by
  unfold cancel
  by_cases hm : s.currentMsg ≠ m ∨ s.state = stateReady
  · rw [if_pos hm]
    exact ⟨rfl, fun _ => rfl, id⟩
  · rw [if_neg hm]
    have hs : s.state ≠ stateReady := (not_or.mp hm).2
    by_cases hd : s.state = stateSendDone
    · rw [if_pos hd]
      exact ⟨rfl, fun _ => rfl, fun h => absurd h hs⟩
    · rw [if_neg hd]
      exact ⟨rfl, fun _ => rfl, fun h => absurd h hs⟩

theorem answer_bytes (retries : UInt16) (s : Link) (m : Ptr) :
    ((answer retries s).mem m).bytes = (s.mem m).bytes := by
  unfold answer
  by_cases hr : 0 < retries
  · by_cases hm : m = s.currentMsg
    · subst hm
      simp [note, hr, Message.setRetries]
    · simp [note, hr, Function.update_of_ne hm]
  · simp [note, hr]

theorem transmit_frame (sub : UInt8) (s : Link) :
    (transmit sub s).currentMsg = s.currentMsg ∧ (transmit sub s).mem = s.mem := by
  unfold transmit
  by_cases hs : sub ≠ success
  · simp [hs, post, subSend, note]
  · simp [hs, subSend, note]

theorem untouched_task {sub : UInt8} {s t : Link} (h : TaskOutcome sub s t) :
    Untouched s t ∧ (s.state = stateReady → t.outstanding = s.outstanding) := by
  cases h with
  | acked phase =>
    have hs : s.state ≠ stateReady := by rw [phase]; exact sendDone_ne_ready
    exact ⟨⟨rfl, fun _ => answer_bytes _ _ _, fun h => absurd h hs⟩, fun h => absurd h hs⟩
  | exhausted phase =>
    have hs : s.state ≠ stateReady := by rw [phase]; exact sendDone_ne_ready
    exact ⟨⟨rfl, fun _ => answer_bytes _ _ _, fun h => absurd h hs⟩, fun h => absurd h hs⟩
  | delayed phase =>
    have hs : s.state ≠ stateReady := by rw [phase]; exact sendDone_ne_ready
    exact ⟨⟨rfl, fun _ => rfl, fun h => absurd h hs⟩, fun h => absurd h hs⟩
  | retried phase =>
    have hs : s.state ≠ stateReady := by rw [phase]; exact sendDone_ne_ready
    obtain ⟨hc, hm⟩ := transmit_frame sub
      { s with totalRetries := s.totalRetries + 1, state := stateSending }
    exact ⟨⟨hc, fun _ => by rw [hm], fun h => absurd h hs⟩, fun h => absurd h hs⟩
  | attempt phase =>
    have hs : s.state ≠ stateReady := by rw [phase]; exact sending_ne_ready
    obtain ⟨hc, hm⟩ := transmit_frame sub s
    exact ⟨⟨hc, fun _ => by rw [hm], fun h => absurd h hs⟩, fun h => absurd h hs⟩
  | report phase =>
    have hs := signal_ne_ready phase
    exact ⟨⟨rfl, fun _ => answer_bytes _ _ _, fun h => absurd h hs⟩, fun h => absurd h hs⟩
  | idle => exact ⟨⟨rfl, fun _ => rfl, id⟩, fun _ => rfl⟩

theorem linkTask_link (pad : Vector UInt8 3) (s : Stack) :
    (linkTask pad s).link = sendTask success { s.link with sendPosted := false } := by
  unfold linkTask
  dsimp only
  split <;> rfl

theorem untouched_linkTask (pad : Vector UInt8 3) (s : Stack) :
    Untouched s.link (linkTask pad s).link ∧ (s.link.state = stateReady →
      (linkTask pad s).link.outstanding = s.link.outstanding) := by
  obtain ⟨⟨hc, hb, hr⟩, ho⟩ :=
    untouched_task (sendTask_outcome success { s.link with sendPosted := false })
  rw [linkTask_link]
  exact ⟨⟨hc, hb, hr⟩, ho⟩

theorem setVerdict_bytes (msg : Message) (v : Option Bool) :
    (setVerdict msg v).bytes = msg.bytes := by
  cases v <;> rfl

theorem untouched_completeTask (s : Stack) : Untouched s.link (completeTask s).link := by
  constructor
  · rfl
  · intro _
    by_cases hm : s.link.currentMsg = ptrAt s.sendP.sendHdr
    · simp [completeTask, subSendDone, note, post, sendDoneTask, ← hm, setVerdict_bytes]
    · simp [completeTask, subSendDone, note, post, sendDoneTask, Function.update_of_ne hm]
  · intro h
    simpa [completeTask, subSendDone, note, post] using h

/-- Without a send the lower layers leave the message they are at alone. -/
theorem untouched_stackStep {s t : Stack} {e : StackEvent} (he : ∀ m, e ≠ .send m)
    (hst : stackStep s e = some t) : Untouched s.link t.link := by
  cases e with
  | send m => exact absurd rfl (he m)
  | cancel m =>
    cases hst
    exact untouched_cancel m s.link
  | fired =>
    simp only [stackStep, Option.ite_none_right_eq_some] at hst
    obtain ⟨-, hst⟩ := hst
    cases hst
    exact ⟨rfl, fun _ => rfl, id⟩
  | task pad =>
    simp only [stackStep, Option.ite_none_right_eq_some] at hst
    obtain ⟨-, hst⟩ := hst
    cases hst
    exact (untouched_linkTask pad s).1
  | child ret =>
    obtain ⟨u, -, rfl⟩ := Option.map_eq_some_iff.mp hst
    exact ⟨rfl, fun _ => rfl, id⟩
  | receiveReady =>
    cases hst
    exact ⟨rfl, fun _ => rfl, id⟩
  | sendDoneTask =>
    simp only [stackStep, Option.ite_none_right_eq_some] at hst
    obtain ⟨-, hst⟩ := hst
    cases hst
    exact untouched_completeTask s
  | write m msg =>
    simp only [stackStep, Option.ite_none_right_eq_some] at hst
    obtain ⟨hw, hst⟩ := hst
    cases hst
    constructor
    · rfl
    · intro hs
      have hm : s.link.currentMsg ≠ m := by
        intro hc
        exact hw.elim hs fun h => h hc.symm
      simp [Function.update_of_ne hm]
    · exact id

theorem send_cases {m : Ptr} {len : UInt8} {s t : Radio} (hst : send m len s = some t) :
    (s.stack.link.state = stateReady ∧ t.sequenceNumber = s.sequenceNumber + 1 ∧
      t.accepted = ⟨⟨len + 1, s.sequenceNumber⟩, []⟩ :: s.accepted ∧ t.refused = s.refused ∧
      headerOf (t.stack.link.mem t.stack.link.currentMsg) = ⟨len + 1, s.sequenceNumber⟩) ∨
    (s.stack.link.state ≠ stateReady ∧ ∃ mem, t.refused =
      ⟨(s.sequenceNumber, s.stack.link.mem), (s.sequenceNumber + 1, mem)⟩ :: s.refused) := by
  obtain ⟨u, hu, rfl⟩ := Option.map_eq_some_iff.mp hst
  have hheader : headerOf (withHeader m len s m) = ⟨len + 1, s.sequenceNumber⟩ := by
    simp [withHeader, headerOf, Message.setHeader]
  by_cases hs : s.stack.link.state = stateReady
  · simp only [stackStep, send_of_ready (s := { s.stack.link with mem := withHeader m len s }) m hs,
      if_true, Option.some.injEq] at hu ⊢
    subst hu
    rw [hheader]
    refine .inl ⟨hs, trivial, rfl, trivial, ?_⟩
    -- asking for an ack changes neither of the two bytes
    by_cases hr : 0 < (withHeader m len s m).getRetries
    · simpa [note, post, hr, headerOf, Message.requestAck] using hheader
    · simpa [note, post, hr] using hheader
  · simp only [send_of_busy (s := { s.stack.link with mem := withHeader m len s }) m hs,
      if_neg ebusy_ne_success]
    exact .inr ⟨hs, _, rfl⟩

/-- The counter is one past the latest accepted send's number, and while the link layer is busy
the message it is at carries that send's header. -/
structure InStep (s : Radio) : Prop where
  unrefused : s.refused = []
  constant : ∀ a ∈ s.accepted, ∀ h ∈ a.transmissions, h = a.header
  consecutive : s.accepted.IsChain fun newer older => newer.header.dsn = older.header.dsn + 1
  latest : ∀ a ∈ s.accepted.head?, s.sequenceNumber = a.header.dsn + 1
  current : s.stack.link.state ≠ stateReady → ∃ a rest, s.accepted = a :: rest ∧
    headerOf (s.stack.link.mem s.stack.link.currentMsg) = a.header

theorem inStep_initial {s : Radio} (h : radioMachine.initial s) : InStep s := by
  obtain ⟨⟨⟨hs, -⟩, -⟩, ha, hr⟩ := h
  constructor
  · exact hr
  · simp [ha]
  · simp [ha]
  · simp [ha]
  · intro hne
    exact absurd hs hne

theorem inStep_send {s t : Radio} {m : Ptr} {len : UInt8} (h : InStep s)
    (ok : s.stack.link.state = stateReady) (hst : send m len s = some t) : InStep t := by
  rcases send_cases hst with ⟨-, hn, ha, hr, hh⟩ | ⟨hne, -⟩
  · constructor
    · rw [hr]
      exact h.unrefused
    · intro a hm
      rw [ha, List.mem_cons] at hm
      rcases hm with rfl | hm
      · simp
      · exact h.constant a hm
    · rw [ha]
      exact List.IsChain.cons h.consecutive h.latest
    · simp [ha, hn]
    · intro _
      exact ⟨_, _, ha, hh⟩
  · exact absurd ok hne

theorem inStep_untouched {s : Radio} (h : InStep s) {stack : Stack}
    (hu : Untouched s.stack.link stack.link) : InStep { s with stack := stack } := by
  refine ⟨h.unrefused, h.constant, h.consecutive, h.latest, ?_⟩
  intro hs
  have hs' : s.stack.link.state ≠ stateReady := fun hr => hs (hu.ready hr)
  obtain ⟨a, rest, ha, hh⟩ := h.current hs'
  refine ⟨a, rest, ha, ?_⟩
  simp only [headerOf, hu.currentMsg, hu.bytes hs']
  exact hh

theorem inStep_transmitted {s : Radio} (h : InStep s) {header : Header}
    (hcur : ∃ a rest, s.accepted = a :: rest ∧ header = a.header) :
    InStep { s with accepted := transmitted header s.accepted } := by
  obtain ⟨a, rest, ha, rfl⟩ := hcur
  obtain ⟨hu, hc, hk, hl, hcur⟩ := h
  rw [ha] at hc hk hl hcur
  rw [ha]
  constructor
  · exact hu
  · intro b hb
    rcases List.mem_cons.mp hb with rfl | hb
    · simpa using hc a List.mem_cons_self
    · exact hc b (List.mem_cons_of_mem a hb)
  · cases rest with
    | nil => exact List.isChain_singleton _
    | cons b rest => exact List.isChain_cons_cons.mpr (List.isChain_cons_cons.mp hk)
  · simpa [transmitted] using hl
  · intro hs
    obtain ⟨b, tail, hb, hh⟩ := hcur hs
    obtain ⟨rfl, rfl⟩ := List.cons.inj hb
    exact ⟨_, _, rfl, hh⟩

theorem inStep_below {s t : Radio} {e : StackEvent} (h : InStep s) (he : ∀ m, e ≠ .send m)
    (hst : below e s = some t) : InStep t := by
  obtain ⟨stack, hu, rfl⟩ := Option.map_eq_some_iff.mp hst
  have hsame := untouched_stackStep he hu
  have hkept := inStep_untouched h hsame
  cases e with
  | task pad =>
    by_cases ho : stack.link.outstanding = s.stack.link.outstanding
    · simpa [ho] using hkept
    · have hs : s.stack.link.state ≠ stateReady := by
        simp only [stackStep, Option.ite_none_right_eq_some, Option.some.injEq] at hu
        obtain ⟨-, rfl⟩ := hu
        intro hr
        exact ho ((untouched_linkTask pad s.stack).2 hr)
      obtain ⟨a, rest, ha, hh⟩ := h.current hs
      simp only [ho, if_false]
      apply inStep_transmitted hkept
      refine ⟨a, rest, ha, ?_⟩
      simp only [headerOf, hsame.currentMsg, hsame.bytes hs]
      exact hh
  | send m => exact absurd rfl (he m)
  | _ => exact hkept

theorem radioStep_cases {s t : Radio} {e : RadioEvent} (hst : radioStep s e = some t) :
    (∃ m len, e = .send m len ∧ send m len s = some t) ∨
      ∃ e', e = .below e' ∧ (∀ m, e' ≠ .send m) ∧ below e' s = some t := by
  cases e with
  | send m len => exact .inl ⟨m, len, rfl, hst⟩
  | below e' =>
    cases e' with
    | send m => cases hst
    | _ => exact .inr ⟨_, rfl, nofun, hst⟩

theorem inStep_step {s t : Radio} {e : RadioEvent} (h : InStep s) (ok : LinkReady s e)
    (hst : radioStep s e = some t) : InStep t := by
  rcases radioStep_cases hst with ⟨m, len, rfl, hst⟩ | ⟨e', rfl, he, hst⟩
  · exact inStep_send h ok hst
  · exact inStep_below h he hst

theorem InStep.sequenceKept {s : Radio} (h : InStep s) : SequenceKept s := by
  refine ⟨h.constant, h.consecutive, ?_⟩
  simp [h.unrefused]

/-- A refused send leaves its mark: the counter it found is not the one it left. -/
theorem refused_step {s t : Radio} {e : RadioEvent} (hst : radioStep s e = some t) :
    (LinkReady s e ∧ t.refused = s.refused) ∨
      ∃ r, t.refused = r :: s.refused ∧ r.after ≠ r.before := by
  rcases radioStep_cases hst with ⟨m, len, rfl, hst⟩ | ⟨e', rfl, he, hst⟩
  · rcases send_cases hst with ⟨hs, -, -, hr, -⟩ | ⟨-, mem, hr⟩
    · exact .inl ⟨hs, hr⟩
    · refine .inr ⟨_, hr, ?_⟩
      intro hsame
      simp at hsame
  · obtain ⟨stack, -, rfl⟩ := Option.map_eq_some_iff.mp hst
    exact .inl ⟨trivial, rfl⟩

/-- In any run, either no send was refused so far, or one was and it moved the counter. -/
theorem linkReady_or_moved {s : Radio} (h : radioMachine.Reachable Machine.Any s) :
    radioMachine.Reachable LinkReady s ∨ ∃ r ∈ s.refused, r.after ≠ r.before := by
  apply h.ok_or_broken
  · intro s e t _ hbusy hst
    rcases refused_step hst with ⟨ok, -⟩ | ⟨r, hr, hne⟩
    · exact absurd ok hbusy
    · exact ⟨r, by rw [hr]; exact List.mem_cons_self, hne⟩
  · intro s e t hmoved hst
    rcases refused_step hst with ⟨-, hr⟩ | ⟨r, hr, hne⟩
    · rw [hr]
      exact hmoved
    · exact ⟨r, by rw [hr]; exact List.mem_cons_self, hne⟩

/-- Header and counter behave exactly as long as no send is made while the link layer is busy. -/
theorem sequenceKept_iff_linkReady (s : Radio) (h : radioMachine.Reachable Machine.Any s) :
    SequenceKept s ↔ radioMachine.Reachable LinkReady s := by
  constructor
  · intro hk
    rcases linkReady_or_moved h with hr | ⟨r, hr, hne⟩
    · exact hr
    · exact absurd (hk.refusals r hr) hne
  · intro hr
    have hs : InStep s := hr.invariant (fun _ => inStep_initial) fun _ _ _ => inStep_step
    exact hs.sequenceKept

def retriedMessage : Message := { (default : Message) with maxRetries := 3 }

def radioBoot : Radio := ⟨0, ⟨bootState fun _ => retriedMessage, startedState, 0, none⟩, [], []⟩

theorem radioBoot_reachable : radioMachine.Reachable Machine.Any radioBoot :=
  .start ⟨⟨boot_bootState _, started_startedState, rfl⟩, rfl, rfl⟩

/-- A send of ten bytes whose first transmission is not acked. -/
def missedOnce : List RadioEvent :=
  [.send 16 10, .below (.task default), .below (.child 0), .below (.child 0),
    .below (.child cc2520TxAckTimeout), .below (.child 0), .below .receiveReady,
    .below .sendDoneTask]

/-- The retry repeats the header. -/
theorem sequenceKept_iff_linkReady_retry :
    ∃ s, s.accepted = [⟨⟨11, 0⟩, [⟨11, 0⟩, ⟨11, 0⟩]⟩] ∧
      (SequenceKept s ↔ radioMachine.Reachable LinkReady s) := by
  have hrun : (radioMachine.run radioBoot (missedOnce ++ [.below (.task default)])).map
      Radio.accepted = some [⟨⟨11, 0⟩, [⟨11, 0⟩, ⟨11, 0⟩]⟩] := by decide +kernel
  obtain ⟨s, hs, ha⟩ := Option.map_eq_some_iff.mp hrun
  exact ⟨s, ha, sequenceKept_iff_linkReady s (radioBoot_reachable.run _ hs)⟩

/-- A second send of the message in flight is refused, and the retry goes out under its
number. -/
theorem refused_send_renumbers_retry :
    ∃ s, radioMachine.Reachable Machine.Any s ∧
      s.accepted = [⟨⟨11, 0⟩, [⟨11, 1⟩, ⟨11, 0⟩]⟩] ∧ s.refused.length = 1 ∧ ¬SequenceKept s := by
  have hrun : (radioMachine.run radioBoot
      (missedOnce ++ [.send 16 10, .below (.task default)])).map
        (fun s => (s.accepted, s.refused.length)) =
          some ([⟨⟨11, 0⟩, [⟨11, 1⟩, ⟨11, 0⟩]⟩], 1) := by decide +kernel
  obtain ⟨s, hs, ha⟩ := Option.map_eq_some_iff.mp hrun
  obtain ⟨ha, hr⟩ := Prod.mk.inj ha
  refine ⟨s, radioBoot_reachable.run _ hs, ha, hr, ?_⟩
  intro hk
  have hsame := hk.constant _ (by rw [ha]; exact List.mem_cons_self) _ List.mem_cons_self
  exact absurd hsame (by decide)

end RpiCc2520.RadioSequence
