import RpiCc2520.RadioLink

/-! Every accepted send is answered once, and no buffer is handed back while the driver may
still use it, as long as a cancelled transmission is not cancelled again. -/
namespace RpiCc2520.RadioLink
open RadioMessage

def accepted : List Call → List Ptr
  | [] => []
  | .accepted m :: log => m :: accepted log
  | _ :: log => accepted log

def answered : List Call → List Ptr
  | [] => []
  | .sendDone m _ :: log => m :: answered log
  | _ :: log => answered log

/-- The transmissions the lower layer accepted and has not completed. -/
def inFlight : List Call → List Ptr
  | [] => []
  | .subSend m result :: log => if result = success then m :: inFlight log else inFlight log
  | .subSendDone m _ :: log => (inFlight log).erase m
  | _ :: log => inFlight log

/-- At every `Send.sendDone` in the log no transmission of its message was outstanding. -/
def HandedBackIdle : List Call → Prop
  | [] => True
  | .sendDone m _ :: log => m ∉ inFlight log ∧ HandedBackIdle log
  | _ :: log => HandedBackIdle log

/-- What the layer owes its user: the answers so far are the oldest accepted sends, in order
and once each; a message handed back is out of the driver; a send made while another is
unanswered is refused and changes nothing. -/
structure Answers (s : Link) : Prop where
  once : answered s.log <:+ accepted s.log
  idle : HandedBackIdle s.log
  busy : answered s.log ≠ accepted s.log → ∀ m, send m s = (ebusy, s)

/-- `Send.cancel` is not called for the current message while an error is already waiting to
be reported and the transmission is still outstanding. -/
def CancelledOnce (s : Link) (e : Event) : Prop :=
  e = .cancel s.currentMsg → stateSignal ≤ s.state → s.outstanding = []

instance (s : Link) : DecidablePred (CancelledOnce s)
  | .cancel m => decidable_of_iff (m = s.currentMsg → stateSignal ≤ s.state → s.outstanding = [])
      ⟨fun h he => h (Event.cancel.inj he), fun h hm => h (congrArg Event.cancel hm)⟩
  | .send _ | .subSendDone _ _ | .fired | .task _ | .write _ _ => .isTrue nofun

inductive Phase (s : Link) : Prop
  | ready (state : s.state = stateReady) (posted : s.sendPosted = false)
      (timer : s.delayTimer = none) (free : s.outstanding = [])
      (owed : accepted s.log = answered s.log)
  | waiting (state : s.state = stateSending) (wake : s.sendPosted = s.delayTimer.isNone)
      (free : s.outstanding = []) (owed : accepted s.log = s.currentMsg :: answered s.log)
  | attempted (state : s.state = stateSendDone ∨ stateSignal ≤ s.state)
      (timer : s.delayTimer = none)
      (wake : s.sendPosted = true ∧ s.outstanding = [] ∨
        s.sendPosted = false ∧ s.outstanding = [s.currentMsg])
      (owed : accepted s.log = s.currentMsg :: answered s.log)

structure Ordered (s : Link) : Prop where
  phase : Phase s
  idle : HandedBackIdle s.log
  flight : inFlight s.log = s.outstanding

theorem ordered_boot {s : Link} (h : Boot s) : Ordered s := by
  obtain ⟨hs, hp, ht, ho, hl⟩ := h
  refine ⟨.ready hs hp ht ho ?_, ?_, ?_⟩
  · rw [hl]; rfl
  · rw [hl]; trivial
  · rw [hl, ho]; rfl

theorem ordered_send {s : Link} (h : Ordered s) (m : Ptr) : Ordered (send m s).2 := by
  by_cases hs : s.state = stateReady
  · rw [send_of_ready m hs]
    cases h.phase with
    | ready state posted timer free owed =>
      refine ⟨.waiting rfl ?_ free ?_, h.idle, h.flight⟩
      · simp [note, post, timer]
      · simp [note, post, accepted, answered, owed]
    | waiting state => exact absurd (state.symm.trans hs) sending_ne_ready
    | attempted state =>
      rcases state with state | state
      · exact absurd (state.symm.trans hs) sendDone_ne_ready
      · exact absurd hs (signal_ne_ready state)
  · rw [send_of_busy m hs]
    exact h

theorem ordered_cancel {s : Link} (h : Ordered s) (m : Ptr)
    (ok : CancelledOnce s (.cancel m)) : Ordered (cancel m s).2 := by
  unfold cancel
  split_ifs with hm hd
  · exact h
  · push Not at hm
    cases h.phase with
    | ready state => exact absurd state hm.2
    | waiting state => exact absurd (state.symm.trans hd) sending_ne_sendDone
    | attempted state timer wake owed =>
      exact ⟨.attempted (.inr (signal_le (by decide))) rfl wake owed, h.idle, h.flight⟩
  · push Not at hm
    cases h.phase with
    | ready state => exact absurd state hm.2
    | waiting state wake free owed =>
      exact ⟨.attempted (.inr (signal_le (by decide))) rfl (.inl ⟨rfl, free⟩) owed,
        h.idle, h.flight⟩
    | attempted state timer wake owed =>
      have hg := state.resolve_left hd
      -- the guard leaves only the case in which the task is posted already
      have free := ok (by rw [hm.1]) hg
      exact ⟨.attempted (.inr (signal_le (by decide))) rfl (.inl ⟨rfl, free⟩) owed,
        h.idle, h.flight⟩

theorem ordered_fired {s : Link} (h : Ordered s) (armed : s.delayTimer.isSome = true) :
    Ordered (post { s with delayTimer := none }) := by
  cases h.phase with
  | ready _ _ timer => simp [timer] at armed
  | waiting state _ free owed => exact ⟨.waiting state rfl free owed, h.idle, h.flight⟩
  | attempted _ timer => simp [timer] at armed

theorem ordered_subSendDone {s : Link} (h : Ordered s) {m : Ptr} {error : UInt8}
    (hm : m ∈ s.outstanding) (he : error.toNat < 252) :
    Ordered (subSendDone error (note (.subSendDone m error)
      { s with outstanding := s.outstanding.erase m })) := by
  have hflight : inFlight (.subSendDone m error :: s.log) = s.outstanding.erase m :=
    congrArg (·.erase m) h.flight
  cases h.phase with
  | ready _ _ _ free => simp [free] at hm
  | waiting _ _ free => simp [free] at hm
  | attempted state timer wake owed =>
    obtain ⟨hp, ho⟩ : s.sendPosted = false ∧ s.outstanding = [s.currentMsg] := by
      rcases wake with ⟨_, ho⟩ | wake
      · simp [ho] at hm
      · exact wake
    have hfree : s.outstanding.erase m = [] := by
      rw [ho] at hm ⊢
      simp only [List.mem_singleton] at hm
      simp [hm]
    unfold subSendDone
    split_ifs with hz
    · exact ⟨.attempted (.inr (signal_le he)) timer (.inl ⟨rfl, hfree⟩) owed, h.idle, hflight⟩
    · exact ⟨.attempted state timer (.inl ⟨rfl, hfree⟩) owed, h.idle, hflight⟩

/-- Reporting answers the accepted send; it needs the transmission to be over. -/
theorem ordered_answer {s : Link} (retries : UInt16) (posted : s.sendPosted = false)
    (timer : s.delayTimer = none) (free : s.outstanding = [])
    (owed : accepted s.log = s.currentMsg :: answered s.log)
    (idle : HandedBackIdle s.log) (flight : inFlight s.log = s.outstanding) :
    Ordered (answer retries s) := by
  refine ⟨.ready rfl posted timer free owed, ⟨?_, idle⟩, flight⟩
  rw [flight, free]
  exact List.not_mem_nil

theorem ordered_transmit {s : Link} (sub : UInt8) (posted : s.sendPosted = false)
    (timer : s.delayTimer = none) (free : s.outstanding = [])
    (owed : accepted s.log = s.currentMsg :: answered s.log)
    (idle : HandedBackIdle s.log) (flight : inFlight s.log = s.outstanding) :
    Ordered (transmit sub s) := by
  by_cases hs : sub = success
  · refine ⟨.attempted ?_ ?_ (.inr ?_) ?_, ?_, ?_⟩ <;>
      simp [transmit, subSend, note, hs, accepted, answered, inFlight, HandedBackIdle,
        posted, timer, free, owed, idle, flight]
  · refine ⟨.attempted ?_ ?_ (.inl ?_) ?_, ?_, ?_⟩ <;>
      simp [transmit, subSend, note, post, hs, accepted, answered, inFlight, HandedBackIdle,
        timer, free, owed, idle, flight]

theorem ordered_task {s : Link} (h : Ordered s) (sub : UInt8) (posted : s.sendPosted = true) :
    Ordered (sendTask sub { s with sendPosted := false }) := by
  cases h.phase with
  | ready _ hp => rw [hp] at posted; cases posted
  | waiting state wake free owed =>
    have timer : s.delayTimer = none := by
      rw [posted] at wake
      exact Option.isNone_iff_eq_none.mp wake.symm
    have hsend := sendTask_of_sending sub (s := { s with sendPosted := false }) state
    rw [hsend]
    exact ordered_transmit sub rfl timer free owed h.idle h.flight
  | attempted state timer wake owed =>
    obtain ⟨-, free⟩ : s.sendPosted = true ∧ s.outstanding = [] := by
      rcases wake with wake | ⟨hp, _⟩
      · exact wake
      · rw [hp] at posted; cases posted
    have outcome := sendTask_outcome sub { s with sendPosted := false }
    generalize sendTask sub { s with sendPosted := false } = t at outcome ⊢
    cases outcome with
    | acked => exact ordered_answer _ rfl timer free owed h.idle h.flight
    | exhausted => exact ordered_answer _ rfl timer free owed h.idle h.flight
    | delayed => exact ⟨.waiting rfl rfl free owed, h.idle, h.flight⟩
    | retried => exact ordered_transmit sub rfl timer free owed h.idle h.flight
    | attempt => exact ordered_transmit sub rfl timer free owed h.idle h.flight
    | report => exact ordered_answer _ rfl timer free owed h.idle h.flight
    | idle notDone _ notSignal => exact absurd state (not_or.mpr ⟨notDone, notSignal⟩)

theorem ordered_step {s t : Link} {e : Event} (h : Ordered s) (ok : CancelledOnce s e)
    (hst : step s e = some t) : Ordered t := by
  cases e with
  | send m => cases hst; exact ordered_send h m
  | cancel m => cases hst; exact ordered_cancel h m ok
  | subSendDone m error =>
    simp only [step, Option.ite_none_right_eq_some] at hst
    obtain ⟨⟨hm, he⟩, hst⟩ := hst
    cases hst
    exact ordered_subSendDone h hm he
  | fired =>
    simp only [step, Option.ite_none_right_eq_some] at hst
    obtain ⟨armed, hst⟩ := hst
    cases hst
    exact ordered_fired h armed
  | task sub =>
    simp only [step, Option.ite_none_right_eq_some] at hst
    obtain ⟨posted, hst⟩ := hst
    cases hst
    exact ordered_task h sub posted
  | write m msg =>
    cases hst
    refine ⟨?_, h.idle, h.flight⟩
    cases h.phase with
    | ready state posted timer free owed => exact .ready state posted timer free owed
    | waiting state wake free owed => exact .waiting state wake free owed
    | attempted state timer wake owed => exact .attempted state timer wake owed

theorem Ordered.answers {s : Link} (h : Ordered s) : Answers s := by
  have hbusy (hs : s.state ≠ stateReady) (m : Ptr) : send m s = (ebusy, s) := send_of_busy m hs
  cases h.phase with
  | ready _ _ _ _ owed =>
    exact ⟨owed ▸ List.suffix_rfl, h.idle, fun hne => absurd owed.symm hne⟩
  | waiting state _ _ owed =>
    exact ⟨owed ▸ List.suffix_cons _ _, h.idle, fun _ => hbusy (state.trans_ne sending_ne_ready)⟩
  | attempted state _ _ owed =>
    refine ⟨owed ▸ List.suffix_cons _ _, h.idle, fun _ => hbusy ?_⟩
    rcases state with state | state
    · exact state.trans_ne sendDone_ne_ready
    · exact signal_ne_ready state

/-- In every run that never cancels a cancelled transmission again, all three hold. -/
theorem answers_of_cancelledOnce (s : Link) (h : machine.Reachable CancelledOnce s) :
    Answers s :=
  (h.invariant (fun _ => ordered_boot) fun _ _ _ => ordered_step).answers

/-- A send cancelled in flight: the answer waits for the completion. -/
theorem answers_of_cancelledOnce_cancel :
    ∃ s, machine.Reachable CancelledOnce s ∧ answered s.log = [7] ∧ Answers s := by
  have hseen : (machine.runMeeting CancelledOnce (bootState default) [.send 7, .task success,
      .cancel 7, .subSendDone 7 fail, .task success]).map (fun s => answered s.log) = some [7] := rfl
  obtain ⟨s, hs, hlog⟩ := Option.map_eq_some_iff.mp hseen
  have hstart : machine.Reachable CancelledOnce (bootState default) := .start (boot_bootState _)
  have hreach := hstart.runMeeting _ hs
  exact ⟨s, hreach, hlog, answers_of_cancelledOnce s hreach⟩

/-- A second cancel posts the task while the driver still holds the buffer: the message is
handed back early, and the late completion answers it once more. -/
theorem second_cancel_answers_twice :
    ¬∀ s, machine.Reachable Machine.Any s → Answers s := by
  intro h
  have h0 : machine.Reachable Machine.Any (bootState default) := .start (boot_bootState _)
  have hs := h _ (h0.run [.send 7, .task success, .cancel 7, .cancel 7, .task success,
    .subSendDone 7 fail, .task success] rfl)
  exact absurd hs.once (by decide)

end RpiCc2520.RadioLink
