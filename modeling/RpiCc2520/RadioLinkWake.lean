import RpiCc2520.RadioLink

/-! The link layer always has something left that wakes it up: while a send is unanswered the
task is posted, the timer is armed or a transmission is outstanding. -/
namespace RpiCc2520.RadioLink
open RadioMessage

/-- The phases, each with what is left to end it. -/
inductive Pending (s : Link) : Prop
  | ready (state : s.state = stateReady)
  | sending (state : s.state = stateSending)
      (wake : s.sendPosted = true ∨ s.delayTimer.isSome = true)
  | sendDone (state : s.state = stateSendDone)
      (wake : s.sendPosted = true ∨ s.outstanding ≠ [])
  | signal (state : stateSignal ≤ s.state) (wake : s.sendPosted = true ∨ s.outstanding ≠ [])

/-- The events that are not calls of the user. -/
inductive Wakes : Event → Prop
  | task (sub : UInt8) : Wakes (.task sub)
  | fired : Wakes .fired
  | subSendDone (m : Ptr) (error : UInt8) : Wakes (.subSendDone m error)

/-- Without another call of the user the layer can get ready for the next send. -/
def Settles (s : Link) : Prop :=
  ∃ es t, (∀ e ∈ es, Wakes e) ∧ machine.run s es = some t ∧ t.state = stateReady

structure NeverWedged (s : Link) : Prop where
  stimulus : s.state = stateReady ∨ s.sendPosted = true ∨ s.delayTimer.isSome = true ∨
    s.outstanding ≠ []
  sending : s.state = stateSending → s.sendPosted = true ∨ s.delayTimer.isSome = true
  waiting : s.state = stateSendDone ∨ stateSignal ≤ s.state →
    s.sendPosted = true ∨ s.outstanding ≠ []
  settles : Settles s

theorem pending_send {s : Link} (h : Pending s) (m : Ptr) : Pending (send m s).2 := by
  by_cases hs : s.state = stateReady
  · rw [send_of_ready m hs]
    exact .sending rfl (.inl rfl)
  · rw [send_of_busy m hs]
    exact h

theorem pending_cancel {s : Link} (h : Pending s) (m : Ptr) : Pending (cancel m s).2 := by
  have hsignal : stateSignal ≤ stateSignal + ecancel := signal_le (by decide)
  unfold cancel
  by_cases hm : s.currentMsg ≠ m ∨ s.state = stateReady
  · rw [if_pos hm]
    exact h
  rw [if_neg hm]
  by_cases hd : s.state = stateSendDone
  · -- the timer is stopped and nothing is posted, but in this phase the timer was not needed
    rw [if_pos hd]
    cases h with
    | ready state => exact absurd (state.symm.trans hd) sendDone_ne_ready.symm
    | sending state => exact absurd (state.symm.trans hd) sending_ne_sendDone
    | sendDone _ wake => exact .signal hsignal wake
    | signal state => exact absurd hd (signal_ne_sendDone state)
  · rw [if_neg hd]
    exact .signal hsignal (.inl rfl)

theorem pending_subSendDone {s : Link} (h : Pending s) {m : Ptr} {error : UInt8}
    (he : error.toNat < 252) : Pending (subSendDone error (note (.subSendDone m error)
      { s with outstanding := s.outstanding.erase m })) := by
  unfold subSendDone
  by_cases hz : error ≠ success
  · rw [if_pos hz]
    exact .signal (signal_le he) (.inl rfl)
  · -- the phase is kept, and the task is posted whatever woke it before
    rw [if_neg hz]
    cases h with
    | ready state => exact .ready state
    | sending state => exact .sending state (.inl rfl)
    | sendDone state => exact .sendDone state (.inl rfl)
    | signal state => exact .signal state (.inl rfl)

theorem pending_fired {s : Link} (h : Pending s) :
    Pending (post { s with delayTimer := none }) := by
  cases h with
  | ready state => exact .ready state
  | sending state => exact .sending state (.inl rfl)
  | sendDone state => exact .sendDone state (.inl rfl)
  | signal state => exact .signal state (.inl rfl)

theorem transmit_wake (sub : UInt8) (s : Link) : (transmit sub s).state = stateSendDone ∧
    ((transmit sub s).sendPosted = true ∨ (transmit sub s).outstanding ≠ []) := by
  unfold transmit
  by_cases hs : sub = success
  · simp [hs, subSend, note]
  · simp [hs, post, subSend, note]

/-- A popped task that finds nothing to do leaves the layer ready. -/
theorem pending_task {sub : UInt8} {s t : Link} (h : Pending s)
    (ht : TaskOutcome sub { s with sendPosted := false } t) : Pending t := by
  cases ht with
  | acked => exact .ready rfl
  | exhausted => exact .ready rfl
  | delayed => exact .sending rfl (.inr rfl)
  | retried =>
    obtain ⟨hs, hw⟩ := transmit_wake sub
      { s with sendPosted := false, totalRetries := s.totalRetries + 1, state := stateSending }
    exact .sendDone hs hw
  | attempt =>
    obtain ⟨hs, hw⟩ := transmit_wake sub { s with sendPosted := false }
    exact .sendDone hs hw
  | report => exact .ready rfl
  | idle notDone notSending notSignal =>
    cases h with
    | ready state => exact .ready state
    | sending state => exact absurd state notSending
    | sendDone state => exact absurd state notDone
    | signal state => exact absurd state notSignal

theorem pending_step {s t : Link} {e : Event} (h : Pending s) (hst : step s e = some t) :
    Pending t := by
  cases e with
  | send m =>
    cases hst
    exact pending_send h m
  | cancel m =>
    cases hst
    exact pending_cancel h m
  | subSendDone m error =>
    simp only [step, Option.ite_none_right_eq_some, Option.some.injEq] at hst
    obtain ⟨⟨-, he⟩, rfl⟩ := hst
    exact pending_subSendDone h he
  | fired =>
    simp only [step, Option.ite_none_right_eq_some, Option.some.injEq] at hst
    obtain ⟨-, rfl⟩ := hst
    exact pending_fired h
  | task sub =>
    simp only [step, Option.ite_none_right_eq_some, Option.some.injEq] at hst
    obtain ⟨-, rfl⟩ := hst
    exact pending_task h (sendTask_outcome sub _)
  | write m msg =>
    cases hst
    cases h with
    | ready state => exact .ready state
    | sending state wake => exact .sending state wake
    | sendDone state wake => exact .sendDone state wake
    | signal state wake => exact .signal state wake

theorem settles_of_ready {s : Link} (h : s.state = stateReady) : Settles s :=
  ⟨[], s, nofun, rfl, h⟩

theorem settles_step {s t : Link} {e : Event} (he : Wakes e) (hst : step s e = some t)
    (h : Settles t) : Settles s := by
  obtain ⟨es, u, hes, hr, hu⟩ := h
  refine ⟨e :: es, u, ?_, ?_, hu⟩
  · simpa [he] using hes
  · rw [Machine.run_cons]
    exact Option.bind_eq_some_iff.mpr ⟨t, hst, hr⟩

theorem step_task (sub : UInt8) {s : Link} (h : s.sendPosted = true) :
    step s (.task sub) = some (sendTask sub { s with sendPosted := false }) := if_pos h

theorem settles_of_signal {s : Link} (hs : stateSignal ≤ s.state) (hp : s.sendPosted = true) :
    Settles s := by
  apply settles_step (.task success) (step_task success hp)
  apply settles_of_ready
  have ht := sendTask_outcome success { s with sendPosted := false }
  generalize sendTask success { s with sendPosted := false } = t at ht
  cases ht with
  | report => rfl
  | acked phase => exact absurd phase (signal_ne_sendDone hs)
  | exhausted phase => exact absurd phase (signal_ne_sendDone hs)
  | delayed phase => exact absurd phase (signal_ne_sendDone hs)
  | retried phase => exact absurd phase (signal_ne_sendDone hs)
  | attempt phase => exact absurd phase (signal_ne_sending hs)
  | idle _ _ notSignal => exact absurd hs notSignal

theorem settles_of_outstanding {s : Link} (ho : s.outstanding ≠ []) : Settles s := by
  obtain ⟨m, ms, hm⟩ := List.exists_cons_of_ne_nil ho
  have hst : step s (.subSendDone m fail) = some (subSendDone fail (note (.subSendDone m fail)
      { s with outstanding := s.outstanding.erase m })) := by
    apply if_pos
    rw [hm]
    exact ⟨List.mem_cons_self, by decide⟩
  apply settles_step (.subSendDone m fail) hst
  exact settles_of_signal (signal_le (by decide)) rfl

theorem settles_of_sending {s : Link} (hs : s.state = stateSending)
    (hp : s.sendPosted = true) : Settles s := by
  apply settles_step (.task success) (step_task success hp)
  apply settles_of_outstanding
  rw [sendTask_of_sending success (s := { s with sendPosted := false }) hs]
  simp [transmit, subSend, note]

theorem settles_of_timer {s : Link} (hs : s.state = stateSending)
    (ht : s.delayTimer.isSome = true) : Settles s := by
  have hst : step s .fired = some (post { s with delayTimer := none }) := if_pos ht
  exact settles_step .fired hst (settles_of_sending hs rfl)

theorem settles_of_sendDone {s : Link} (hs : s.state = stateSendDone)
    (hp : s.sendPosted = true) : Settles s := by
  apply settles_step (.task success) (step_task success hp)
  have ht := sendTask_outcome success { s with sendPosted := false }
  generalize sendTask success { s with sendPosted := false } = t at ht
  cases ht with
  | acked => exact settles_of_ready rfl
  | exhausted => exact settles_of_ready rfl
  | report => exact settles_of_ready rfl
  | delayed => exact settles_of_timer rfl rfl
  | retried =>
    apply settles_of_outstanding
    simp [transmit, subSend, note]
  | attempt =>
    apply settles_of_outstanding
    simp [transmit, subSend, note]
  | idle notDone => exact absurd hs notDone

theorem Pending.settles {s : Link} (h : Pending s) : Settles s := by
  cases h with
  | ready state => exact settles_of_ready state
  | sending state wake =>
    exact wake.elim (settles_of_sending state) (settles_of_timer state)
  | sendDone state wake =>
    exact wake.elim (settles_of_sendDone state) settles_of_outstanding
  | signal state wake => exact wake.elim (settles_of_signal state) settles_of_outstanding

/-- In any order of calls and events something is left to wake the layer up, and that is enough
to get it ready again. -/
theorem neverWedged_of_reachable (s : Link) (h : machine.Reachable Machine.Any s) :
    NeverWedged s := by
  have hs : Pending s := h.invariant (I := Pending)
    (fun _ (hb : Boot _) => .ready hb.1) fun _ _ _ hp _ hst => pending_step hp hst
  constructor
  · cases hs with
    | ready state => exact .inl state
    | sending _ wake => exact .inr (wake.imp_right .inl)
    | sendDone _ wake => exact .inr (wake.imp_right .inr)
    | signal _ wake => exact .inr (wake.imp_right .inr)
  · intro hsend
    cases hs with
    | ready state => exact absurd (hsend.symm.trans state) sending_ne_ready
    | sending _ wake => exact wake
    | sendDone state => exact absurd (hsend.symm.trans state) sending_ne_sendDone
    | signal state => exact absurd hsend (signal_ne_sending state)
  · intro hwait
    cases hs with
    | ready state =>
      rcases hwait with hd | hg
      · exact absurd (hd.symm.trans state) sendDone_ne_ready
      · exact absurd state (signal_ne_ready hg)
    | sending state =>
      rcases hwait with hd | hg
      · exact absurd (state.symm.trans hd) sending_ne_sendDone
      · exact absurd state (signal_ne_sending hg)
    | sendDone _ wake => exact wake
    | signal _ wake => exact wake
  · exact hs.settles

/-- A message cancelled twice is still with the driver when the next send is accepted, and its
late completion ends that one. -/
theorem neverWedged_of_reachable_late :
    ∃ s, s.state = stateSignal + fail ∧ s.currentMsg = 9 ∧ NeverWedged s := by
  have h0 : machine.Reachable Machine.Any (bootState default) := .start (boot_bootState _)
  have hrun : (machine.run (bootState default) [.send 7, .task success, .cancel 7, .cancel 7,
      .task success, .send 9, .subSendDone 7 fail]).map (fun s => (s.state, s.currentMsg)) =
        some (stateSignal + fail, 9) := by decide +kernel
  obtain ⟨s, hs, he⟩ := Option.map_eq_some_iff.mp hrun
  obtain ⟨hstate, hmsg⟩ := Prod.mk.inj he
  exact ⟨s, hstate, hmsg, neverWedged_of_reachable s (h0.run _ hs)⟩

end RpiCc2520.RadioLink
