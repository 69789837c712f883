import RpiCc2520.RadioLinkAnswer
import RpiCc2520.RadioSend

/-! The link layer over the send module: a delivery reported to the user against what the
driver returned for the last transmission. -/
namespace RpiCc2520.RadioDelivery
open RadioMessage BytePipe RadioLink RadioSend

/-- The link layer, the send module under it, the retry count the latest send was accepted
with, and what the driver returned, with the length byte, for the latest transmission made for
it. -/
structure Stack where
  link : Link
  sendP : SendP
  retries : UInt16
  lastReturn : Option (Int32 × UInt8)

inductive StackEvent
  | send (m : Ptr)
  | cancel (m : Ptr)
  | fired
  | task (pad : Vector UInt8 3)
  | child (ret : Int32)
  | receiveReady
  | sendDoneTask
  | write (m : Ptr) (msg : Message)

/-- `BareSend.send`, both writes. It always returns `SUCCESS`. -/
def bareSend (m : Ptr) (msg : Message) (pad : Vector UInt8 3) (s : SendP) : SendP :=
  bareSendBody msg (msg.bytes 0) (bareSendHeader m (msg.bytes 0) pad s)

/-- The link's task over `BareSend.send`: a transmission it starts goes down the pipe. -/
def linkTask (pad : Vector UInt8 3) (s : Stack) : Stack :=
  let link := sendTask success { s.link with sendPosted := false }
  if link.outstanding = s.link.outstanding then { s with link := link }
  else { s with
    link := link
    sendP := bareSend link.currentMsg (link.mem link.currentMsg) pad s.sendP
    lastReturn := none }

/-- `sendDone_task`: the ack flag, then `BareSend.sendDone` to the link. -/
def completeTask (s : Stack) : Stack :=
  let m := ptrAt s.sendP.sendHdr
  { s with
    sendP := { s.sendP with sendDonePosted := false }
    link := subSendDone success (note (.subSendDone m success) { s.link with
      mem := sendDoneTask s.link.mem s.sendP
      outstanding := s.link.outstanding.erase m }) }

/-- While a message is being sent only the stack writes it. -/
def stackStep (s : Stack) : StackEvent → Option Stack
  | .send m =>
      let (error, link) := send m s.link
      if error = success then some ⟨link, s.sendP, (s.link.mem m).getRetries, none⟩
      else some { s with link := link }
  | .cancel m => some { s with link := (cancel m s.link).2 }
  | .fired =>
      if s.link.delayTimer.isSome then
        some { s with link := post { s.link with delayTimer := none } }
      else none
  | .task pad => if s.link.sendPosted then some (linkTask pad s) else none
  | .child ret => (childStep ret s.sendP).map fun t =>
      { s with
        sendP := t
        lastReturn := if s.sendP.child.pc = .device then some (ret, writeLenAt s.sendP.child.whdr)
          else s.lastReturn }
  | .receiveReady => some { s with sendP := receiveReady s.sendP }
  | .sendDoneTask => if s.sendP.sendDonePosted then some (completeTask s) else none
  | .write m msg =>
      if s.link.state = stateReady ∨ m ≠ s.link.currentMsg then
        some { s with link := { s.link with mem := Function.update s.link.mem m msg } }
      else none

def stackMachine : Machine Stack StackEvent :=
  ⟨fun s => Boot s.link ∧ Started s.sendP ∧ s.lastReturn = none, stackStep⟩

/-- The driver delivered the frame: it returned success or the whole frame's length. -/
def Delivered (ret : Int32) (len : UInt8) : Prop :=
  ret = cc2520TxSuccess ∨ ret.toInt = (len.toNat : ℤ) - 1

/-- A delivery reported for a send that asked for retries is a real one. -/
def ReportsReal (s : Stack) : Prop :=
  ∀ m log, s.link.log = .sendDone m success :: log → 0 < s.retries →
    ∃ ret len, s.lastReturn = some (ret, len) ∧ Delivered ret len

/-- No transmission is cancelled twice, and for a send that asked for retries `sendDone_task`
meets a return value for which it leaves the ack flag alone only when the flag is clear. -/
def FlagJudged (s : Stack) : StackEvent → Prop
  | .cancel m => CancelledOnce s.link (.cancel m)
  | .sendDoneTask =>
      0 < s.retries → (s.link.mem (ptrAt s.sendP.sendHdr)).wasAcked = true →
        verdict (retAt s.sendP.sendHdr) (readLenAt s.sendP.sendHdr) = none →
          Delivered (retAt s.sendP.sendHdr) (readLenAt s.sendP.sendHdr)
  | _ => True

structure Idle (s : SendP) : Prop where
  pc : s.child.pc = .header
  opened : s.child.closed = false
  writePipe : s.writePipe = []
  readPipe : s.readPipe = []
  posted : s.sendDonePosted = false

/-- One transmission of `m` on its way, with what the driver returned for it. -/
inductive Flight (s : SendP) (m : Ptr) : Option (Int32 × UInt8) → Prop
  | queued {len pad body} (pc : s.child.pc = .header) (opened : s.child.closed = false)
      (pipe : s.writePipe = WriteFifoHeader.bytes ⟨m, len, pad⟩ ++ body)
      (size : body.length = len.toNat - 2) (readPipe : s.readPipe = [])
      (posted : s.sendDonePosted = false) : Flight s m none
  | body (pc : s.child.pc = .body) (opened : s.child.closed = false)
      (ptr : ptrAt s.child.whdr = m)
      (size : s.writePipe.length = (writeLenAt s.child.whdr).toNat - 2)
      (readPipe : s.readPipe = []) (posted : s.sendDonePosted = false) : Flight s m none
  | device (pc : s.child.pc = .device) (ptr : ptrAt s.child.whdr = m)
      (writePipe : s.writePipe = []) (readPipe : s.readPipe = [])
      (posted : s.sendDonePosted = false) : Flight s m none
  | result {ret} (pc : s.child.pc = .result ret) (ptr : ptrAt s.child.whdr = m)
      (writePipe : s.writePipe = []) (readPipe : s.readPipe = [])
      (posted : s.sendDonePosted = false) :
      Flight s m (some (ret, writeLenAt s.child.whdr))
  | record {ret len pad} (pc : s.child.pc = .header) (opened : s.child.closed = false)
      (writePipe : s.writePipe = []) (readPipe : s.readPipe = ReadFifoHeader.bytes ⟨m, ret, len, pad⟩)
      (posted : s.sendDonePosted = false) : Flight s m (some (ret, len))
  | posted (pc : s.child.pc = .header) (opened : s.child.closed = false)
      (writePipe : s.writePipe = []) (readPipe : s.readPipe = [])
      (ptr : ptrAt s.sendHdr = m) (posted : s.sendDonePosted = true) :
      Flight s m (some (retAt s.sendHdr, readLenAt s.sendHdr))
  | lost {last} (pc : s.child.pc = .header ∨ s.child.pc = .exited)
      (closed : s.child.closed = true) (readPipe : s.readPipe = [])
      (posted : s.sendDonePosted = false) : Flight s m last

theorem flight_bareSend {s : SendP} (h : Idle s) (m : Ptr) (msg : Message)
    (pad : Vector UInt8 3) : Flight (bareSend m msg pad s) m none := by
  have hpipe : (bareSend m msg pad s).writePipe =
      WriteFifoHeader.bytes ⟨m, msg.bytes 0, pad⟩ ++ load msg.bytes 1 ((msg.bytes 0).toNat - 2) := by
    simp [bareSend, bareSendBody, bareSendHeader, h.writePipe]
  exact .queued h.pc h.opened hpipe (load_length msg.bytes 1 _) h.readPipe h.posted

theorem idle_child {s : SendP} (h : Idle s) (ret : Int32) : childStep ret s = none := by
  have hr : read sizeofWriteFifoHeader s.writePipe = none := by
    rw [h.writePipe]
    exact read_nil (by decide)
  simp [childStep, h.pc, h.opened, hr]

theorem flight_readBody {s t : SendP} {m : Ptr} (ptr : ptrAt s.child.whdr = m)
    (size : s.writePipe.length = (writeLenAt s.child.whdr).toNat - 2)
    (readPipe : s.readPipe = []) (posted : s.sendDonePosted = false)
    (hst : readBody s = some t) : Flight t m none := by
  unfold readBody at hst
  by_cases hlen : writeLenAt s.child.whdr < 2
  · have hp : s.writePipe = [] := by
      rw [UInt8.lt_iff_toNat_lt, show (2 : UInt8).toNat = 2 from rfl] at hlen
      exact List.eq_nil_of_length_eq_zero (by omega)
    simp only [hlen, if_true, Option.some.injEq] at hst
    subst hst
    exact .device rfl ptr hp readPipe posted
  · simp only [hlen, if_false, Option.map_eq_some_iff] at hst
    obtain ⟨⟨body, rest⟩, hr, rfl⟩ := hst
    have hrest : rest = [] := by
      by_cases hb : s.writePipe = []
      · obtain ⟨he, -⟩ := read_eq_some hr
        rw [hb] at he
        exact (List.append_eq_nil_iff.mp he.symm).2
      · have hall : read _ (s.writePipe ++ []) = some (s.writePipe, []) := read_append size hb
        rw [List.append_nil, hr] at hall
        exact (Prod.mk.inj (Option.some.inj hall)).2
    exact .device rfl ptr hrest readPipe posted

theorem flight_child {s t : SendP} {m : Ptr} {last : Option (Int32 × UInt8)} {ret : Int32}
    (h : Flight s m last) (hst : childStep ret s = some t) :
    Flight t m (if s.child.pc = .device then some (ret, writeLenAt s.child.whdr) else last) := by
  unfold childStep at hst
  cases h with
  | @queued len pad body pc opened pipe size readPipe posted =>
    have hne : WriteFifoHeader.bytes ⟨m, len, pad⟩ ≠ [] :=
      List.ne_nil_of_length_pos (by rw [WriteFifoHeader.bytes_length]; decide)
    obtain ⟨hptr, hlen⟩ := writeFifoHeader_read (load_store_header s.child.whdr ⟨m, len, pad⟩)
    simp only [pc, opened, Bool.false_eq_true, if_false, pipe,
      read_append (WriteFifoHeader.bytes_length _) hne, Option.map_some, Option.some.injEq] at hst
    subst hst
    rw [pc, if_neg nofun]
    exact .body rfl rfl hptr (by rw [hlen]; exact size) readPipe posted
  | body pc opened ptr size readPipe posted =>
    simp only [pc] at hst
    rw [pc, if_neg nofun]
    exact flight_readBody ptr size readPipe posted hst
  | device pc ptr writePipe readPipe posted =>
    simp only [pc, Option.some.injEq] at hst
    subst hst
    rw [if_pos pc]
    exact .result rfl ptr writePipe readPipe posted
  | @result ret' pc ptr writePipe readPipe posted =>
    simp only [pc, Option.some.injEq] at hst
    subst hst
    have hpc : s.child.pc ≠ .device := by rw [pc]; nofun
    rw [if_neg hpc]
    by_cases hc : s.child.closed = true
    · exact .lost (.inl rfl) hc ((if_pos hc).trans readPipe) posted
    · have hrecord : (if s.child.closed = true then s.readPipe else s.readPipe ++
          ReadFifoHeader.bytes ⟨ptrAt s.child.whdr, ret', writeLenAt s.child.whdr, s.child.pad⟩) =
            ReadFifoHeader.bytes ⟨m, ret', writeLenAt s.child.whdr, s.child.pad⟩ := by
        rw [if_neg hc, readPipe, ptr]
        rfl
      exact .record rfl (Bool.eq_false_iff.mpr hc) writePipe hrecord posted
  | record pc opened writePipe =>
    simp [pc, opened, writePipe, read_nil, sizeofWriteFifoHeader] at hst
  | posted pc opened writePipe =>
    simp [pc, opened, writePipe, read_nil, sizeofWriteFifoHeader] at hst
  | lost pc closed readPipe posted =>
    rcases pc with pc | pc
    · simp only [pc, closed, if_true, Option.some.injEq] at hst
      subst hst
      exact .lost (.inr rfl) rfl readPipe posted
    · simp [pc] at hst

theorem flight_receiveReady {s : SendP} {m : Ptr} {last : Option (Int32 × UInt8)}
    (h : Flight s m last) : Flight (receiveReady s) m last := by
  have hkeep (hr : s.readPipe = []) : Flight (receiveReady s) m last := by
    rw [receiveReady_empty hr]
    exact h
  cases h with
  | @record ret len pad pc opened writePipe readPipe posted =>
    have hr := receiveReady_record (s := s) (readPipe.trans (List.append_nil _).symm)
    obtain ⟨hptr, hret, hlen⟩ := readFifoHeader_store s.sendHdr ⟨m, ret, len, pad⟩
    have hflight := Flight.posted (s := receiveReady s) (m := m) (by rw [hr]; exact pc)
      (by rw [hr]; exact opened) (by rw [hr]; exact writePipe) (by rw [hr])
      (by rw [hr]; exact hptr) (by rw [hr])
    rw [hr] at hflight ⊢
    simpa only [hret, hlen] using hflight
  | queued _ _ _ _ hr => exact hkeep hr
  | body _ _ _ _ hr => exact hkeep hr
  | device _ _ _ hr => exact hkeep hr
  | result _ _ _ hr => exact hkeep hr
  | posted _ _ _ hr => exact hkeep hr
  | lost _ _ hr => exact hkeep hr

/-- The driver has returned for the last transmission, and it delivered the frame. -/
def RealReturn (last : Option (Int32 × UInt8)) : Prop :=
  ∃ ret len, last = some (ret, len) ∧ Delivered ret len

structure Sound (s : Stack) : Prop where
  link : Ordered s.link
  asked : s.link.state ≠ stateReady → (s.link.mem s.link.currentMsg).getRetries = s.retries
  cancelled : stateSignal ≤ s.link.state → s.link.state = stateSignal + ecancel
  idle : s.link.outstanding = [] → Idle s.sendP
  flight : s.link.outstanding ≠ [] → Flight s.sendP s.link.currentMsg s.lastReturn
  judged : s.link.state = stateSendDone → s.link.sendPosted = true → 0 < s.retries →
    (s.link.mem s.link.currentMsg).wasAcked = true → RealReturn s.lastReturn
  reported : ∀ m log, s.link.log = .sendDone m success :: log →
    s.link.state = stateReady ∧ (0 < s.retries → RealReturn s.lastReturn)

theorem sound_boot {s : Stack} (h : stackMachine.initial s) : Sound s := by
  obtain ⟨hb, ⟨hw, hc, ho, -, hr, hp⟩, -⟩ := h
  have hlink := ordered_boot hb
  obtain ⟨hs, hsp, -, hout, hlog⟩ := hb
  constructor
  · exact hlink
  · intro hne
    exact absurd hs hne
  · intro hg
    exact absurd hs (signal_ne_ready hg)
  · intro _
    exact ⟨hc, ho, hw, hr, hp⟩
  · intro hne
    exact absurd hout hne
  · intro hd
    exact absurd (hd.symm.trans hs) sendDone_ne_ready
  · intro m log hl
    rw [hlog] at hl
    cases hl

theorem ordered_ready {l : Link} (h : Ordered l) (hs : l.state = stateReady) :
    l.outstanding = [] ∧ l.sendPosted = false ∧ l.delayTimer = none := by
  cases h.phase with
  | ready _ posted timer free => exact ⟨free, posted, timer⟩
  | waiting state => exact absurd (state.symm.trans hs) sending_ne_ready
  | attempted state =>
    rcases state with state | state
    · exact absurd (state.symm.trans hs) sendDone_ne_ready
    · exact absurd hs (signal_ne_ready state)

theorem ordered_outstanding {l : Link} (h : Ordered l) (ho : l.outstanding ≠ []) :
    l.outstanding = [l.currentMsg] ∧ l.sendPosted = false ∧ l.state ≠ stateReady := by
  have hs : l.state ≠ stateReady := by
    intro hs
    exact ho (ordered_ready h hs).1
  cases h.phase with
  | ready _ _ _ free => exact absurd free ho
  | waiting _ _ free => exact absurd free ho
  | attempted _ _ wake =>
    rcases wake with ⟨_, free⟩ | ⟨posted, out⟩
    · exact absurd free ho
    · exact ⟨out, posted, hs⟩

theorem sound_send {s : Stack} (h : Sound s) {m : Ptr} {t : Stack}
    (hst : stackStep s (.send m) = some t) : Sound t := by
  have hlink := ordered_send h.link m
  by_cases hs : s.link.state = stateReady
  · have hfree := (ordered_ready h.link hs).1
    rw [send_of_ready m hs] at hlink
    simp only [stackStep, send_of_ready m hs, if_true] at hst
    cases hst
    constructor
    · exact hlink
    · intro _
      by_cases hr : 0 < (s.link.mem m).getRetries
      · simp [note, post, hr]
      · simp [note, post, hr]
    · intro hg
      exact absurd hg sending_not_signal
    · intro _
      exact h.idle hfree
    · intro hne
      exact absurd hfree hne
    · intro hd
      exact absurd hd sending_ne_sendDone
    · intro _ _ hl
      cases hl
  · simp only [stackStep, send_of_busy m hs, if_neg ebusy_ne_success] at hst
    cases hst
    exact h

theorem sound_cancelled {s : Stack} (h : Sound s) {link : Link} (hlink : Ordered link)
    (hs : s.link.state ≠ stateReady) (mem : link.mem = s.link.mem)
    (currentMsg : link.currentMsg = s.link.currentMsg)
    (outstanding : link.outstanding = s.link.outstanding)
    (state : link.state = stateSignal + ecancel)
    (log : ∀ m log, link.log = .sendDone m success :: log → s.link.log = link.log) :
    Sound { s with link := link } := by
  constructor
  · exact hlink
  · intro _
    rw [mem, currentMsg]
    exact h.asked hs
  · intro _
    exact state
  · intro ho
    exact h.idle (outstanding.symm.trans ho)
  · intro ho
    rw [currentMsg]
    exact h.flight (outstanding ▸ ho)
  · intro hd
    exact absurd (state.symm.trans hd) ecancel_ne_sendDone
  · intro m rest hl
    exact absurd (h.reported m rest ((log m rest hl).trans hl)).1 hs

theorem sound_cancel {s : Stack} (h : Sound s) (m : Ptr)
    (ok : CancelledOnce s.link (.cancel m)) :
    Sound { s with link := (cancel m s.link).2 } := by
  have hlink := ordered_cancel h.link m ok
  unfold cancel at hlink ⊢
  by_cases hm : s.link.currentMsg ≠ m ∨ s.link.state = stateReady
  · rw [if_pos hm]
    exact h
  · rw [if_neg hm] at hlink ⊢
    obtain ⟨-, hs⟩ := not_or.mp hm
    by_cases hd : s.link.state = stateSendDone
    · rw [if_pos hd] at hlink ⊢
      apply sound_cancelled h hlink hs rfl rfl rfl rfl
      intro _ _ hl
      cases hl
    · rw [if_neg hd] at hlink ⊢
      apply sound_cancelled h hlink hs rfl rfl rfl rfl
      intro _ _ _
      rfl

theorem sound_fired {s : Stack} (h : Sound s) (armed : s.link.delayTimer.isSome = true) :
    Sound { s with link := post { s.link with delayTimer := none } } := by
  have hquiet (hd : s.link.state = stateSendDone) : False := by
    cases h.link.phase with
    | ready _ _ timer => simp [timer] at armed
    | waiting state => exact absurd (state.symm.trans hd) sending_ne_sendDone
    | attempted _ timer => simp [timer] at armed
  exact ⟨ordered_fired h.link armed, h.asked, h.cancelled, h.idle, h.flight,
    fun hd => (hquiet hd).elim, h.reported⟩

theorem sound_child {s : Stack} (h : Sound s) {ret : Int32} {t : SendP}
    (hst : childStep ret s.sendP = some t) :
    Sound { s with
      sendP := t
      lastReturn := if s.sendP.child.pc = .device then
          some (ret, writeLenAt s.sendP.child.whdr)
        else s.lastReturn } := by
  by_cases ho : s.link.outstanding = []
  · rw [idle_child (h.idle ho)] at hst
    cases hst
  · obtain ⟨-, hp, hs⟩ := ordered_outstanding h.link ho
    constructor
    · exact h.link
    · exact h.asked
    · exact h.cancelled
    · intro hf
      exact absurd hf ho
    · intro _
      exact flight_child (h.flight ho) hst
    · intro _ hq
      exact absurd (hp.symm.trans hq) nofun
    · intro m log hl
      exact absurd (h.reported m log hl).1 hs

theorem sound_receiveReady {s : Stack} (h : Sound s) :
    Sound { s with sendP := receiveReady s.sendP } := by
  refine ⟨h.link, h.asked, h.cancelled, fun ho => ?_, fun ho => flight_receiveReady (h.flight ho),
    h.judged, h.reported⟩
  have hidle := h.idle ho
  rwa [receiveReady_empty hidle.readPipe]

theorem delivered_of_verdict {ret : Int32} {len : UInt8} (h : verdict ret len = some true) :
    Delivered ret len := by
  unfold verdict at h
  by_cases h1 : ret = cc2520TxBusy ∨ ret = cc2520TxAckTimeout ∨ ret = cc2520TxFailed
  · simp [if_pos h1] at h
  by_cases h2 : ret = cc2520TxLength
  · simp [if_neg h1, if_pos h2] at h
  by_cases h3 : ret = cc2520TxSuccess
  · exact .inl h3
  by_cases h4 : ret.toInt = (len.toNat : ℤ) - 1
  · exact .inr h4
  · simp [if_neg h1, if_neg h3, if_neg h4] at h

theorem getRetries_setVerdict (msg : Message) (v : Option Bool) :
    (setVerdict msg v).getRetries = msg.getRetries := by
  cases v <;> rfl

/-- With the guard, a flag that is set after the verdict was set for a real delivery. -/
theorem delivered_of_setVerdict {msg : Message} {ret : Int32} {len : UInt8}
    (ok : msg.wasAcked = true → verdict ret len = none → Delivered ret len)
    (h : (setVerdict msg (verdict ret len)).wasAcked = true) : Delivered ret len := by
  cases hv : verdict ret len with
  | none =>
    rw [hv] at h
    exact ok h hv
  | some ack =>
    rw [hv, setVerdict, Message.wasAcked_setWasAcked] at h
    subst h
    exact delivered_of_verdict hv

theorem ordered_write {l : Link} (h : Ordered l) (mem : Ptr → Message) :
    Ordered { l with mem := mem } := by
  refine ⟨?_, h.idle, h.flight⟩
  cases h.phase with
  | ready state posted timer free owed => exact .ready state posted timer free owed
  | waiting state wake free owed => exact .waiting state wake free owed
  | attempted state timer wake owed => exact .attempted state timer wake owed

theorem sound_completeTask {s : Stack} (h : Sound s) (ok : FlagJudged s .sendDoneTask)
    (posted : s.sendP.sendDonePosted = true) : Sound (completeTask s) := by
  have ho : s.link.outstanding ≠ [] := by
    intro ho
    have := (h.idle ho).posted
    rw [posted] at this
    cases this
  obtain ⟨hout, -, hs⟩ := ordered_outstanding h.link ho
  have hflight := h.flight ho
  generalize hl : s.lastReturn = last at hflight
  cases hflight with
  | posted pc opened writePipe readPipe ptr _ =>
    have hmem : ptrAt s.sendP.sendHdr ∈ s.link.outstanding := by rw [hout, ptr]; simp
    have hlink := ordered_subSendDone
      (ordered_write h.link (sendDoneTask s.link.mem s.sendP)) hmem
      (show success.toNat < 252 by decide)
    have hfree : s.link.outstanding.erase (ptrAt s.sendP.sendHdr) = [] := by
      rw [hout, ptr]
      simp
    have hcur : sendDoneTask s.link.mem s.sendP s.link.currentMsg =
        setVerdict (s.link.mem (ptrAt s.sendP.sendHdr))
          (verdict (retAt s.sendP.sendHdr) (readLenAt s.sendP.sendHdr)) := by
      rw [sendDoneTask, ptr, Function.update_self]
    constructor
    · exact hlink
    · intro _
      change (sendDoneTask s.link.mem s.sendP s.link.currentMsg).getRetries = s.retries
      rw [hcur, getRetries_setVerdict, ptr]
      exact h.asked hs
    · exact h.cancelled
    · intro _
      exact ⟨pc, opened, writePipe, readPipe, rfl⟩
    · intro hne
      exact absurd hfree hne
    · intro _ _ hr hack
      change (sendDoneTask s.link.mem s.sendP s.link.currentMsg).wasAcked = true at hack
      rw [hcur] at hack
      exact ⟨_, _, hl, delivered_of_setVerdict (ok hr) hack⟩
    · intro _ _ hc
      cases hc
  | queued _ _ _ _ _ hp => rw [posted] at hp; cases hp
  | body _ _ _ _ _ hp => rw [posted] at hp; cases hp
  | device _ _ _ _ hp => rw [posted] at hp; cases hp
  | result _ _ _ _ hp => rw [posted] at hp; cases hp
  | record _ _ _ _ hp => rw [posted] at hp; cases hp
  | lost _ _ _ hp => rw [posted] at hp; cases hp

theorem ordered_posted {l : Link} (h : Ordered l) (posted : l.sendPosted = true) :
    l.outstanding = [] ∧ l.state ≠ stateReady := by
  cases h.phase with
  | ready _ hp => rw [hp] at posted; cases posted
  | waiting state _ free => exact ⟨free, state.trans_ne sending_ne_ready⟩
  | attempted state _ wake =>
    rcases wake with ⟨_, free⟩ | ⟨hp, _⟩
    · refine ⟨free, ?_⟩
      rcases state with state | state
      · exact state.trans_ne sendDone_ne_ready
      · exact signal_ne_ready state
    · rw [hp] at posted; cases posted

theorem linkTask_quiet {pad : Vector UInt8 3} {s : Stack} {link : Link}
    (h : sendTask success { s.link with sendPosted := false } = link)
    (ho : link.outstanding = s.link.outstanding) : linkTask pad s = { s with link := link } := by
  simp only [linkTask, h, if_pos ho]

theorem linkTask_transmit {pad : Vector UInt8 3} {s : Stack} {link : Link}
    (h : sendTask success { s.link with sendPosted := false } = transmit success link)
    (ho : link.outstanding = s.link.outstanding) :
    linkTask pad s = { s with
      link := transmit success link
      sendP := bareSend link.currentMsg (link.mem link.currentMsg) pad s.sendP
      lastReturn := none } := by
  have hne : ¬(transmit success link).outstanding = s.link.outstanding := by
    rw [← ho]
    exact List.cons_ne_self _ _
  simp only [linkTask, h, if_neg hne]
  rfl

theorem sound_answer {s : Stack} {link : Link} (retries : UInt16)
    (hlink : Ordered (answer retries link)) (hidle : Idle s.sendP)
    (free : link.outstanding = []) (real : link.state = stateSignal + success →
      0 < s.retries → RealReturn s.lastReturn) : Sound { s with link := answer retries link } := by
  constructor
  · exact hlink
  · intro hne
    exact absurd rfl hne
  · intro hg
    exact absurd rfl (signal_ne_ready hg)
  · intro _
    exact hidle
  · intro hne
    exact absurd free hne
  · nofun
  · intro m log hlog
    simp only [answer, note, List.cons.injEq, Call.sendDone.injEq] at hlog
    have hstate : link.state = stateSignal + success := by
      rw [← hlog.1.2]
      simp
    exact ⟨rfl, real hstate⟩

theorem sound_transmit {s : Stack} {link : Link} (pad : Vector UInt8 3)
    (hlink : Ordered (transmit success link)) (hidle : Idle s.sendP)
    (asked : (link.mem link.currentMsg).getRetries = s.retries)
    (posted : link.sendPosted = false) :
    Sound { s with
      link := transmit success link
      sendP := bareSend link.currentMsg (link.mem link.currentMsg) pad s.sendP
      lastReturn := none } := by
  have hstate : ¬stateSignal ≤ (transmit success link).state :=
    fun hg => absurd rfl (signal_ne_sendDone hg)
  constructor
  · exact hlink
  · intro _
    exact asked
  · intro hg
    exact absurd hg hstate
  · intro ho
    exact absurd ho (List.cons_ne_nil _ _)
  · intro _
    exact flight_bareSend hidle _ _ _
  · intro _ hp
    exact absurd (posted.symm.trans hp) nofun
  · intro _ _ hc
    cases hc

theorem sound_task {s : Stack} (h : Sound s) (pad : Vector UInt8 3)
    (posted : s.link.sendPosted = true) : Sound (linkTask pad s) := by
  have hlink := ordered_task h.link success posted
  obtain ⟨free, hs⟩ := ordered_posted h.link posted
  have hidle := h.idle free
  have hasked := h.asked hs
  have outcome := sendTask_outcome success { s.link with sendPosted := false }
  generalize ht : sendTask success { s.link with sendPosted := false } = t at outcome hlink
  cases outcome with
  | acked phase done =>
    rw [linkTask_quiet ht rfl]
    refine sound_answer _ hlink hidle free fun _ hr => h.judged phase posted hr ?_
    exact done.resolve_left fun hz => absurd (hasked.symm.trans hz ▸ hr) (by simp)
  | exhausted =>
    rw [linkTask_quiet ht rfl]
    exact sound_answer _ hlink hidle free nofun
  | report phase =>
    rw [linkTask_quiet ht rfl]
    refine sound_answer _ hlink hidle free fun hd _ => ?_
    have hc := h.cancelled phase
    exact absurd (hd.symm.trans hc) (by decide)
  | delayed phase =>
    rw [linkTask_quiet ht rfl]
    constructor
    · exact hlink
    · intro _
      exact hasked
    · intro hg
      exact absurd hg sending_not_signal
    · intro _
      exact hidle
    · intro hne
      exact absurd free hne
    · intro hd
      exact absurd hd sending_ne_sendDone
    · intro _ _ hc
      cases hc
  | retried =>
    rw [linkTask_transmit ht rfl]
    exact sound_transmit pad hlink hidle hasked rfl
  | attempt =>
    rw [linkTask_transmit ht rfl]
    exact sound_transmit pad hlink hidle hasked rfl
  | idle =>
    rw [linkTask_quiet ht rfl]
    exact ⟨hlink, fun _ => hasked, h.cancelled, h.idle, h.flight, nofun, h.reported⟩

theorem sound_write {s : Stack} (h : Sound s) (m : Ptr) (msg : Message)
    (free : s.link.state = stateReady ∨ m ≠ s.link.currentMsg) :
    Sound { s with link := { s.link with mem := Function.update s.link.mem m msg } } := by
  have hkeep (hs : s.link.state ≠ stateReady) :
      Function.update s.link.mem m msg s.link.currentMsg = s.link.mem s.link.currentMsg :=
    Function.update_of_ne (Ne.symm (free.resolve_left hs)) _ _
  constructor
  · exact ordered_write h.link _
  · intro hs
    change (Function.update s.link.mem m msg s.link.currentMsg).getRetries = s.retries
    rw [hkeep hs]
    exact h.asked hs
  · exact h.cancelled
  · exact h.idle
  · exact h.flight
  · intro hd hp hr hack
    change (Function.update s.link.mem m msg s.link.currentMsg).wasAcked = true at hack
    have hs : s.link.state ≠ stateReady := by
      intro hz
      exact absurd (hd.symm.trans hz) sendDone_ne_ready
    rw [hkeep hs] at hack
    exact h.judged hd hp hr hack
  · exact h.reported

theorem sound_step {s t : Stack} {e : StackEvent} (h : Sound s) (ok : FlagJudged s e)
    (hst : stackStep s e = some t) : Sound t := by
  cases e with
  | send m => exact sound_send h hst
  | cancel m => cases hst; exact sound_cancel h m ok
  | fired =>
    simp only [stackStep, Option.ite_none_right_eq_some] at hst
    obtain ⟨armed, hst⟩ := hst
    cases hst
    exact sound_fired h armed
  | task pad =>
    simp only [stackStep, Option.ite_none_right_eq_some] at hst
    obtain ⟨posted, hst⟩ := hst
    cases hst
    exact sound_task h pad posted
  | child ret =>
    obtain ⟨u, hu, hst⟩ := Option.map_eq_some_iff.mp hst
    cases hst
    exact sound_child h hu
  | receiveReady => cases hst; exact sound_receiveReady h
  | sendDoneTask =>
    simp only [stackStep, Option.ite_none_right_eq_some] at hst
    obtain ⟨posted, hst⟩ := hst
    cases hst
    exact sound_completeTask h ok posted
  | write m msg =>
    simp only [stackStep, Option.ite_none_right_eq_some] at hst
    obtain ⟨free, hst⟩ := hst
    cases hst
    exact sound_write h m msg free

/-- While every return value that sets no flag meets a clear one, a reported delivery is one
the driver made. -/
theorem reportsReal_of_flagJudged (s : Stack) (h : stackMachine.Reachable FlagJudged s) :
    ReportsReal s := by
  have hsound : Sound s := h.invariant (fun _ => sound_boot) fun _ _ _ => sound_step
  exact fun m log hlog => (hsound.reported m log hlog).2

/-- A stack whose messages ask for three tries and hold the given ack flag and length byte. -/
def freshStack (ack len : UInt8) : Stack :=
  ⟨bootState fun _ => ⟨fun i => if i = 0 then len else 0, 3, 0, ack, 0, 0, 0⟩, startedState, 0,
    none⟩

theorem freshStack_initial (ack len : UInt8) : stackMachine.initial (freshStack ack len) :=
  ⟨boot_bootState _, started_startedState, rfl⟩

/-- One transmission from the send to the verdict, the driver returning `ret`. -/
def oneTry (ret : Int32) : List StackEvent :=
  [.send 16, .task default, .child 0, .child 0, .child ret, .child 0, .receiveReady,
    .sendDoneTask, .task default]

instance (ret : Int32) (len : UInt8) : Decidable (Delivered ret len) :=
  inferInstanceAs (Decidable (_ ∨ _))

instance (s : Stack) : DecidablePred (FlagJudged s)
  | .cancel m => inferInstanceAs (Decidable (CancelledOnce s.link (.cancel m)))
  | .sendDoneTask => inferInstanceAs (Decidable (_ → _))
  | .send _ | .fired | .task _ | .child _ | .receiveReady | .write _ _ => .isTrue trivial

/-- A message that was acked before is sent again and the driver takes the whole frame. -/
theorem reportsReal_of_flagJudged_resent :
    ∃ s log, stackMachine.Reachable FlagJudged s ∧ s.link.log = .sendDone 16 success :: log ∧
      0 < s.retries ∧ ReportsReal s := by
  have hseen : (stackMachine.runMeeting FlagJudged (freshStack 1 10) (oneTry 9)).map
      (fun s => (s.link.log.head?, s.retries)) = some (some (.sendDone 16 success), 3) := rfl
  obtain ⟨s, hs, he⟩ := Option.map_eq_some_iff.mp hseen
  obtain ⟨hhead, hretries⟩ := Prod.mk.inj he
  obtain ⟨log, hlog⟩ := List.head?_eq_some_iff.mp hhead
  have hstart : stackMachine.Reachable FlagJudged (freshStack 1 10) :=
    .start (freshStack_initial 1 10)
  have hreach := hstart.runMeeting (oneTry 9) hs
  exact ⟨s, log, hreach, hlog, hretries ▸ by decide, reportsReal_of_flagJudged s hreach⟩

/-- With a flag left over from an earlier send, a length the driver rejects is reported as
delivered. -/
theorem rejected_length_reported_delivered :
    ¬∀ s, stackMachine.Reachable Machine.Any s → ReportsReal s := by
  intro h
  have h0 : stackMachine.Reachable Machine.Any (freshStack 1 10) :=
    .start (freshStack_initial 1 10)
  have hs := h _ (h0.run (oneTry 254) rfl)
  obtain ⟨ret, len, hl, hd⟩ := hs 16 _ rfl (by decide)
  have : (some (254, 10) : Option (Int32 × UInt8)) = some (ret, len) := hl
  cases this
  exact absurd hd (by unfold Delivered; decide)

end RpiCc2520.RadioDelivery
