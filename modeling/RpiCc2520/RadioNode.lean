import RpiCc2520.RadioSequence
import RpiCc2520.RadioSendFraming
import RpiCc2520.RepeatedItems

/-! The whole transmit stack of a node: what the driver is given for the sends its user made. A
send is repeated by the link layer as often as it likes, and every time with the same bytes. -/
namespace RpiCc2520.RadioNode
open RadioMessage RadioLink RadioSend RadioDelivery RadioSequence RepeatedItems

/-- The stack with the frames of the accepted sends, and for each transmission handed to the send
module the send it was made for, all oldest first. -/
structure Node where
  radio : Radio
  sent : List (List UInt8)
  owners : List ℕ

def currentMessage (s : Radio) : Message := s.stack.link.mem s.stack.link.currentMsg

def nodeStep (s : Node) (e : RadioEvent) : Option Node :=
  (radioStep s.radio e).map fun radio =>
    { radio := radio
      sent := match e with
        | .send _ len =>
            if s.radio.stack.link.state = stateReady then
              s.sent ++ [BytePipe.load (currentMessage radio).bytes 0 len.toNat]
            else s.sent
        | .below _ => s.sent
      owners := match e with
        | .below (.task _) =>
            if radio.stack.link.outstanding = s.radio.stack.link.outstanding then s.owners
            else s.owners ++ [s.sent.length - 1]
        | _ => s.owners }

/-- A send is made when the link layer is ready, with a length that leaves the child in step, and
no transmission is cancelled twice. -/
def Proper (s : Node) : RadioEvent → Prop
  | .send _ len => s.radio.stack.link.state = stateReady ∧ 2 ≤ len ∧ len ≤ 126
  | .below (.cancel m) => CancelledOnce s.radio.stack.link (.cancel m)
  | .below _ => True

def nodeMachine : Machine Node RadioEvent :=
  ⟨fun s => radioMachine.initial s.radio ∧ s.sent = [] ∧ s.owners = [], nodeStep⟩

/-- The sequence number of a frame that is long enough to have one. -/
def dsnOf (frame : List UInt8) : UInt8 := frame.getD 3 0

def Numbered (older newer : List UInt8) : Prop :=
  4 ≤ older.length → 4 ≤ newer.length → dsnOf newer = dsnOf older + 1

/-- The frame is the one the message in memory makes. -/
structure Holds (msg : Message) (frame : List UInt8) : Prop where
  low : 2 ≤ frame.length
  high : frame.length ≤ 126
  first : (msg.bytes 0).toNat = frame.length + 1
  bytes : BytePipe.load msg.bytes 0 frame.length = frame

theorem Holds.head {msg : Message} {frame : List UInt8} (h : Holds msg frame) :
    2 ≤ frame.length ∧ frame.length ≤ 126 ∧
      frame.head? = some (UInt8.ofNat (frame.length + 1)) := by
  refine ⟨h.low, h.high, ?_⟩
  obtain ⟨n, hn⟩ := Nat.exists_eq_add_of_lt (Nat.lt_of_succ_lt h.low)
  have hbytes := h.bytes
  rw [← h.first, UInt8.ofNat_toNat]
  rw [hn, Nat.zero_add, BytePipe.load_succ] at hbytes
  rw [← hbytes]
  rfl

/-- What is on its way through the send module, oldest first: the record whose task is posted,
those in the result pipe and the sends the child has not finished. -/
def onTheWay (s : SendP) (unread : List ReadFifoHeader) (todo : List Sent) : List Ptr :=
  (if s.sendDonePosted then [ptrAt s.sendHdr] else []) ++
    (unread.map ReadFifoHeader.ptrToMsg ++ todo.map Sent.ptr)

/-- The send module serves the transmissions the link layer has outstanding. -/
structure Carries (stack : Stack) (frames : List (List UInt8)) (done todo : List Sent)
    (unread : List ReadFifoHeader) : Prop where
  serving : Serving stack.sendP done todo none
  opened : stack.sendP.child.closed = false
  legal : ∀ r ∈ todo, r.Legal
  frames : (done ++ todo).map Sent.frame = frames
  readPipe : stack.sendP.readPipe = unread.flatMap ReadFifoHeader.bytes
  outstanding : onTheWay stack.sendP unread todo = stack.link.outstanding

/-- The transmissions so far carry the frames of their sends, in order. -/
structure Carried (s : Node) : Prop where
  link : Ordered s.radio.stack.link
  carries : ∃ done todo unread, Carries s.radio.stack (itemsAt s.sent [] s.owners) done todo unread
  sorted : s.owners.Pairwise (· ≤ ·)
  range : ∀ i ∈ s.owners, i < s.sent.length
  lengths : ∀ f ∈ s.sent, 2 ≤ f.length ∧ f.length ≤ 126 ∧
    f.head? = some (UInt8.ofNat (f.length + 1))
  numbered : s.sent.IsChain Numbered
  counter : ∀ f ∈ s.sent.getLast?, 4 ≤ f.length → s.radio.sequenceNumber = dsnOf f + 1
  current : s.radio.stack.link.state ≠ stateReady →
    ∃ f ∈ s.sent.getLast?, Holds (currentMessage s.radio) f

theorem carried_initial {s : Node} (h : nodeMachine.initial s) : Carried s := by
  obtain ⟨⟨⟨hboot, hstart, -⟩, -⟩, hsent, howners⟩ := h
  obtain ⟨hw, hc, ho, hd, hr, hp⟩ := hstart
  have hlink := ordered_boot hboot
  obtain ⟨hs, -, -, hout, -⟩ := hboot
  have hserving : Serving s.radio.stack.sendP [] [] none :=
    .header hc (by rw [hw]; exact .whole []) (by rw [hd]; rfl)
  constructor
  · exact hlink
  · refine ⟨[], [], [], hserving, ho, List.forall_mem_nil _, ?_, hr, ?_⟩
    · rw [howners]
      rfl
    · rw [onTheWay, hp, hout]
      rfl
  · rw [howners]
    exact List.Pairwise.nil
  · rw [howners]
    exact List.forall_mem_nil _
  · rw [hsent]
    exact List.forall_mem_nil _
  · rw [hsent]
    exact List.isChain_nil
  · rw [hsent]
    intro f hf
    cases hf
  · intro hne
    exact absurd hs hne

theorem onTheWay_length (s : SendP) (unread : List ReadFifoHeader) (todo : List Sent) :
    (onTheWay s unread todo).length = s.sendDonePosted.toNat + (unread.length + todo.length) := by
  rw [onTheWay, List.length_append, List.length_append, List.length_map, List.length_map]
  cases s.sendDonePosted <;> rfl

theorem Carries.one {s : Stack} {frames : List (List UInt8)} {done todo : List Sent}
    {unread : List ReadFifoHeader} (h : Carries s frames done todo unread)
    (hlink : Ordered s.link) :
    s.sendP.sendDonePosted.toNat + (unread.length + todo.length) ≤ 1 := by
  rw [← onTheWay_length, h.outstanding]
  by_cases ho : s.link.outstanding = []
  · rw [ho]
    exact Nat.zero_le 1
  · rw [(ordered_outstanding hlink ho).1]
    exact le_rfl

theorem send_accepted {s t : Radio} {m : Ptr} {len : UInt8}
    (hs : s.stack.link.state = stateReady) (hst : RadioSequence.send m len s = some t) :
    t.sequenceNumber = s.sequenceNumber + 1 ∧ t.stack.sendP = s.stack.sendP ∧
      t.stack.link = (RadioLink.send m { s.stack.link with mem := withHeader m len s }).2 ∧
      t.stack.link.outstanding = s.stack.link.outstanding ∧
      (currentMessage t).bytes 0 = len + 1 ∧ (currentMessage t).bytes 3 = s.sequenceNumber := by
  obtain ⟨u, hu, rfl⟩ := Option.map_eq_some_iff.mp hst
  have hsend := send_of_ready (s := { s.stack.link with mem := withHeader m len s }) m hs
  simp only [stackStep, hsend, if_true, Option.some.injEq] at hu
  subst hu
  refine ⟨rfl, rfl, by rw [hsend], rfl, ?_⟩
  have hheader : (withHeader m len s m).bytes 0 = len + 1 ∧
      (withHeader m len s m).bytes 3 = s.sequenceNumber := by
    simp [withHeader, Message.setHeader]
  -- asking for an ack changes neither of the two bytes
  by_cases hr : 0 < (withHeader m len s m).getRetries
  · simpa [currentMessage, note, post, hr, Message.requestAck] using hheader
  · simpa [currentMessage, note, post, hr] using hheader

theorem carried_send {s t : Node} {m : Ptr} {len : UInt8} (h : Carried s)
    (hs : s.radio.stack.link.state = stateReady) (low : 2 ≤ len) (high : len ≤ 126)
    (hst : nodeStep s (.send m len) = some t) : Carried t := by
  obtain ⟨radio, hradio, rfl⟩ := Option.map_eq_some_iff.mp hst
  obtain ⟨hnumber, hsendP, hlink, hout, hfirst, hdsn⟩ := send_accepted hs hradio
  have hlow : 2 ≤ len.toNat := UInt8.le_iff_toNat_le.mp low
  have hhigh : len.toNat ≤ 126 := UInt8.le_iff_toNat_le.mp high
  have hlen : (BytePipe.load (currentMessage radio).bytes 0 len.toNat).length = len.toNat :=
    BytePipe.load_length _ _ _
  have hbyte : (len + 1).toNat = len.toNat + 1 := by
    rw [UInt8.toNat_add, show (1 : UInt8).toNat = 1 from rfl]
    omega
  have hholds : Holds (currentMessage radio)
      (BytePipe.load (currentMessage radio).bytes 0 len.toNat) :=
    ⟨hlen.symm ▸ hlow, hlen.symm ▸ hhigh, by rw [hfirst, hbyte, hlen], by rw [hlen]⟩
  have hnum : 4 ≤ len.toNat → dsnOf (BytePipe.load (currentMessage radio).bytes 0 len.toNat) =
      s.radio.sequenceNumber := by
    intro h4
    rw [dsnOf, BytePipe.load_getD _ _ _ (show 3 < len.toNat by omega), Nat.zero_add, hdsn]
  obtain ⟨done, todo, unread, hc⟩ := h.carries
  simp only [if_pos hs]
  constructor
  · rw [hlink]
    exact ordered_send (ordered_write h.link _) m
  · refine ⟨done, todo, unread, ?_, ?_, hc.legal, ?_, ?_, ?_⟩
    · rw [hsendP]
      exact hc.serving
    · rw [hsendP]
      exact hc.opened
    · rw [hc.frames, itemsAt_append [] h.range]
    · rw [hsendP]
      exact hc.readPipe
    · rw [hsendP, hout]
      exact hc.outstanding
  · exact h.sorted
  · intro i hi
    rw [List.length_append]
    exact (h.range i hi).trans (Nat.lt_add_of_pos_right Nat.one_pos)
  · refine List.forall_mem_append.mpr ⟨h.lengths, List.forall_mem_singleton.mpr ?_⟩
    exact hholds.head
  · refine h.numbered.append (List.isChain_singleton _) ?_
    intro older holder newer hnewer h4 h4'
    cases hnewer
    rw [hnum (hlen ▸ h4'), h.counter older holder h4]
  · intro f hf h4
    rw [List.getLast?_concat] at hf
    cases hf
    rw [hnumber, hnum (hlen ▸ h4)]
  · intro _
    exact ⟨_, List.getLast?_concat, hholds⟩

/-- A step below the radio layer leaves the frame of the message alone. -/
theorem current_below {s t : Radio} {sent : List (List UInt8)}
    (h : s.stack.link.state ≠ stateReady → ∃ f ∈ sent.getLast?, Holds (currentMessage s) f)
    (hu : Untouched s.stack.link t.stack.link) (hs : t.stack.link.state ≠ stateReady) :
    ∃ f ∈ sent.getLast?, Holds (currentMessage t) f := by
  have hbusy : s.stack.link.state ≠ stateReady := fun hr => hs (hu.ready hr)
  obtain ⟨f, hf, hholds⟩ := h hbusy
  have hbytes : (currentMessage t).bytes = (currentMessage s).bytes := by
    rw [currentMessage, currentMessage, hu.currentMsg, hu.bytes hbusy]
  exact ⟨f, hf, hholds.low, hholds.high, by rw [hbytes]; exact hholds.first,
    by rw [hbytes]; exact hholds.bytes⟩

theorem carried_kept {s t : Node} (h : Carried s)
    (number : t.radio.sequenceNumber = s.radio.sequenceNumber) (sent : t.sent = s.sent)
    (owners : t.owners = s.owners) (hu : Untouched s.radio.stack.link t.radio.stack.link)
    (link : Ordered t.radio.stack.link)
    (carries : ∃ done todo unread,
      Carries t.radio.stack (itemsAt s.sent [] s.owners) done todo unread) : Carried t := by
  constructor
  · exact link
  · rw [sent, owners]
    exact carries
  · rw [owners]
    exact h.sorted
  · rw [owners, sent]
    exact h.range
  · rw [sent]
    exact h.lengths
  · rw [sent]
    exact h.numbered
  · rw [sent, number]
    exact h.counter
  · rw [sent]
    exact current_below h.current hu

/-- Only the link layer moved, and it owes no more and no fewer answers. -/
theorem Carries.link {s t : Stack} {frames : List (List UInt8)} {done todo : List Sent}
    {unread : List ReadFifoHeader} (h : Carries s frames done todo unread)
    (sendP : t.sendP = s.sendP) (outstanding : t.link.outstanding = s.link.outstanding) :
    Carries t frames done todo unread := by
  obtain ⟨hserving, hopened, hlegal, hframes, hread, hout⟩ := h
  refine ⟨?_, ?_, hlegal, hframes, ?_, ?_⟩
  · rw [sendP]
    exact hserving
  · rw [sendP]
    exact hopened
  · rw [sendP]
    exact hread
  · rw [sendP, outstanding]
    exact hout

theorem cancel_outstanding (m : Ptr) (s : Link) :
    (RadioLink.cancel m s).2.outstanding = s.outstanding := by
  unfold RadioLink.cancel
  split
  · rfl
  · dsimp only
    split <;> rfl

theorem childStep_parent {s t : SendP} {ret : Int32} (hst : childStep ret s = some t) :
    t.sendDonePosted = s.sendDonePosted ∧ t.sendHdr = s.sendHdr := by
  unfold childStep at hst
  cases hpc : s.child.pc with
  | header =>
    simp only [hpc] at hst
    split at hst
    · cases hst
      exact ⟨rfl, rfl⟩
    · obtain ⟨p, -, rfl⟩ := Option.map_eq_some_iff.mp hst
      exact ⟨rfl, rfl⟩
  | body =>
    simp only [hpc, readBody] at hst
    split at hst
    · cases hst
      exact ⟨rfl, rfl⟩
    · obtain ⟨p, -, rfl⟩ := Option.map_eq_some_iff.mp hst
      exact ⟨rfl, rfl⟩
  | device =>
    simp only [hpc] at hst
    cases hst
    exact ⟨rfl, rfl⟩
  | result r =>
    simp only [hpc] at hst
    cases hst
    exact ⟨rfl, rfl⟩
  | exited =>
    simp only [hpc] at hst
    cases hst

theorem carries_child {s : Stack} {frames : List (List UInt8)} {done todo : List Sent}
    {unread : List ReadFifoHeader} (h : Carries s frames done todo unread) {ret : Int32}
    {u : SendP} (hst : childStep ret s.sendP = some u) {t : Stack} (hlink : t.link = s.link)
    (hsendP : t.sendP = u) : ∃ done todo unread, Carries t frames done todo unread := by
  obtain ⟨hmoved, hopened⟩ := serving_child h.serving h.opened h.legal hst
  obtain ⟨hposted, hhdr⟩ := childStep_parent hst
  subst hsendP
  cases hmoved with
  | within serving pipe =>
    refine ⟨done, todo, unread, serving, hopened, h.legal, h.frames, pipe.trans h.readPipe, ?_⟩
    rw [onTheWay, hposted, hhdr, hlink]
    exact h.outstanding
  | completed r rest record first serving key pipe =>
    subst first
    have hptr : record.ptrToMsg = r.ptr := congrArg Prod.fst key
    refine ⟨done ++ [r], rest, unread ++ [record], serving, hopened, ?_, ?_, ?_, ?_⟩
    · exact fun q hq => h.legal q (List.mem_cons_of_mem r hq)
    · rw [List.append_assoc, List.singleton_append]
      exact h.frames
    · rw [pipe, h.readPipe, List.flatMap_append, List.flatMap_singleton]
    · have hout := h.outstanding
      rw [onTheWay, List.map_cons] at hout
      rw [onTheWay, hposted, hhdr, hlink, ← hout, List.map_append, List.map_singleton, hptr,
        List.append_assoc (unread.map _), List.singleton_append]

theorem carries_receiveReady {s : Stack} {frames : List (List UInt8)} {done todo : List Sent}
    {unread : List ReadFifoHeader} (h : Carries s frames done todo unread)
    (hlink : Ordered s.link) :
    ∃ done todo unread,
      Carries { s with sendP := receiveReady s.sendP } frames done todo unread := by
  cases unread with
  | nil =>
    rw [receiveReady_empty h.readPipe]
    exact ⟨_, _, _, h⟩
  | cons record rest =>
    have hread := receiveReady_record h.readPipe
    obtain ⟨hptr, -, -⟩ := readFifoHeader_store s.sendP.sendHdr record
    -- the record is the only thing on its way
    have hone := h.one hlink
    rw [List.length_cons] at hone
    have hposted : s.sendP.sendDonePosted = false := Bool.toNat_eq_zero.mp (by omega)
    refine ⟨done, todo, rest, ?_, ?_, h.legal, h.frames, ?_, ?_⟩
    · rw [hread]
      exact h.serving.frame rfl rfl rfl
    · rw [hread]
      exact h.opened
    · rw [hread]
      rfl
    · have hout := h.outstanding
      rw [onTheWay, hposted, List.map_cons] at hout
      rw [hread, onTheWay, if_pos rfl, hptr]
      exact hout

theorem carries_completeTask {s : Stack} {frames : List (List UInt8)} {done todo : List Sent}
    {unread : List ReadFifoHeader} (h : Carries s frames done todo unread)
    (hlink : Ordered s.link) (posted : s.sendP.sendDonePosted = true) :
    Ordered (completeTask s).link ∧
      ∃ done todo unread, Carries (completeTask s) frames done todo unread := by
  have hone := h.one hlink
  have hout := h.outstanding
  rw [posted, Bool.toNat_true] at hone
  obtain rfl : unread = [] := List.eq_nil_of_length_eq_zero (by omega)
  obtain rfl : todo = [] := List.eq_nil_of_length_eq_zero (by omega)
  rw [onTheWay, if_pos posted] at hout
  have hmem : ptrAt s.sendP.sendHdr ∈ s.link.outstanding := by
    rw [← hout]
    exact List.mem_cons_self
  have hfree : s.link.outstanding.erase (ptrAt s.sendP.sendHdr) = [] := by
    rw [← hout]
    exact List.erase_cons_head ..
  refine ⟨?_, done, [], [], ?_, h.opened, h.legal, h.frames, h.readPipe, ?_⟩
  · exact ordered_subSendDone (ordered_write hlink (sendDoneTask s.link.mem s.sendP)) hmem
      (show success.toNat < 252 by decide)
  · exact h.serving.frame rfl rfl rfl
  · exact hfree.symm

/-- A run of the task starts no transmission, or one for the message the layer is at. -/
theorem sendTask_outstanding (s : Link) :
    (sendTask success s).outstanding = s.outstanding ∨
      (sendTask success s).outstanding = s.currentMsg :: s.outstanding := by
  have outcome := sendTask_outcome success s
  generalize sendTask success s = t at outcome
  cases outcome with
  | acked => exact .inl rfl
  | exhausted => exact .inl rfl
  | delayed => exact .inl rfl
  | retried => exact .inr rfl
  | attempt => exact .inr rfl
  | report => exact .inl rfl
  | idle => exact .inl rfl

/-- The send the link layer makes of a message that holds the frame. -/
def sentOf (m : Ptr) (pad : Vector UInt8 3) (frame : List UInt8) : Sent :=
  ⟨m, UInt8.ofNat frame.length, pad, frame⟩

theorem Holds.len {msg : Message} {frame : List UInt8} (h : Holds msg frame) (m : Ptr)
    (pad : Vector UInt8 3) : (sentOf m pad frame).len.toNat = frame.length ∧
      (sentOf m pad frame).len + 1 = msg.bytes 0 := by
  have hhigh := h.high
  have hsize : frame.length < UInt8.size := hhigh.trans_lt (by decide)
  have hlen : (sentOf m pad frame).len.toNat = frame.length := UInt8.toNat_ofNat_of_lt' hsize
  refine ⟨hlen, ?_⟩
  rw [← UInt8.toNat_inj, UInt8.toNat_add, hlen, h.first, show (1 : UInt8).toNat = 1 from rfl]
  omega

theorem Holds.legal {msg : Message} {frame : List UInt8} (h : Holds msg frame) (m : Ptr)
    (pad : Vector UInt8 3) : (sentOf m pad frame).Legal := by
  obtain ⟨hlen, hfirst⟩ := h.len m pad
  refine ⟨?_, ?_, hlen.symm, ?_⟩
  · rw [hlen]
    exact h.low
  · rw [hlen]
    exact h.high
  · rw [hfirst, ← @UInt8.ofNat_toNat (msg.bytes 0), h.first]
    exact h.head.2.2

theorem Holds.body {msg : Message} {frame : List UInt8} (h : Holds msg frame) (m : Ptr)
    (pad : Vector UInt8 3) :
    BytePipe.load msg.bytes 1 ((msg.bytes 0).toNat - 2) = (sentOf m pad frame).body := by
  obtain ⟨n, hn⟩ := Nat.exists_eq_add_of_lt (Nat.lt_of_succ_lt h.low)
  have hbytes := h.bytes
  have hcount : (msg.bytes 0).toNat - 2 = n := by
    rw [h.first]
    omega
  rw [hn, Nat.zero_add, BytePipe.load_succ] at hbytes
  rw [hcount, Sent.body, sentOf, ← hbytes]
  rfl

theorem Carries.transmit {s : Stack} {frames : List (List UInt8)} {done todo : List Sent}
    {unread : List ReadFifoHeader} (h : Carries s frames done todo unread)
    (free : s.link.outstanding = []) {m : Ptr} {msg : Message} {frame : List UInt8}
    (hmsg : Holds msg frame) (pad : Vector UInt8 3) {t : Stack}
    (sendP : t.sendP = bareSend m msg pad s.sendP) (outstanding : t.link.outstanding = [m]) :
    ∃ done todo unread, Carries t (frames ++ [frame]) done todo unread := by
  obtain ⟨hlen, hfirst⟩ := hmsg.len m pad
  have hway := h.outstanding
  have hone := onTheWay_length s.sendP unread todo
  rw [hway, free, List.length_nil] at hone
  obtain rfl : unread = [] := List.eq_nil_of_length_eq_zero (by omega)
  obtain rfl : todo = [] := List.eq_nil_of_length_eq_zero (by omega)
  have hposted : s.sendP.sendDonePosted = false := Bool.toNat_eq_zero.mp (by omega)
  have hserving : Serving t.sendP done ([] ++ [sentOf m pad frame]) none := by
    have hsend := h.serving.send (sentOf m pad frame)
    have hbody := hmsg.body m pad
    rw [← hfirst] at hbody
    have hfinish := hsend.finish hbody
    rw [hfirst] at hfinish
    rw [sendP]
    exact hfinish
  refine ⟨done, [sentOf m pad frame], [], hserving, ?_, ?_, ?_, ?_, ?_⟩
  · rw [sendP]
    exact h.opened
  · exact List.forall_mem_singleton.mpr (hmsg.legal m pad)
  · rw [List.map_append, ← h.frames, List.append_nil]
    rfl
  · rw [sendP]
    exact h.readPipe
  · have hpost : t.sendP.sendDonePosted = false := by
      rw [sendP]
      exact hposted
    rw [outstanding, onTheWay, hpost]
    rfl

theorem linkTask_sendP (pad : Vector UInt8 3) (s : Stack) :
    (linkTask pad s).sendP = if (linkTask pad s).link.outstanding = s.link.outstanding then s.sendP
      else bareSend (linkTask pad s).link.currentMsg
        ((linkTask pad s).link.mem (linkTask pad s).link.currentMsg) pad s.sendP := by
  rw [linkTask_link]
  unfold linkTask
  dsimp only
  split <;> rfl

theorem below_step {s t : Radio} {e : StackEvent}
    (hst : radioStep s (.below e) = some t) :
    stackStep s.stack e = some t.stack ∧ t.sequenceNumber = s.sequenceNumber := by
  rcases radioStep_cases hst with ⟨m, len, hsend, -⟩ | ⟨e', hbelow, -, hst⟩
  · cases hsend
  · cases hbelow
    obtain ⟨u, hu, rfl⟩ := Option.map_eq_some_iff.mp hst
    exact ⟨hu, rfl⟩

theorem carried_task {s t : Node} {pad : Vector UInt8 3} (h : Carried s)
    (hst : nodeStep s (.below (.task pad)) = some t) : Carried t := by
  obtain ⟨radio, hradio, rfl⟩ := Option.map_eq_some_iff.mp hst
  have he (m : Ptr) : StackEvent.task pad ≠ .send m := by simp
  obtain ⟨hstack, hnumber⟩ := below_step hradio
  have hu := untouched_stackStep he hstack
  simp only [stackStep, Option.ite_none_right_eq_some, Option.some.injEq] at hstack
  obtain ⟨posted, hstack⟩ := hstack
  obtain ⟨free, -⟩ := ordered_posted h.link posted
  have hlink : Ordered radio.stack.link := by
    rw [← hstack, linkTask_link]
    exact ordered_task h.link success posted
  have hsendP := linkTask_sendP pad s.radio.stack
  rw [hstack] at hsendP
  obtain ⟨done, todo, unread, hc⟩ := h.carries
  by_cases ho : radio.stack.link.outstanding = s.radio.stack.link.outstanding
  · rw [if_pos ho] at hsendP
    exact carried_kept h hnumber rfl (if_pos ho) hu hlink ⟨_, _, _, hc.link hsendP ho⟩
  · rw [if_neg ho] at hsendP
    have hout : radio.stack.link.outstanding = [radio.stack.link.currentMsg] := by
      have hmore := sendTask_outstanding { s.radio.stack.link with sendPosted := false }
      rw [← linkTask_link pad, hstack] at hmore
      rw [hu.currentMsg, hmore.resolve_left ho, free]
    have hbusy : radio.stack.link.state ≠ stateReady := by
      refine (ordered_outstanding hlink ?_).2.2
      rw [hout]
      exact List.cons_ne_nil _ _
    obtain ⟨f, hf, hholds⟩ := current_below h.current hu hbusy
    have hcarry := hc.transmit free hholds pad hsendP hout
    have hpos : 0 < s.sent.length := by
      rw [List.length_pos_iff]
      intro hnil
      rw [hnil] at hf
      cases hf
    simp only [if_neg ho]
    constructor
    · exact hlink
    · rw [itemsAt_concat, getD_last [] hf]
      exact hcarry
    · refine List.pairwise_append.mpr ⟨h.sorted, List.pairwise_singleton _ _, ?_⟩
      intro i hi j hj
      rw [List.mem_singleton.mp hj]
      exact Nat.le_pred_of_lt (h.range i hi)
    · refine List.forall_mem_append.mpr ⟨h.range, List.forall_mem_singleton.mpr ?_⟩
      exact Nat.pred_lt_of_lt hpos
    · exact h.lengths
    · exact h.numbered
    · rw [hnumber]
      exact h.counter
    · intro _
      exact ⟨f, hf, hholds⟩

theorem carried_below {s t : Node} {e : StackEvent} (h : Carried s)
    (ok : Proper s (.below e)) (hst : nodeStep s (.below e) = some t) : Carried t := by
  obtain ⟨radio, hradio, rfl⟩ := Option.map_eq_some_iff.mp hst
  have he : ∀ m, e ≠ .send m := by
    rintro m rfl
    cases hradio
  obtain ⟨hstack, hnumber⟩ := below_step hradio
  have hu := untouched_stackStep he hstack
  obtain ⟨done, todo, unread, hc⟩ := h.carries
  cases e with
  | send m => exact absurd rfl (he m)
  | task pad => exact carried_task h hst
  | cancel m =>
    simp only [stackStep, Option.some.injEq] at hstack
    have hlink : Ordered radio.stack.link := by
      rw [← hstack]
      exact ordered_cancel h.link m ok
    refine carried_kept h hnumber rfl rfl hu hlink ⟨_, _, _, hc.link ?_ ?_⟩
    · rw [← hstack]
    · rw [← hstack]
      exact cancel_outstanding m _
  | fired =>
    simp only [stackStep, Option.ite_none_right_eq_some, Option.some.injEq] at hstack
    obtain ⟨armed, hstack⟩ := hstack
    have hlink : Ordered radio.stack.link := by
      rw [← hstack]
      exact ordered_fired h.link armed
    refine carried_kept h hnumber rfl rfl hu hlink ⟨_, _, _, hc.link ?_ ?_⟩
    · rw [← hstack]
    · rw [← hstack]
      rfl
  | child ret =>
    obtain ⟨u, hchild, hstack⟩ := Option.map_eq_some_iff.mp hstack
    have hlink : radio.stack.link = s.radio.stack.link := by rw [← hstack]
    have hsendP : radio.stack.sendP = u := by rw [← hstack]
    refine carried_kept h hnumber rfl rfl hu ?_ (carries_child hc hchild hlink hsendP)
    rw [hlink]
    exact h.link
  | receiveReady =>
    simp only [stackStep, Option.some.injEq] at hstack
    have hcarry := carries_receiveReady hc h.link
    rw [hstack] at hcarry
    refine carried_kept h hnumber rfl rfl hu ?_ hcarry
    rw [← hstack]
    exact h.link
  | sendDoneTask =>
    simp only [stackStep, Option.ite_none_right_eq_some, Option.some.injEq] at hstack
    obtain ⟨posted, hstack⟩ := hstack
    have hdone := carries_completeTask hc h.link posted
    rw [hstack] at hdone
    exact carried_kept h hnumber rfl rfl hu hdone.1 hdone.2
  | write m msg =>
    simp only [stackStep, Option.ite_none_right_eq_some, Option.some.injEq] at hstack
    obtain ⟨-, hstack⟩ := hstack
    have hlink : Ordered radio.stack.link := by
      rw [← hstack]
      exact ordered_write h.link _
    refine carried_kept h hnumber rfl rfl hu hlink ⟨_, _, _, hc.link ?_ ?_⟩
    · rw [← hstack]
    · rw [← hstack]

theorem carried_step {s t : Node} {e : RadioEvent} (h : Carried s) (ok : Proper s e)
    (hst : nodeStep s e = some t) : Carried t := by
  cases e with
  | send m len => exact carried_send h ok.1 ok.2.1 ok.2.2 hst
  | below e => exact carried_below h ok hst

/-- In every proper run what the driver was given are the frames of the accepted sends, in order
and each as often as the link layer tried it. -/
theorem Carried.device {s : Node} (h : Carried s) :
    s.radio.stack.sendP.device <+: itemsAt s.sent [] s.owners := by
  obtain ⟨done, todo, unread, hc⟩ := h.carries
  rw [← hc.frames]
  cases hc.serving with
  | header _ _ device | body _ _ _ _ _ device | device _ _ _ _ device =>
    rw [device]
    exact (List.prefix_append _ _).map _
  | @result r todo _ _ _ _ _ device =>
    rw [device]
    exact List.IsPrefix.map Sent.frame ⟨todo, by simp⟩

end RpiCc2520.RadioNode
