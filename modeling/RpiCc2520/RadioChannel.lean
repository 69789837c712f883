import RpiCc2520.RadioNode
import RpiCc2520.RadioReceive

/-! Two nodes and the air between them: the transmit stack of one, the receive stack of the other.
The air loses transmissions and damages them; what it lets through it lets through in order, each
with the two bytes that the radio puts in place of the checksum. -/
namespace RpiCc2520.RadioChannel
open RadioMessage RadioLink RadioSequence RadioNode RepeatedItems
open RadioReceive (Receive Delivery IsFrame crcOk delivery deliveries lastByte)

/-- `passed` of the frames the sender's driver was given are behind the air; `heard` are the sends
whose frames the receiver's driver returned undamaged, oldest first. -/
structure Channel where
  node : Node
  passed : ℕ
  heard : List ℕ
  receive : Receive

inductive ChannelEvent
  | sender (e : RadioEvent)
  | receiver (e : RadioReceive.Event)
  | air (k : ℕ) (rssi crcLqi : UInt8)
  | noise (frame : List UInt8)

/-- What the receiver's driver returns of a frame that was given to the sender's: the checksum is
replaced by the signal strength and by the CRC bit over the link quality. -/
def onAir (frame : List UInt8) (rssi crcLqi : UInt8) : List UInt8 := frame ++ [rssi, crcLqi]

def channelStep (s : Channel) : ChannelEvent → Option Channel
  | .sender e => (nodeStep s.node e).map fun node => { s with node := node }
  | .receiver (.driver _) => none
  | .receiver e => (RadioReceive.step s.receive e).map fun receive => { s with receive := receive }
  | .air k rssi crcLqi =>
      match s.node.radio.stack.sendP.device[k]? with
      | none => none
      | some frame =>
          if s.passed ≤ k ∧ 128 ≤ crcLqi then
            (RadioReceive.step s.receive (.driver (onAir frame rssi crcLqi))).map fun receive =>
              { s with
                passed := k + 1
                heard := s.heard ++ [s.node.owners.getD k 0]
                receive := receive }
          else none
  | .noise frame =>
      if crcOk frame then none
      else (RadioReceive.step s.receive (.driver frame)).map fun receive =>
        { s with receive := receive }

/-- The sender's user keeps to its side, and a damaged frame still has the length it says. -/
def Fair (s : Channel) : ChannelEvent → Prop
  | .sender e => Proper s.node e
  | .receiver _ => True
  | .air _ _ _ => True
  | .noise frame => IsFrame frame

def channelMachine : Machine Channel ChannelEvent :=
  ⟨fun s => nodeMachine.initial s.node ∧ s.passed = 0 ∧ s.heard = [] ∧
    RadioReceive.Started s.receive, channelStep⟩

/-- Nothing is on its way through the receive stack. -/
structure Drained (s : Receive) : Prop where
  childPc : s.childPc = .driver
  pipe : s.pipe = []
  bodyPending : s.bodyPending = false
  taskPosted : s.taskPosted = false

def receivedData (s : Receive) : List (List UInt8) := s.received.map Delivery.data

/-- The receiving user gets, in order, the bytes of the sends that were heard. A user that drops
what equals the one before it gets no send twice; and every send once, if of each something was
heard and the frames are long enough to have a sequence number. -/
structure EndToEnd (s : Channel) : Prop where
  order : receivedData s.receive <+: itemsAt s.node.sent [] s.heard
  lengths : ∀ d ∈ s.receive.received, d.len.toNat = d.data.length
  once : ((receivedData s.receive).destutter (· ≠ ·)).Sublist s.node.sent
  all : Drained s.receive → (∀ f ∈ s.node.sent, 4 ≤ f.length) →
    (∀ i < s.node.sent.length, i ∈ s.heard) →
    (receivedData s.receive).destutter (· ≠ ·) = s.node.sent

/-- What the receiver's driver has returned undamaged are frames of accepted sends, in order. -/
structure Linked (s : Channel) : Prop where
  node : Carried s.node
  receive : RadioReceive.InStep s.receive
  data : (deliveries s.receive.frames).map Delivery.data = itemsAt s.node.sent [] s.heard
  heard : s.heard.Sublist (s.node.owners.take s.passed)
  passed : s.passed ≤ s.node.owners.length

theorem linked_initial {s : Channel} (h : channelMachine.initial s) : Linked s := by
  obtain ⟨hnode, hpassed, hheard, hstart⟩ := h
  have hframes : s.receive.frames = [] := hstart.2.2.2.2.2.2.2.1
  refine ⟨carried_initial hnode, ⟨_, _, _, _, RadioReceive.synced_started hstart⟩, ?_, ?_, ?_⟩
  · rw [hframes, hheard]
    rfl
  · rw [hheard]
    exact List.nil_sublist _
  · rw [hpassed]
    exact Nat.zero_le _

theorem nodeStep_grows {s t : Node} {e : RadioEvent} (hst : nodeStep s e = some t) :
    s.sent <+: t.sent ∧ s.owners <+: t.owners := by
  obtain ⟨radio, -, rfl⟩ := Option.map_eq_some_iff.mp hst
  constructor
  · dsimp only
    split
    · split
      · exact List.prefix_append _ _
      · exact List.prefix_rfl
    · exact List.prefix_rfl
  · dsimp only
    split
    · split
      · exact List.prefix_rfl
      · exact List.prefix_append _ _
    · exact List.prefix_rfl

theorem Linked.heard_lt {s : Channel} (h : Linked s) : ∀ i ∈ s.heard, i < s.node.sent.length :=
  fun i hi => h.node.range i (List.mem_of_mem_take (h.heard.subset hi))

theorem linked_sender {s : Channel} {e : RadioEvent} {node : Node} (h : Linked s)
    (ok : Proper s.node e) (hst : nodeStep s.node e = some node) :
    Linked { s with node := node } := by
  obtain ⟨⟨more, hsent⟩, ⟨others, howners⟩⟩ := nodeStep_grows hst
  refine ⟨carried_step h.node ok hst, h.receive, ?_, ?_, ?_⟩
  · rw [h.data, ← hsent, itemsAt_append [] h.heard_lt]
  · rw [← howners, List.take_append_of_le_length h.passed]
    exact h.heard
  · rw [← howners, List.length_append]
    exact h.passed.trans (Nat.le_add_right _ _)

theorem receive_frames {s t : Receive} {e : RadioReceive.Event} (he : ∀ f, e ≠ .driver f)
    (hst : RadioReceive.step s e = some t) : t.frames = s.frames := by
  cases e with
  | driver frame => exact absurd rfl (he frame)
  | childWrite =>
    cases hpc : s.childPc with
    | driver => simp [RadioReceive.step, hpc] at hst
    | write len =>
      simp only [RadioReceive.step, hpc, Option.some.injEq] at hst
      rw [← hst]
  | receiveReady =>
    simp only [RadioReceive.step, Option.ite_none_right_eq_some] at hst
    obtain ⟨-, hst⟩ := hst
    cases hst
    unfold RadioReceive.receiveReady
    split <;> rfl
  | receiveBody =>
    simp only [RadioReceive.step, Option.ite_none_right_eq_some] at hst
    obtain ⟨-, hst⟩ := hst
    cases hst
    unfold RadioReceive.receiveBody
    dsimp only
    split
    · split <;> rfl
    · rfl
  | task now next =>
    simp only [RadioReceive.step, Option.ite_none_right_eq_some] at hst
    obtain ⟨-, hst⟩ := hst
    cases hst
    unfold RadioReceive.receiveTask
    dsimp only
    split <;> rfl
  | write m msg =>
    simp only [RadioReceive.step, Option.ite_none_right_eq_some] at hst
    obtain ⟨-, hst⟩ := hst
    cases hst
    rfl

theorem linked_receiver {s : Channel} {e : RadioReceive.Event} {receive : Receive} (h : Linked s)
    (he : ∀ f, e ≠ .driver f) (hst : RadioReceive.step s.receive e = some receive) :
    Linked { s with receive := receive } := by
  refine ⟨h.node, RadioReceive.inStep_step h.receive (fun f hf => absurd hf (he f)) hst, ?_,
    h.heard, h.passed⟩
  rw [receive_frames he hst]
  exact h.data

theorem driver_frames {s t : Receive} {frame : List UInt8}
    (hst : RadioReceive.step s (.driver frame) = some t) : t.frames = s.frames ++ [frame] := by
  cases hpc : s.childPc with
  | write len => simp [RadioReceive.step, hpc] at hst
  | driver =>
    simp only [RadioReceive.step, hpc, Option.ite_none_right_eq_some, Option.some.injEq] at hst
    rw [← hst.2]

theorem linked_noise {s : Channel} {frame : List UInt8} {receive : Receive} (h : Linked s)
    (hframe : IsFrame frame) (bad : ¬crcOk frame = true)
    (hst : RadioReceive.step s.receive (.driver frame) = some receive) :
    Linked { s with receive := receive } := by
  have hok : RadioReceive.DriverFrames s.receive (.driver frame) := by
    intro f hf
    cases hf
    exact hframe
  refine ⟨h.node, RadioReceive.inStep_step h.receive hok hst, ?_, h.heard, h.passed⟩
  rw [driver_frames hst, RadioReceive.deliveries_append, if_neg bad, List.append_nil]
  exact h.data

/-- A frame that comes through the air is again a frame, and what the user is to see of it is the
frame that was sent. -/
theorem onAir_frame {frame : List UInt8} (rssi : UInt8) {crcLqi : UInt8}
    (low : 2 ≤ frame.length) (high : frame.length ≤ 126)
    (first : frame.head? = some (UInt8.ofNat (frame.length + 1))) (good : 128 ≤ crcLqi) :
    IsFrame (onAir frame rssi crcLqi) ∧ crcOk (onAir frame rssi crcLqi) = true ∧
      (delivery (onAir frame rssi crcLqi)).data = frame := by
  obtain ⟨body, hbody⟩ := List.head?_eq_some_iff.mp first
  have hlen : (onAir frame rssi crcLqi).length = frame.length + 2 := List.length_append
  have hsize : frame.length + 1 < UInt8.size := (Nat.succ_le_succ high).trans_lt (by decide)
  have hbyte : (UInt8.ofNat (frame.length + 1)).toNat = frame.length + 1 :=
    UInt8.toNat_ofNat_of_lt' hsize
  refine ⟨⟨UInt8.ofNat (frame.length + 1), body ++ [rssi, crcLqi], ?_, ?_, ?_, ?_⟩, ?_, ?_⟩
  · rw [onAir, ← List.cons_append, ← hbody]
  · have hcount := congrArg List.length hbody
    rw [List.length_cons] at hcount
    rw [hbyte, List.length_append, hcount]
    rfl
  · rw [UInt8.le_iff_toNat_le, hbyte]
    exact Nat.le_succ_of_le low
  · rw [UInt8.le_iff_toNat_le, hbyte]
    exact Nat.succ_le_succ high
  · have hlast : lastByte (onAir frame rssi crcLqi) = crcLqi := by
      rw [lastByte, hlen, onAir, List.getD_append_right _ _ _ _ (by omega)]
      have hsub : frame.length + 2 - 1 - frame.length = 1 := by omega
      rw [hsub]
      rfl
    rw [crcOk, hlast]
    exact decide_eq_true good
  · change (onAir frame rssi crcLqi).take _ = frame
    rw [hlen, Nat.add_sub_cancel, onAir, List.take_left']
    rfl

theorem linked_air {s : Channel} {k : ℕ} {frame : List UInt8} {rssi crcLqi : UInt8}
    {receive : Receive} (h : Linked s) (hframe : s.node.radio.stack.sendP.device[k]? = some frame)
    (hk : s.passed ≤ k) (good : 128 ≤ crcLqi)
    (hst : RadioReceive.step s.receive (.driver (onAir frame rssi crcLqi)) = some receive) :
    Linked { s with
      passed := k + 1, heard := s.heard ++ [s.node.owners.getD k 0], receive := receive } := by
  have hitem : (itemsAt s.node.sent [] s.node.owners)[k]? = some frame :=
    (List.prefix_iff_getElem?.mp h.node.device k (List.getElem?_eq_some_iff.mp hframe).1).trans
      ((List.getElem?_eq_getElem _).symm.trans hframe)
  have hlt : k < s.node.owners.length := by
    have hlen := (List.getElem?_eq_some_iff.mp hitem).1
    rwa [itemsAt, List.length_map] at hlen
  have hget : s.node.owners.getD k 0 = s.node.owners[k] := List.getD_eq_getElem _ _ hlt
  have howner : s.node.sent.getD s.node.owners[k] [] = frame := by
    rw [itemsAt, List.getElem?_map, List.getElem?_eq_getElem hlt] at hitem
    exact Option.some.inj hitem
  have hmem : frame ∈ s.node.sent := by
    have hrange := h.node.range _ (List.getElem_mem hlt)
    rw [← howner, List.getD_eq_getElem _ _ hrange]
    exact List.getElem_mem hrange
  obtain ⟨low, high, first⟩ := h.node.lengths frame hmem
  obtain ⟨hisFrame, hcrc, hdata⟩ := onAir_frame rssi low high first good
  have hok : RadioReceive.DriverFrames s.receive (.driver (onAir frame rssi crcLqi)) := by
    intro f hf
    cases hf
    exact hisFrame
  refine ⟨h.node, RadioReceive.inStep_step h.receive hok hst, ?_, ?_, hlt⟩
  · rw [driver_frames hst, RadioReceive.deliveries_append, if_pos hcrc, List.map_append,
      List.map_singleton, hdata, h.data, itemsAt_concat, hget, howner]
  · have htake : s.node.owners.take (k + 1) = s.node.owners.take k ++ [s.node.owners[k]] := by simp
    rw [hget, htake]
    exact (h.heard.trans (List.take_sublist_take_left hk)).append (List.Sublist.refl _)

theorem linked_step {s t : Channel} {e : ChannelEvent} (h : Linked s) (ok : Fair s e)
    (hst : channelStep s e = some t) : Linked t := by
  cases e with
  | sender e =>
    obtain ⟨node, hnode, rfl⟩ := Option.map_eq_some_iff.mp hst
    exact linked_sender h ok hnode
  | receiver e =>
    have he : ∀ f, e ≠ .driver f := by
      rintro f rfl
      cases hst
    have hstep : (RadioReceive.step s.receive e).map
        (fun receive => { s with receive := receive }) = some t := by
      cases e with
      | driver f => exact absurd rfl (he f)
      | _ => exact hst
    obtain ⟨receive, hreceive, rfl⟩ := Option.map_eq_some_iff.mp hstep
    exact linked_receiver h he hreceive
  | air k rssi crcLqi =>
    cases hframe : s.node.radio.stack.sendP.device[k]? with
    | none => simp [channelStep, hframe] at hst
    | some frame =>
      simp only [channelStep, hframe, Option.ite_none_right_eq_some] at hst
      obtain ⟨⟨hk, good⟩, hst⟩ := hst
      obtain ⟨receive, hreceive, rfl⟩ := Option.map_eq_some_iff.mp hst
      exact linked_air h hframe hk good hreceive
  | noise frame =>
    simp only [channelStep, Option.ite_none_left_eq_some] at hst
    obtain ⟨bad, hst⟩ := hst
    obtain ⟨receive, hreceive, rfl⟩ := Option.map_eq_some_iff.mp hst
    exact linked_noise h ok bad hreceive

theorem delivery_length {frame : List UInt8} (h : IsFrame frame) :
    (delivery frame).len.toNat = (delivery frame).data.length := by
  obtain ⟨len, body, rfl, -⟩ := id h
  obtain ⟨hbody, low, high⟩ := h.length
  have hsize : (len :: body).length - 2 < UInt8.size := by
    have hbound : (len :: body).length - 2 < 128 := by
      rw [List.length_cons]
      omega
    exact hbound.trans (by decide)
  have hlen : (UInt8.ofNat ((len :: body).length - 2)).toNat = (len :: body).length - 2 :=
    UInt8.toNat_ofNat_of_lt' hsize
  change _ = ((len :: body).take _).length
  rw [List.length_take, Nat.min_eq_left (Nat.sub_le _ _)]
  exact hlen

theorem Linked.endToEnd {s : Channel} (h : Linked s) : EndToEnd s := by
  have hdelivers := h.receive.delivers
  have hsorted : s.heard.Pairwise (· ≤ ·) :=
    h.node.sorted.sublist (h.heard.trans (List.take_sublist _ _))
  have horder : receivedData s.receive <+: itemsAt s.node.sent [] s.heard := by
    rw [← h.data]
    exact hdelivers.order.map _
  refine ⟨horder, ?_, ?_, ?_⟩
  · intro d hd
    obtain ⟨frame, hframe, rfl⟩ := List.mem_map.mp (hdelivers.order.subset hd)
    obtain ⟨done, current, queued, next, hsync⟩ := h.receive
    exact delivery_length (hsync.legal frame (List.mem_of_mem_filter hframe))
  · have htake : receivedData s.receive =
        itemsAt s.node.sent [] (s.heard.take (receivedData s.receive).length) := by
      rw [itemsAt, List.map_take]
      exact List.prefix_iff_eq_take.mp horder
    rw [htake]
    exact destutter_itemsAt_sublist [] (hsorted.sublist (List.take_sublist _ _))
      fun i hi => h.heard_lt i (List.mem_of_mem_take hi)
  · intro hdrained hlong hall
    have heq : receivedData s.receive = itemsAt s.node.sent [] s.heard := by
      rw [receivedData, hdelivers.complete hdrained.childPc hdrained.pipe hdrained.bodyPending
        hdrained.taskPosted, h.data]
    rw [heq]
    refine destutter_itemsAt_eq [] hsorted h.heard_lt hall ?_
    -- neighbours have different sequence numbers
    refine h.node.numbered.imp_of_mem_imp fun older newer holder hnewer hnumbered hsame => ?_
    subst hsame
    have hnext := hnumbered (hlong older holder) (hlong older hnewer)
    simp at hnext

/-- In every run, whatever the air does to the transmissions. -/
theorem endToEnd_of_fair (s : Channel) (h : channelMachine.Reachable Fair s) : EndToEnd s := by
  have hlinked : Linked s := h.invariant (fun _ => linked_initial) fun _ _ _ => linked_step
  exact hlinked.endToEnd

def channelBoot : Channel := ⟨⟨radioBoot, [], []⟩, 0, [], RadioReceive.startedState⟩

theorem channelBoot_initial : channelMachine.initial channelBoot :=
  ⟨⟨⟨⟨boot_bootState _, RadioSend.started_startedState, rfl⟩, rfl, rfl⟩, rfl, rfl⟩, rfl, rfl,
    RadioReceive.started_startedState⟩

/-- What follows a send of ten bytes: its acknowledgement is missed, and the retry is heard too. -/
def heardTwice : List ChannelEvent := List.flatten [
  missedOnce.tail.map .sender,
  [.air 0 0xC5 0xEB, .receiver .childWrite, .receiver .receiveReady, .receiver .receiveBody,
    .receiver (.task 1000 32)],
  [.sender (.below (.task default)), .sender (.below (.child 0)), .sender (.below (.child 0)),
    .sender (.below (.child 0))],
  [.air 1 0xC5 0xEB, .receiver .childWrite, .receiver .receiveReady, .receiver .receiveBody,
    .receiver (.task 2000 48)]]

theorem fair_heardTwice : ∀ e ∈ heardTwice, ∀ s, Fair s e := by
  simp [heardTwice, missedOnce, Fair, Proper]

/-- The user is given the frame twice, and once if it drops what it had just before. -/
theorem endToEnd_of_fair_heardTwice :
    ∃ s, channelMachine.Reachable Fair s ∧ s.node.sent.length = 1 ∧ s.heard = [0, 0] ∧
      receivedData s.receive = s.node.sent ++ s.node.sent ∧
      (receivedData s.receive).destutter (· ≠ ·) = s.node.sent ∧ EndToEnd s := by
  have h0 : channelMachine.Reachable Fair channelBoot := .start channelBoot_initial
  have hproper : Fair channelBoot (.sender (.send 16 10)) :=
    show Proper channelBoot.node (.send 16 10) from ⟨rfl, by decide, by decide⟩
  have hrun : (channelMachine.run channelBoot (.sender (.send 16 10) :: heardTwice)).map
      (fun s => (s.node.sent, s.heard, receivedData s.receive)) =
        some ([[11, 0x20, 0, 0, 0, 0, 0, 0, 0, 0]], [0, 0],
          [[11, 0x20, 0, 0, 0, 0, 0, 0, 0, 0], [11, 0x20, 0, 0, 0, 0, 0, 0, 0, 0]]) := by
    decide +kernel
  obtain ⟨s, hs, hlog⟩ := Option.map_eq_some_iff.mp hrun
  obtain ⟨u, hu, hs⟩ := Option.bind_eq_some_iff.mp hs
  obtain ⟨hsent, hlog⟩ := Prod.mk.inj hlog
  obtain ⟨hheard, hdata⟩ := Prod.mk.inj hlog
  have hreach := (h0.next hproper hu).run_of_forall heardTwice fair_heardTwice hs
  refine ⟨s, hreach, ?_, hheard, ?_, ?_, endToEnd_of_fair s hreach⟩
  · rw [hsent]
    rfl
  · rw [hdata, hsent]
    rfl
  · rw [hdata, hsent]
    decide +kernel

end RpiCc2520.RadioChannel
