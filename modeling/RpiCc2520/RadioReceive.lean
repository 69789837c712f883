import RpiCc2520.BytePipe
import RpiCc2520.EventMachine
import RpiCc2520.RadioMessage

/-! The receive module: a child process copies frames from the driver into a pipe, the parent
reads them one by one into a buffer it trades with the layer above. -/
namespace RpiCc2520.RadioReceive
open RadioMessage BytePipe

def packetBufferLen : ℕ := 256

inductive ChildPc
  | driver
  | write (len : ℕ)

/-- What `Receive.receive` hands to the user: the reported length, that many bytes of the
message, and the metadata the user can ask for. -/
structure Delivery where
  len : UInt8
  data : List UInt8
  lqi : UInt8
  rssi : UInt8
  deriving DecidableEq

/-- The child with its buffer and whether it closed the pipe, the pipe, and the parent.
`held` are the buffers handed up and not given back, `frames` what the driver returned. -/
structure Receive where
  childPc : ChildPc
  pktBuf : ℕ → UInt8
  closed : Bool
  pipe : List UInt8
  rxMsgPtr : Ptr
  mem : Ptr → Message
  bodyPending : Bool
  taskPosted : Bool
  exited : Bool
  held : List Ptr
  frames : List (List UInt8)
  received : List Delivery

/-- Bytes copied to offset `off` of the buffer the parent reads into. -/
def readInto (off : ℕ) (bs : List UInt8) (s : Receive) : Receive :=
  let msg := s.mem s.rxMsgPtr
  { s with mem := Function.update s.mem s.rxMsgPtr { msg with bytes := store msg.bytes off bs } }

/-- `IO.receiveReady` up to its first `read`, of the length byte. With nothing to read it is
a spurious wakeup or, after the child closed the pipe, the end of the file. -/
def receiveReady (s : Receive) : Receive :=
  match read 1 s.pipe with
  | none => s
  | some (len, rest) => { readInto 0 len s with pipe := rest, bodyPending := true }

/-- The second `read` of `IO.receiveReady`. `EAGAIN` ends the process here, a short read drops
the packet. -/
def receiveBody (s : Receive) : Receive :=
  let len := ((s.mem s.rxMsgPtr).bytes 0).toNat
  match read len s.pipe with
  | none =>
      if s.closed then { s with bodyPending := false }
      else { s with bodyPending := false, exited := true }
  | some (body, rest) =>
      { readInto 1 body s with
        pipe := rest
        bodyPending := false
        taskPosted := s.taskPosted || body.length == len }

/-- `SubReceive.receive` of the radio layer, as its user sees it. -/
def subReceive (msg : Message) : Delivery :=
  let len := msg.bytes 0 - 1
  ⟨len, load msg.bytes 0 len.toNat, msg.getLqi, msg.getRssi⟩

/-- `receive_task`; `now` is the time in microseconds and `next` the buffer given back. -/
def receiveTask (now : UInt64) (next : Ptr) (s : Receive) : Receive :=
  let msg := s.mem s.rxMsgPtr
  let rssi := msg.bytes ((msg.bytes 0).toNat - 1)
  let crcLqi := msg.bytes (msg.bytes 0).toNat
  if crcLqi >>> 7 = 0 then s
  else
    let msg := ((msg.setLqi (crcLqi &&& 0x7F)).setRssi rssi).setTimestamp now
    { s with
      mem := Function.update s.mem s.rxMsgPtr msg
      received := s.received ++ [subReceive msg]
      held := (s.rxMsgPtr :: s.held).filter (· ≠ next)
      rxMsgPtr := next }

/-- `driver` is the child's `read`, which returns nothing on an error; `write` is the user
writing a message it may use. -/
inductive Event
  | driver (frame : List UInt8)
  | childWrite
  | receiveReady
  | receiveBody
  | task (now : UInt64) (next : Ptr)
  | write (m : Ptr) (msg : Message)

/-- The parent is one thread, and its tasks are drained before it waits for input again. -/
def step (s : Receive) : Event → Option Receive
  | .driver frame =>
      match s.childPc with
      | .driver =>
          if frame.length ≤ packetBufferLen then
            some { s with
              pktBuf := store s.pktBuf 0 frame
              closed := s.closed || frame.isEmpty
              childPc := .write frame.length
              frames := s.frames ++ [frame] }
          else none
      | .write _ => none
  | .childWrite =>
      match s.childPc with
      | .driver => none
      | .write len =>
          some { s with
            pipe := if s.closed then s.pipe else s.pipe ++ load s.pktBuf 0 len
            childPc := .driver }
  | .receiveReady =>
      if s.exited = false ∧ s.bodyPending = false ∧ s.taskPosted = false then
        some (receiveReady s)
      else none
  | .receiveBody =>
      if s.exited = false ∧ s.bodyPending = true then some (receiveBody s) else none
  | .task now next =>
      if s.exited = false ∧ s.bodyPending = false ∧ s.taskPosted = true then
        some (receiveTask now next { s with taskPosted := false })
      else none
  | .write m msg =>
      if m ≠ s.rxMsgPtr then some { s with mem := Function.update s.mem m msg } else none

/-- After `SoftwareInit.init`. The first buffer is the module's own. -/
def Started (s : Receive) : Prop :=
  s.childPc = .driver ∧ s.closed = false ∧ s.pipe = [] ∧ s.bodyPending = false ∧
    s.taskPosted = false ∧ s.exited = false ∧ s.held = [] ∧ s.frames = [] ∧ s.received = []

def machine : Machine Receive Event := ⟨Started, step⟩

/-- A length byte from 2 to 127 and as many bytes after it. -/
def IsFrame (frame : List UInt8) : Prop :=
  ∃ len body, frame = len :: body ∧ body.length = len.toNat ∧ 2 ≤ len ∧ len ≤ 127

def DriverFrames (_ : Receive) (e : Event) : Prop := ∀ frame, e = .driver frame → IsFrame frame

/-- The last byte holds the CRC bit above the seven bits of the LQI. -/
def lastByte (frame : List UInt8) : UInt8 := frame.getD (frame.length - 1) 0

def crcOk (frame : List UInt8) : Bool := 128 ≤ lastByte frame

def delivery (frame : List UInt8) : Delivery :=
  ⟨UInt8.ofNat (frame.length - 2), frame.take (frame.length - 2), lastByte frame % 128,
    frame.getD (frame.length - 2) 0⟩

def deliveries (frames : List (List UInt8)) : List Delivery :=
  (frames.filter crcOk).map delivery

/-- The user has seen a first part of the good frames, all of them once nothing is on its way
any more, which a schedule can reach. What the user holds only the user changes. -/
structure Delivers (s : Receive) : Prop where
  order : s.received <+: deliveries s.frames
  complete : s.childPc = .driver → s.pipe = [] → s.bodyPending = false → s.taskPosted = false →
    s.received = deliveries s.frames
  drains : ∃ es t, machine.run s es = some t ∧ t.frames = s.frames ∧
    t.received = deliveries s.frames
  owned : ∀ e t, machine.step s e = some t → (∀ m msg, e ≠ .write m msg) →
    ∀ m ∈ s.held, t.mem m = s.mem m
  alive : s.exited = false

theorem IsFrame.length {len : UInt8} {body : List UInt8} (h : IsFrame (len :: body)) :
    body.length = len.toNat ∧ 2 ≤ len.toNat ∧ len.toNat ≤ 127 := by
  obtain ⟨len', body', he, hb, hl, hh⟩ := h
  obtain ⟨rfl, rfl⟩ := List.cons.inj he
  exact ⟨hb, UInt8.le_iff_toNat_le.mp hl, UInt8.le_iff_toNat_le.mp hh⟩

theorem crcOk_iff (frame : List UInt8) : crcOk frame = true ↔ ¬lastByte frame >>> 7 = 0 := by
  rw [crcOk, decide_eq_true_iff, UInt8.le_iff_toNat_le, ← UInt8.toNat_inj,
    UInt8.toNat_shiftRight, show (128 : UInt8).toNat = 128 from rfl,
    show (7 : UInt8).toNat % 8 = 7 from rfl, show (0 : UInt8).toNat = 0 from rfl,
    Nat.shiftRight_eq_div_pow]
  omega

theorem lqi_eq (b : UInt8) : b &&& 0x7F = b % 128 := by
  rw [← UInt8.toNat_inj, UInt8.toNat_and, UInt8.toNat_mod]
  exact Nat.and_two_pow_sub_one_eq_mod b.toNat 7

theorem subReceive_of_frame {msg : Message} {frame : List UInt8} (h : IsFrame frame)
    (hb : load msg.bytes 0 frame.length = frame) (now : UInt64) :
    msg.bytes (msg.bytes 0).toNat = lastByte frame ∧
      subReceive (((msg.setLqi (lastByte frame &&& 0x7F)).setRssi
        (msg.bytes ((msg.bytes 0).toNat - 1))).setTimestamp now) = delivery frame := by
  obtain ⟨len, body, rfl⟩ : ∃ len body, frame = len :: body :=
    let ⟨len, body, he, _⟩ := h; ⟨len, body, he⟩
  obtain ⟨hbody, low, high⟩ := h.length
  have hlen : (len :: body).length = len.toNat + 1 := by rw [List.length_cons, hbody]
  rw [hlen] at hb
  have hget {i : ℕ} (hi : i < len.toNat + 1) : (len :: body).getD i 0 = msg.bytes i := by
    rw [← hb, load_getD _ _ _ hi, Nat.zero_add]
  have h0 : msg.bytes 0 = len := (hget (Nat.succ_pos _)).symm
  have hlast : lastByte (len :: body) = msg.bytes len.toNat := by
    rw [lastByte, hlen]
    exact hget (Nat.lt_succ_self _)
  have hone : (1 : UInt8) ≤ len := UInt8.le_iff_toNat_le.mpr (Nat.le_of_succ_le low)
  have hsub : (len - 1).toNat = len.toNat - 1 := UInt8.toNat_sub_of_le _ _ hone
  refine ⟨by rw [h0, hlast], ?_⟩
  have hdata : load msg.bytes 0 (len.toNat - 1) = (len :: body).take (len.toNat - 1) := by
    conv_rhs => rw [← hb]
    rw [load_take _ _ (by omega)]
  have hcount : len - 1 = UInt8.ofNat (len.toNat - 1) := by rw [← hsub, UInt8.ofNat_toNat]
  have hrssi : (len :: body).getD (len.toNat - 1) 0 = msg.bytes (len.toNat - 1) :=
    hget (by omega)
  simp only [subReceive, delivery, Message.setTimestamp, Message.setRssi, Message.setLqi,
    Message.getLqi, Message.getRssi, h0, hsub, hdata, hlen, lqi_eq, hrssi, ← hcount,
    show len.toNat + 1 - 2 = len.toNat - 1 by omega]

/-- The frame the parent is at, and what the pipe holds behind it. -/
inductive Reading (s : Receive) (rest : List UInt8) : List (List UInt8) → Prop
  | none (pending : s.bodyPending = false) (task : s.taskPosted = false)
      (pipe : s.pipe = rest) : Reading s rest []
  | half {len : UInt8} {body : List UInt8} (pending : s.bodyPending = true)
      (task : s.taskPosted = false) (first : (s.mem s.rxMsgPtr).bytes 0 = len)
      (pipe : s.pipe = body ++ rest) : Reading s rest [len :: body]
  | whole {frame : List UInt8} (pending : s.bodyPending = false) (task : s.taskPosted = true)
      (buffer : load (s.mem s.rxMsgPtr).bytes 0 frame.length = frame)
      (pipe : s.pipe = rest) : Reading s rest [frame]

inductive Writing (s : Receive) : List (List UInt8) → Prop
  | none (pc : s.childPc = .driver) : Writing s []
  | one {frame : List UInt8} (pc : s.childPc = .write frame.length)
      (buffer : load s.pktBuf 0 frame.length = frame) : Writing s [frame]

theorem Reading.congr {s t : Receive} {rest : List UInt8} {current : List (List UInt8)}
    (h : Reading s rest current) (pending : t.bodyPending = s.bodyPending)
    (task : t.taskPosted = s.taskPosted) (mem : t.mem t.rxMsgPtr = s.mem s.rxMsgPtr)
    (pipe : t.pipe = s.pipe) : Reading t rest current := by
  cases h with
  | none hp ht hr => exact .none (pending.trans hp) (task.trans ht) (pipe.trans hr)
  | half hp ht hb hr =>
    exact .half (pending.trans hp) (task.trans ht) (by rw [mem]; exact hb) (pipe.trans hr)
  | whole hp ht hb hr =>
    exact .whole (pending.trans hp) (task.trans ht) (by rw [mem]; exact hb) (pipe.trans hr)

theorem Reading.pending_of_nil {s : Receive} {rest : List UInt8} (h : Reading s rest []) :
    s.bodyPending = false ∧ s.taskPosted = false ∧ s.pipe = rest := by
  cases h with
  | none pending task pipe => exact ⟨pending, task, pipe⟩

theorem Writing.congr {s t : Receive} {next : List (List UInt8)} (h : Writing s next)
    (pc : t.childPc = s.childPc) (buffer : t.pktBuf = s.pktBuf) : Writing t next := by
  cases h with
  | none hpc => exact .none (pc.trans hpc)
  | one hpc hb => exact .one (pc.trans hpc) (by rw [buffer]; exact hb)

structure Synced (s : Receive) (done current queued next : List (List UInt8)) : Prop where
  frames : s.frames = done ++ (current ++ (queued ++ next))
  legal : ∀ f ∈ s.frames, IsFrame f
  received : s.received = deliveries done
  reading : Reading s queued.flatten current
  writing : Writing s next
  opened : s.closed = false
  alive : s.exited = false
  owned : s.rxMsgPtr ∉ s.held

theorem synced_started {s : Receive} (h : Started s) : Synced s [] [] [] [] := by
  obtain ⟨hpc, hc, hp, hb, ht, hx, hh, hf, hr⟩ := h
  exact ⟨hf, by simp [hf], hr, .none hb ht hp, .none hpc, hc, hx, by simp [hh]⟩

variable {s : Receive} {done current queued next : List (List UInt8)}

theorem synced_driver (h : Synced s done current queued next) (pc : s.childPc = .driver)
    {frame : List UInt8} (legal : IsFrame frame) :
    next = [] ∧ Synced { s with
      pktBuf := store s.pktBuf 0 frame
      closed := s.closed || frame.isEmpty
      childPc := .write frame.length
      frames := s.frames ++ [frame] } done current queued [frame] := by
  have hnext : next = [] := by
    cases h.writing with
    | none => rfl
    | one hpc => rw [pc] at hpc; cases hpc
  subst hnext
  have hne : frame.isEmpty = false := by
    obtain ⟨len, body, rfl, -⟩ := legal
    rfl
  have hbuf : load (store s.pktBuf 0 frame) 0 frame.length = frame := load_store _ _ _
  refine ⟨rfl, ?_, ?_, h.received, ?_, .one rfl hbuf, ?_, h.alive, h.owned⟩
  · simp [h.frames]
  · intro f hf
    rcases List.mem_append.mp hf with hf | hf
    · exact h.legal f hf
    · rw [List.mem_singleton.mp hf]
      exact legal
  · exact h.reading.congr rfl rfl rfl rfl
  · simp [h.opened, hne]

theorem synced_childWrite {len : ℕ} (h : Synced s done current queued next)
    (pc : s.childPc = .write len) :
    ∃ frame, next = [frame] ∧ Synced { s with
      pipe := if s.closed then s.pipe else s.pipe ++ load s.pktBuf 0 len
      childPc := .driver } done current (queued ++ [frame]) [] := by
  cases h.writing with
  | none hpc => rw [pc] at hpc; cases hpc
  | @one frame hpc buffer =>
    obtain rfl : len = frame.length := by rw [pc] at hpc; cases hpc; rfl
    refine ⟨frame, rfl, by simp [h.frames], h.legal, h.received, ?_, .none rfl, h.opened,
      h.alive, h.owned⟩
    simp only [h.opened, Bool.false_eq_true, if_false, buffer, List.flatten_append,
      List.flatten_singleton]
    cases h.reading with
    | none pending task pipe => exact .none pending task (congrArg (· ++ frame) pipe)
    | half pending task first pipe =>
      exact .half pending task first (by simp [pipe])
    | whole pending task buffer pipe =>
      exact .whole pending task buffer (congrArg (· ++ frame) pipe)

theorem synced_receiveReady {frame : List UInt8} (h : Synced s done [] (frame :: queued) next) :
    Synced (receiveReady s) done [frame] queued next := by
  obtain ⟨len, body, rfl⟩ : ∃ len body, frame = len :: body :=
    let ⟨len, body, he, _⟩ := h.legal frame (by simp [h.frames]); ⟨len, body, he⟩
  cases h.reading with
  | none pending task pipe =>
    have hr : read 1 s.pipe = some ([len], body ++ queued.flatten) := by
      have hone : [len] ≠ [] := List.cons_ne_nil len []
      rw [pipe]
      exact read_append rfl hone
    rw [receiveReady, hr]
    refine ⟨by simp [readInto, h.frames], h.legal, h.received, .half rfl task ?_ rfl, ?_, h.opened,
      h.alive, h.owned⟩
    · simp [readInto, store]
    · exact h.writing.congr rfl rfl

theorem receiveReady_spurious (h : Synced s done [] [] next) : receiveReady s = s := by
  cases h.reading with
  | none _ _ pipe =>
    have hr : read 1 s.pipe = none := by
      rw [pipe]
      exact read_nil one_ne_zero
    rw [receiveReady, hr]

theorem synced_receiveBody (h : Synced s done current queued next)
    (pending : s.bodyPending = true) : Synced (receiveBody s) done current queued next := by
  cases h.reading with
  | none hp => rw [pending] at hp; cases hp
  | whole hp => rw [pending] at hp; cases hp
  | @half len body _ task first pipe =>
    obtain ⟨hbody, low, -⟩ := (h.legal (len :: body) (by simp [h.frames])).length
    have hne : body ≠ [] := List.ne_nil_of_length_pos (by omega)
    have hr : read len.toNat s.pipe = some (body, queued.flatten) := by
      rw [pipe]
      exact read_append hbody hne
    have hbuf : load (store (s.mem s.rxMsgPtr).bytes 1 body) 0 (len :: body).length =
        len :: body := by
      rw [List.length_cons, load_store_succ, first]
    simp only [receiveBody, first, hr]
    refine ⟨h.frames, h.legal, h.received, .whole rfl ?_ ?_ rfl, ?_, h.opened, h.alive, h.owned⟩
    · simp [hbody]
    · simpa only [readInto, Function.update_self] using hbuf
    · exact h.writing.congr rfl rfl

theorem deliveries_append (done : List (List UInt8)) (frame : List UInt8) :
    deliveries (done ++ [frame]) =
      deliveries done ++ if crcOk frame then [delivery frame] else [] := by
  by_cases hc : crcOk frame = true <;> simp [deliveries, List.filter_append, hc]

theorem synced_task (now : UInt64) (m : Ptr) (h : Synced s done current queued next)
    (posted : s.taskPosted = true) :
    ∃ frame, current = [frame] ∧
      Synced (receiveTask now m { s with taskPosted := false }) (done ++ [frame]) [] queued next := by
  cases h.reading with
  | none _ ht => rw [posted] at ht; cases ht
  | half _ ht => rw [posted] at ht; cases ht
  | @whole frame pending _ buffer pipe =>
    obtain ⟨hlast, hmsg⟩ := subReceive_of_frame (h.legal frame (by simp [h.frames])) buffer now
    refine ⟨frame, rfl, ?_⟩
    unfold receiveTask
    simp only [hlast]
    by_cases hc : crcOk frame = true
    · rw [if_neg ((crcOk_iff frame).mp hc)]
      refine ⟨by simp [h.frames], h.legal, ?_, .none pending rfl pipe, h.writing.congr rfl rfl,
        h.opened, h.alive, by simp⟩
      rw [deliveries_append, if_pos hc]
      simp only [h.received, hmsg]
    · rw [if_pos (not_not.mp fun hz => hc ((crcOk_iff frame).mpr hz))]
      refine ⟨by simp [h.frames], h.legal, ?_, .none pending rfl pipe, h.writing.congr rfl rfl,
        h.opened, h.alive, h.owned⟩
      rw [deliveries_append, if_neg hc, List.append_nil]
      exact h.received

theorem synced_write {m : Ptr} {msg : Message} (h : Synced s done current queued next)
    (free : m ≠ s.rxMsgPtr) :
    Synced { s with mem := Function.update s.mem m msg } done current queued next := by
  have hmem : Function.update s.mem m msg s.rxMsgPtr = s.mem s.rxMsgPtr :=
    Function.update_of_ne free.symm _ _
  exact ⟨h.frames, h.legal, h.received, h.reading.congr rfl rfl hmem rfl,
    h.writing.congr rfl rfl, h.opened, h.alive, h.owned⟩

/-- Every frame read so far is done, or at one of the stations on its way. -/
def InStep (s : Receive) : Prop := ∃ done current queued next, Synced s done current queued next

theorem inStep_step {t : Receive} {e : Event} (h : InStep s) (ok : DriverFrames s e)
    (hst : step s e = some t) : InStep t := by
  obtain ⟨done, current, queued, next, h⟩ := h
  cases e with
  | driver frame =>
    unfold step at hst
    cases hpc : s.childPc with
    | write len => simp [hpc] at hst
    | driver =>
      simp only [hpc, Option.ite_none_right_eq_some] at hst
      obtain ⟨-, hst⟩ := hst
      cases hst
      exact ⟨_, _, _, _, (synced_driver h hpc (ok frame rfl)).2⟩
  | childWrite =>
    unfold step at hst
    cases hpc : s.childPc with
    | driver => simp [hpc] at hst
    | write len =>
      simp only [hpc] at hst
      cases hst
      obtain ⟨frame, -, h⟩ := synced_childWrite h hpc
      exact ⟨_, _, _, _, h⟩
  | receiveReady =>
    simp only [step, Option.ite_none_right_eq_some] at hst
    obtain ⟨⟨-, pending, task⟩, hst⟩ := hst
    cases hst
    obtain rfl : current = [] := by
      cases h.reading with
      | none => rfl
      | half hp => rw [pending] at hp; cases hp
      | whole _ ht => rw [task] at ht; cases ht
    cases queued with
    | nil => rw [receiveReady_spurious h]; exact ⟨_, _, _, _, h⟩
    | cons frame queued => exact ⟨_, _, _, _, synced_receiveReady h⟩
  | receiveBody =>
    simp only [step, Option.ite_none_right_eq_some] at hst
    obtain ⟨⟨-, pending⟩, hst⟩ := hst
    cases hst
    exact ⟨_, _, _, _, synced_receiveBody h pending⟩
  | task now m =>
    simp only [step, Option.ite_none_right_eq_some] at hst
    obtain ⟨⟨-, -, posted⟩, hst⟩ := hst
    cases hst
    obtain ⟨frame, -, h⟩ := synced_task _ _ h posted
    exact ⟨_, _, _, _, h⟩
  | write m msg =>
    simp only [step, Option.ite_none_right_eq_some] at hst
    obtain ⟨free, hst⟩ := hst
    cases hst
    exact ⟨_, _, _, _, synced_write h free⟩

/-- Apart from the user's own writes, a step changes at most the buffer it reads into. -/
theorem step_frame {t : Receive} {e : Event} (hst : step s e = some t)
    (hw : ∀ m msg, e ≠ .write m msg) {m : Ptr} (hne : m ≠ s.rxMsgPtr) : t.mem m = s.mem m := by
  cases e with
  | driver frame =>
    cases hpc : s.childPc with
    | write len => simp [step, hpc] at hst
    | driver =>
      simp only [step, hpc, Option.ite_none_right_eq_some, Option.some.injEq] at hst
      rw [← hst.2]
  | childWrite =>
    cases hpc : s.childPc with
    | driver => simp [step, hpc] at hst
    | write len =>
      simp only [step, hpc, Option.some.injEq] at hst
      rw [← hst]
  | receiveReady =>
    simp only [step, Option.ite_none_right_eq_some, Option.some.injEq] at hst
    rw [← hst.2, receiveReady]
    split
    · rfl
    · exact Function.update_of_ne hne _ _
  | receiveBody =>
    simp only [step, Option.ite_none_right_eq_some, Option.some.injEq] at hst
    rw [← hst.2, receiveBody]
    dsimp only
    split
    · split <;> rfl
    · exact Function.update_of_ne hne _ _
  | task now next =>
    simp only [step, Option.ite_none_right_eq_some, Option.some.injEq] at hst
    rw [← hst.2, receiveTask]
    dsimp only
    split
    · rfl
    · exact Function.update_of_ne hne _ _
  | write m' msg => exact absurd rfl (hw m' msg)

/-- The steps left until every frame read so far has been judged. -/
def Remaining (frames : List (List UInt8)) (n : ℕ) (s : Receive) : Prop :=
  ∃ done current queued next, Synced s done current queued next ∧ s.frames = frames ∧
    n = (if s.bodyPending then 2 else current.length) + 3 * queued.length + 4 * next.length

theorem remaining_progress (frames : List (List UInt8)) (n : ℕ) (s : Receive)
    (h : Remaining frames n s) :
    (s.frames = frames ∧ s.received = deliveries frames) ∨
      ∃ e t m, m < n ∧ machine.step s e = some t ∧ Remaining frames m t := by
  obtain ⟨done, current, queued, next, h, hf, rfl⟩ := h
  cases h.reading with
  | @half len body pending =>
    have hst : machine.step s .receiveBody = some (receiveBody s) := if_pos ⟨h.alive, pending⟩
    have hb := synced_receiveBody h pending
    have hp : (receiveBody s).bodyPending = false := by
      unfold receiveBody
      dsimp only
      split
      · split <;> rfl
      · rfl
    have hframes : (receiveBody s).frames = s.frames := hb.frames.trans h.frames.symm
    refine .inr ⟨_, _, _, ?_, hst, _, _, _, _, hb, hframes.trans hf, rfl⟩
    simp [hp, pending]
  | @whole frame pending task =>
    have hst : machine.step s (.task 0 s.rxMsgPtr) =
        some (receiveTask 0 s.rxMsgPtr { s with taskPosted := false }) :=
      if_pos ⟨h.alive, pending, task⟩
    obtain ⟨f, hcur, ht⟩ := synced_task 0 s.rxMsgPtr h task
    have hframes := (ht.frames.trans (by rw [← List.singleton_inj.mp hcur]; simp)).trans
      h.frames.symm
    refine .inr ⟨_, _, _, ?_, hst, _, _, _, _, ht, hframes.trans hf, rfl⟩
    rw [ht.reading.pending_of_nil.1]
    simp [pending]
  | none pending task pipe =>
    cases queued with
    | cons frame queued =>
      have hst : machine.step s .receiveReady = some (receiveReady s) :=
        if_pos ⟨h.alive, pending, task⟩
      have hr := synced_receiveReady h
      have hframes : (receiveReady s).frames = s.frames := hr.frames.trans (by simp [h.frames])
      refine .inr ⟨_, _, _, ?_, hst, _, _, _, _, hr, hframes.trans hf, rfl⟩
      simp only [pending, List.length_cons, List.length_nil]
      split <;> simp <;> omega
    | nil =>
      cases h.writing with
      | @one frame pc =>
        obtain ⟨f, hnext, hw⟩ := synced_childWrite h pc
        have hst : machine.step s .childWrite = some { s with
            pipe := if s.closed then s.pipe else s.pipe ++ load s.pktBuf 0 frame.length
            childPc := .driver } := by
          simp only [machine, step, pc]
        refine .inr ⟨_, _, _, ?_, hst, _, _, _, _, hw, hf, rfl⟩
        simp [pending]
      | none pc =>
        refine .inl ⟨hf, ?_⟩
        rw [h.received, ← hf, h.frames]
        simp

theorem deliveries_isPrefix {done frames : List (List UInt8)} (h : done <+: frames) :
    deliveries done <+: deliveries frames :=
  (h.filter crcOk).map delivery

theorem InStep.delivers (h : InStep s) : Delivers s := by
  obtain ⟨done, current, queued, next, h⟩ := h
  have horder : s.received <+: deliveries s.frames := by
    rw [h.received, h.frames]
    exact deliveries_isPrefix (List.prefix_append _ _)
  refine ⟨horder, ?_, ?_, ?_, h.alive⟩
  · intro pc hpipe pending task
    have hnext : next = [] := by
      cases h.writing with
      | none => rfl
      | one hpc => rw [pc] at hpc; cases hpc
    have hcurrent : current = [] ∧ queued.flatten = [] := by
      cases h.reading with
      | none _ _ hr => exact ⟨rfl, hr.symm.trans hpipe⟩
      | half hp => rw [pending] at hp; cases hp
      | whole _ ht => rw [task] at ht; cases ht
    have hqueued : queued = [] := by
      refine List.eq_nil_iff_forall_not_mem.mpr fun f hf => ?_
      obtain ⟨len, body, rfl, -⟩ := h.legal f (by simp [h.frames, hf])
      exact List.cons_ne_nil _ _ (List.flatten_eq_nil_iff.mp hcurrent.2 _ hf)
    rw [h.received, h.frames, hnext, hcurrent.1, hqueued]
    simp
  · obtain ⟨es, t, hr, hframes, hreceived⟩ := Machine.exists_run_of_rank
      (remaining_progress s.frames) ⟨done, current, queued, next, h, rfl, rfl⟩
    exact ⟨es, t, hr, hframes, hreceived⟩
  · intro e t hst hw m hm
    have hne : m ≠ s.rxMsgPtr := fun he => h.owned (he ▸ hm)
    exact step_frame hst hw hne

/-- In every run in which the driver returns frames, the user gets the good ones. -/
theorem delivers_of_driverFrames (s : Receive) (h : machine.Reachable DriverFrames s) :
    Delivers s := by
  have hsync : InStep s :=
    h.invariant (fun _ h0 => ⟨_, _, _, _, synced_started h0⟩) fun _ _ _ => inStep_step
  exact hsync.delivers

def startedState : Receive :=
  ⟨.driver, default, false, [], 16, default, false, false, false, [], [], []⟩

theorem started_startedState : Started startedState := ⟨rfl, rfl, rfl, rfl, rfl, rfl, rfl, rfl, rfl⟩

instance : DecidablePred IsFrame
  | [] => .isFalse nofun
  | len :: body => decidable_of_iff (body.length = len.toNat ∧ 2 ≤ len ∧ len ≤ 127)
      ⟨fun h => ⟨len, body, rfl, h⟩, fun ⟨_, _, he, h⟩ => by cases he; exact h⟩

instance (s : Receive) : DecidablePred (DriverFrames s)
  | .driver frame => decidable_of_iff (IsFrame frame)
      ⟨fun h _ he => by cases he; exact h, fun h => h frame rfl⟩
  | .childWrite | .receiveReady | .receiveBody | .task _ _ | .write _ _ => .isTrue nofun

/-- A good frame, handed up in exchange for another buffer, a spurious wakeup and a frame
whose CRC failed. -/
def session : List Event :=
  [.driver [3, 7, 0xC5, 0xEB], .childWrite, .receiveReady, .driver [2, 0xC5, 0x6B], .receiveBody,
    .task 1000 32, .receiveReady, .childWrite, .receiveReady, .receiveBody, .task 2000 48]

theorem delivers_of_driverFrames_mixed :
    ∃ s, machine.Reachable DriverFrames s ∧ s.frames = [[3, 7, 0xC5, 0xEB], [2, 0xC5, 0x6B]] ∧
      s.received = [⟨2, [3, 7], 0x6B, 0xC5⟩] ∧ s.held = [16] ∧ Delivers s := by
  have hseen : (machine.runMeeting DriverFrames startedState session).map
      (fun s => (s.frames, s.received, s.held)) =
        some ([[3, 7, 0xC5, 0xEB], [2, 0xC5, 0x6B]], [⟨2, [3, 7], 0x6B, 0xC5⟩], [16]) := rfl
  obtain ⟨s, hs, he⟩ := Option.map_eq_some_iff.mp hseen
  obtain ⟨hframes, he⟩ := Prod.mk.inj he
  obtain ⟨hreceived, hheld⟩ := Prod.mk.inj he
  have hreach := (Machine.Reachable.start started_startedState).runMeeting session hs
  exact ⟨s, hreach, hframes, hreceived, hheld, delivers_of_driverFrames s hreach⟩

end RpiCc2520.RadioReceive
