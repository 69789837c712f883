import RpiCc2520.EventMachine
import RpiCc2520.RadioSend

/-! The transmit path: sends of the radio layer, the child process and the two pipes. The
child stays in step with the parent for lengths from 2 to 126. -/
namespace RpiCc2520.RadioSend
open RadioMessage BytePipe

/-- A send: the buffer, the length it was called with, the stack padding of its header and
the message's first `len` bytes as sent. -/
structure Sent where
  ptr : Ptr
  len : UInt8
  pad : Vector UInt8 3
  frame : List UInt8

namespace Sent

/-- The message pointer and the length byte, as a result record carries them. -/
def key (r : Sent) : Ptr × UInt8 := (r.ptr, r.len + 1)
def header (r : Sent) : WriteFifoHeader := ⟨r.ptr, r.len + 1, r.pad⟩
def body (r : Sent) : List UInt8 := r.frame.tail
def bytes (r : Sent) : List UInt8 := r.header.bytes ++ r.body

/-- The length byte is a PHY length and leaves the body at least one byte. -/
structure Legal (r : Sent) : Prop where
  low : 2 ≤ r.len.toNat
  high : r.len.toNat ≤ 126
  length : r.frame.length = r.len.toNat
  head : r.frame.head? = some (r.len + 1)

theorem Legal.lenByte {r : Sent} (h : r.Legal) : (r.len + 1).toNat = r.len.toNat + 1 := by
  have := h.high
  rw [UInt8.toNat_add, show (1 : UInt8).toNat = 1 from rfl]
  omega

theorem Legal.body_length {r : Sent} (h : r.Legal) :
    r.body.length = (r.len + 1).toNat - 2 := by
  rw [h.lenByte, body, List.length_tail, h.length]
  omega

theorem Legal.body_ne_nil {r : Sent} (h : r.Legal) : r.body ≠ [] := by
  have := h.low
  apply List.ne_nil_of_length_pos
  rw [h.body_length, h.lenByte]
  omega

theorem Legal.frame_eq {r : Sent} (h : r.Legal) : r.frame = (r.len + 1) :: r.body :=
  List.eq_cons_of_mem_head? h.head

end Sent

/-- Parent and child, with every send so far and every result record the parent has read. -/
structure TxSystem where
  sequenceNumber : UInt8
  mem : Ptr → Message
  pendingBody : Option (Ptr × UInt8)
  sendP : SendP
  sent : List Sent
  results : List (Ptr × UInt8)

inductive TxEvent
  | send (m : Ptr) (len : UInt8) (pad : Vector UInt8 3)
  | sendBody
  | child (ret : Int32)
  | receiveReady
  | sendDoneTask
  | write (m : Ptr) (msg : Message)

def maxPayloadLength : UInt8 := 128

def takeRecord (s : TxSystem) : TxSystem :=
  let t := receiveReady s.sendP
  { s with
    sendP := t
    results := if s.sendP.readPipe.length < sizeofReadFifoHeader then s.results
      else s.results ++ [(ptrAt t.sendHdr, readLenAt t.sendHdr)] }

/-- The parent is one thread: between the two writes of `BareSend.send` nothing else of it
runs. The child may run at any point. -/
def txStep (s : TxSystem) : TxEvent → Option TxSystem
  | .send m len pad =>
      if s.pendingBody = none ∧ 1 ≤ len ∧ len ≤ maxPayloadLength then
        let msg := (s.mem m).setHeader len s.sequenceNumber
        some { s with
          sequenceNumber := s.sequenceNumber + 1
          mem := Function.update s.mem m msg
          pendingBody := some (m, msg.bytes 0)
          sendP := bareSendHeader m (msg.bytes 0) pad s.sendP
          sent := s.sent ++ [⟨m, len, pad, load msg.bytes 0 len.toNat⟩] }
      else none
  | .sendBody => s.pendingBody.map fun (m, len) =>
      { s with pendingBody := none, sendP := bareSendBody (s.mem m) len s.sendP }
  | .child ret => (childStep ret s.sendP).map fun t => { s with sendP := t }
  | .receiveReady =>
      if s.pendingBody = none then some (takeRecord s) else none
  | .sendDoneTask =>
      if s.pendingBody = none ∧ s.sendP.sendDonePosted = true then
        some { s with
          mem := sendDoneTask s.mem s.sendP
          sendP := { s.sendP with sendDonePosted := false } }
      else none
  | .write m msg =>
      if s.pendingBody = none then some { s with mem := Function.update s.mem m msg } else none

def txMachine : Machine TxSystem TxEvent :=
  ⟨fun s => Started s.sendP ∧ s.pendingBody = none ∧ s.sent = [] ∧ s.results = [], txStep⟩

/-- The transmit path does what its user expects of it. -/
structure Framed (s : TxSystem) : Prop where
  alive : s.sendP.child.closed = false ∧ s.sendP.child.pc ≠ .exited
  frames : s.sendP.device <+: s.sent.map Sent.frame
  legal : ∀ r ∈ s.sent, r.frame.length = r.len.toNat ∧ r.frame.head? = some (r.len + 1) ∧
    (r.len + 1).toNat ≤ 127
  records : s.results <+: s.sent.map Sent.key
  complete : ∃ es t, txMachine.run s es = some t ∧ t.sent = s.sent ∧
    t.sendP.device = s.sent.map Sent.frame ∧ t.results = s.sent.map Sent.key

def FrameLength (_ : TxSystem) (e : TxEvent) : Prop :=
  ∀ m len pad, e = .send m len pad → 2 ≤ len ∧ len ≤ 126

/-- The pipe holds records, the last one possibly still without its body. -/
inductive InPipe : List Sent → Option Sent → List UInt8 → Prop
  | whole (rs : List Sent) : InPipe rs none (rs.flatMap Sent.bytes)
  | half (rs : List Sent) (r : Sent) :
      InPipe (rs ++ [r]) (some r) (rs.flatMap Sent.bytes ++ r.header.bytes)

theorem InPipe.send {rs : List Sent} {bs : List UInt8} (h : InPipe rs none bs) (r : Sent) :
    InPipe (rs ++ [r]) (some r) (bs ++ r.header.bytes) := by
  cases h
  exact .half rs r

theorem InPipe.finish {rs : List Sent} {r : Sent} {bs : List UInt8}
    (h : InPipe rs (some r) bs) : InPipe rs none (bs ++ r.body) := by
  cases h with
  | half rs r =>
    have := InPipe.whole (rs ++ [r])
    simpa [Sent.bytes] using this

theorem InPipe.front {rs : List Sent} {pend : Option Sent} {bs : List UInt8}
    (h : InPipe rs pend bs) (hne : bs ≠ []) :
    (∃ r rs' bs', rs = r :: rs' ∧ bs = r.header.bytes ++ (r.body ++ bs') ∧
      InPipe rs' pend bs') ∨ ∃ r, rs = [r] ∧ pend = some r ∧ bs = r.header.bytes := by
  cases h with
  | whole rs =>
    cases rs with
    | nil => exact absurd rfl hne
    | cons r rs => exact .inl ⟨r, rs, _, rfl, by simp [Sent.bytes], .whole rs⟩
  | half rs r =>
    cases rs with
    | nil => exact .inr ⟨r, rfl, rfl, rfl⟩
    | cons q rs => exact .inl ⟨q, rs ++ [r], _, rfl, by simp [Sent.bytes], .half rs r⟩

theorem header_bytes_ne_nil (r : Sent) : r.header.bytes ≠ [] :=
  List.ne_nil_of_length_pos (by rw [WriteFifoHeader.bytes_length]; decide)

theorem InPipe.nil_of_empty {rs : List Sent} {pend : Option Sent}
    (h : InPipe rs pend []) : rs = [] ∧ pend = none := by
  generalize hb : ([] : List UInt8) = bs at h
  cases h with
  | whole rs =>
    cases rs with
    | nil => exact ⟨rfl, rfl⟩
    | cons r rs => simp [Sent.bytes, header_bytes_ne_nil r] at hb
  | half rs r => simp [header_bytes_ne_nil r] at hb

/-- Position of the child inside one send. -/
def ChildPc.index : ChildPc → ℕ
  | .header => 0
  | .body => 1
  | .device => 2
  | .result _ => 3
  | .exited => 0

/-- Where the child stands: the sends it has completed, those it still has to serve and the
one whose body the parent has not written yet. -/
inductive Serving (s : SendP) : List Sent → List Sent → Option Sent → Prop
  | header {done todo pend} (pc : s.child.pc = .header) (pipe : InPipe todo pend s.writePipe)
      (device : s.device = done.map Sent.frame) : Serving s done todo pend
  | body {done r todo pend bs} (pc : s.child.pc = .body)
      (whdr : load s.child.whdr 0 sizeofWriteFifoHeader = r.header.bytes)
      (first : s.child.pktBuf 0 = r.len + 1) (pipe : InPipe todo pend bs)
      (front : s.writePipe = r.body ++ bs)
      (device : s.device = done.map Sent.frame) : Serving s done (r :: todo) pend
  | starved {done r} (pc : s.child.pc = .body)
      (whdr : load s.child.whdr 0 sizeofWriteFifoHeader = r.header.bytes)
      (first : s.child.pktBuf 0 = r.len + 1) (empty : s.writePipe = [])
      (device : s.device = done.map Sent.frame) : Serving s done [r] (some r)
  | device {done r todo pend} (pc : s.child.pc = .device)
      (whdr : load s.child.whdr 0 sizeofWriteFifoHeader = r.header.bytes)
      (buf : load s.child.pktBuf 0 r.len.toNat = r.frame)
      (pipe : InPipe todo pend s.writePipe)
      (device : s.device = done.map Sent.frame) : Serving s done (r :: todo) pend
  | result {done r todo pend ret} (pc : s.child.pc = .result ret)
      (whdr : load s.child.whdr 0 sizeofWriteFifoHeader = r.header.bytes)
      (pipe : InPipe todo pend s.writePipe)
      (device : s.device = (done ++ [r]).map Sent.frame) : Serving s done (r :: todo) pend

/-- What one step of the child does while it is in step: it moves on within one send, or it
completes the send and appends its record. -/
inductive ChildMoved (s t : SendP) (done todo : List Sent) (pend : Option Sent) : Prop
  | within (serving : Serving t done todo pend) (pipe : t.readPipe = s.readPipe)
      (later : s.child.pc = .header ∧ t.child.pc = .body ∨
        s.child.pc = .body ∧ t.child.pc = .device ∨
        s.child.pc = .device ∧ ∃ ret, t.child.pc = .result ret)
  | completed (r : Sent) (rest : List Sent) (record : ReadFifoHeader) (first : todo = r :: rest)
      (serving : Serving t (done ++ [r]) rest pend)
      (key : (record.ptrToMsg, record.len) = r.key)
      (pipe : t.readPipe = s.readPipe ++ record.bytes)
      (later : (∃ ret, s.child.pc = .result ret) ∧ t.child.pc = .header)

theorem pktBuf_frame {r : Sent} (h : r.Legal) {buf : ℕ → UInt8} (first : buf 0 = r.len + 1) :
    load (store buf 1 r.body) 0 r.len.toNat = r.frame := by
  have hn : r.len.toNat = r.body.length + 1 := by
    rw [h.body_length, h.lenByte]
    have := h.low
    omega
  rw [hn, load_succ, load_store, store_lt _ _ Nat.zero_lt_one, first, ← h.frame_eq]

theorem legal_not_lt_two {r : Sent} (h : r.Legal) : ¬r.len + 1 < 2 := by
  have := h.low
  rw [UInt8.lt_iff_toNat_lt, h.lenByte, show (2 : UInt8).toNat = 2 from rfl]
  omega

theorem serving_child {s t : SendP} {done todo : List Sent} {pend : Option Sent} {ret : Int32}
    (h : Serving s done todo pend) (opened : s.child.closed = false)
    (legal : ∀ r ∈ todo, r.Legal) (hst : childStep ret s = some t) :
    ChildMoved s t done todo pend ∧ t.child.closed = false := by
  unfold childStep at hst
  cases h with
  | header pc pipe device =>
    simp only [pc, opened, Bool.false_eq_true, if_false, Option.map_eq_some_iff] at hst
    obtain ⟨⟨hdr, rest⟩, hr, rfl⟩ := hst
    have hne : s.writePipe ≠ [] := by
      intro he
      rw [he, read_nil (by decide)] at hr
      cases hr
    have hread {r : Sent} {bs : List UInt8} (hw : s.writePipe = r.header.bytes ++ bs) :
        hdr = r.header.bytes ∧ rest = bs := by
      rw [hw, read_append (WriteFifoHeader.bytes_length _) (header_bytes_ne_nil r)] at hr
      cases hr
      exact ⟨rfl, rfl⟩
    have hload (r : Sent) := load_store_header s.child.whdr r.header
    rcases pipe.front hne with ⟨r, rs, bs, rfl, hw, hp⟩ | ⟨r, rfl, rfl, hw⟩
    · obtain ⟨rfl, rfl⟩ := hread hw
      exact ⟨.within (.body rfl (hload r) (writeFifoHeader_read (hload r)).2 hp rfl device) rfl
        (.inl ⟨pc, rfl⟩), rfl⟩
    · obtain ⟨rfl, rfl⟩ := hread (hw.trans (List.append_nil _).symm)
      exact ⟨.within (.starved rfl (hload r) (writeFifoHeader_read (hload r)).2 rfl device) rfl
        (.inl ⟨pc, rfl⟩), rfl⟩
  | @body r todo pend bs pc whdr first pipe front device =>
    have hl := legal r List.mem_cons_self
    have hlen : writeLenAt s.child.whdr = r.len + 1 := (writeFifoHeader_read whdr).2
    simp only [pc, readBody, hlen, if_neg (legal_not_lt_two hl), front,
      read_append hl.body_length hl.body_ne_nil, Option.map_some, Option.some.injEq] at hst
    subst hst
    exact ⟨.within (.device rfl whdr (pktBuf_frame hl first) pipe device) rfl
      (.inr (.inl ⟨pc, rfl⟩)), by simpa using hl.body_ne_nil⟩
  | @starved r pc whdr first empty device =>
    have hl := legal r List.mem_cons_self
    have hlen : writeLenAt s.child.whdr = r.len + 1 := (writeFifoHeader_read whdr).2
    have hn : (r.len + 1).toNat - 2 ≠ 0 := by
      rw [← hl.body_length]
      simpa using hl.body_ne_nil
    simp only [pc, readBody, hlen, if_neg (legal_not_lt_two hl), empty, read_nil hn,
      Option.map_none, reduceCtorEq] at hst
  | @device r todo pend pc whdr buf pipe device =>
    have hl := legal r List.mem_cons_self
    have hlen : writeLenAt s.child.whdr = r.len + 1 := (writeFifoHeader_read whdr).2
    simp only [pc, hlen, hl.lenByte, Nat.add_sub_cancel, buf, Option.some.injEq] at hst
    subst hst
    exact ⟨.within (.result rfl whdr pipe (by simp [device])) rfl
      (.inr (.inr ⟨pc, ret, rfl⟩)), opened⟩
  | @result r todo pend ret' pc whdr pipe device =>
    obtain ⟨hptr, hlen⟩ := writeFifoHeader_read whdr
    simp only [pc, opened, Bool.false_eq_true, if_false, Option.some.injEq] at hst
    subst hst
    refine ⟨.completed r todo ⟨ptrAt s.child.whdr, ret', writeLenAt s.child.whdr, s.child.pad⟩
      rfl (.header rfl pipe device) ?_ rfl ⟨⟨ret', pc⟩, rfl⟩, rfl⟩
    rw [hptr, hlen]
    rfl

/-- Parent, pipes and child agree on which sends are completed, waiting and half written. -/
structure Synced (s : TxSystem) (done todo : List Sent) (pend : Option Sent)
    (unread : List ReadFifoHeader) : Prop where
  serving : Serving s.sendP done todo pend
  opened : s.sendP.child.closed = false
  sent : s.sent = done ++ todo
  legal : ∀ r ∈ s.sent, r.Legal
  pending : s.pendingBody = pend.map Sent.key
  body : ∀ r ∈ pend, load (s.mem r.ptr).bytes 1 ((r.len + 1).toNat - 2) = r.body
  readPipe : s.sendP.readPipe = unread.flatMap ReadFifoHeader.bytes
  records : s.results ++ unread.map (fun h => (h.ptrToMsg, h.len)) = done.map Sent.key

theorem Synced.todo_legal {s : TxSystem} {done todo : List Sent} {pend : Option Sent}
    {unread : List ReadFifoHeader} (h : Synced s done todo pend unread) :
    ∀ r ∈ todo, r.Legal := fun r hr =>
  h.legal r (by rw [h.sent]; exact List.mem_append_right _ hr)

def InSync (s : TxSystem) : Prop := ∃ done todo pend unread, Synced s done todo pend unread

theorem pend_none {s : TxSystem} {done todo : List Sent} {pend : Option Sent}
    {unread : List ReadFifoHeader} (h : Synced s done todo pend unread)
    (hp : s.pendingBody = none) : pend = none := by
  have := h.pending
  rw [hp] at this
  exact Option.map_eq_none_iff.mp this.symm

theorem inSync_initial {s : TxSystem} (h : txMachine.initial s) : InSync s := by
  obtain ⟨⟨hw, hc, ho, hd, hr, -⟩, hp, hs, hres⟩ := h
  refine ⟨[], [], none, [], ?_⟩
  exact { serving := .header hc (by rw [hw]; exact .whole []) (by rw [hd]; rfl)
          opened := ho
          sent := hs
          legal := by simp [hs]
          pending := hp
          body := nofun
          readPipe := hr
          records := by rw [hres]; rfl }

/-- Writing to the pipe while nothing is half written leaves the child where it was. -/
theorem Serving.send {s : SendP} {done todo : List Sent} (h : Serving s done todo none)
    (r : Sent) : Serving (bareSendHeader r.ptr (r.len + 1) r.pad s) done (todo ++ [r]) (some r) := by
  cases h with
  | header pc pipe device => exact .header pc (pipe.send r) device
  | body pc whdr first pipe front device =>
    refine .body pc whdr first (pipe.send r) ?_ device
    simp [bareSendHeader, front, Sent.header]
  | device pc whdr buf pipe device => exact .device pc whdr buf (pipe.send r) device
  | result pc whdr pipe device => exact .result pc whdr (pipe.send r) device

theorem Serving.finish {s : SendP} {done todo : List Sent} {r : Sent} {msg : Message}
    (h : Serving s done todo (some r))
    (hb : load msg.bytes 1 ((r.len + 1).toNat - 2) = r.body) :
    Serving (bareSendBody msg (r.len + 1) s) done todo none := by
  cases h with
  | header pc pipe device => exact .header pc (by rw [bareSendBody, hb]; exact pipe.finish) device
  | body pc whdr first pipe front device =>
    refine .body pc whdr first pipe.finish ?_ device
    rw [bareSendBody, hb, front, List.append_assoc]
  | starved pc whdr first empty device =>
    refine .body pc whdr first (.whole []) ?_ device
    rw [bareSendBody, hb, empty]
    exact (List.append_nil _).symm
  | device pc whdr buf pipe device =>
    exact .device pc whdr buf (by rw [bareSendBody, hb]; exact pipe.finish) device
  | result pc whdr pipe device =>
    exact .result pc whdr (by rw [bareSendBody, hb]; exact pipe.finish) device

theorem Serving.frame {s t : SendP} {done todo : List Sent} {pend : Option Sent}
    (h : Serving s done todo pend) (hw : t.writePipe = s.writePipe) (hc : t.child = s.child)
    (hd : t.device = s.device) : Serving t done todo pend := by
  cases s
  cases t
  cases hw
  cases hc
  cases hd
  cases h with
  | header pc pipe device => exact .header pc pipe device
  | body pc whdr first pipe front device => exact .body pc whdr first pipe front device
  | starved pc whdr first empty device => exact .starved pc whdr first empty device
  | device pc whdr buf pipe device => exact .device pc whdr buf pipe device
  | result pc whdr pipe device => exact .result pc whdr pipe device

theorem legal_of_frameLength {msg : Message} {m : Ptr} {len dsn : UInt8} {pad : Vector UInt8 3}
    (low : 2 ≤ len) (high : len ≤ 126) :
    Sent.Legal ⟨m, len, pad, load (msg.setHeader len dsn).bytes 0 len.toNat⟩ := by
  rw [UInt8.le_iff_toNat_le] at low high
  have low : 2 ≤ len.toNat := low
  obtain ⟨n, hn⟩ : ∃ n, len.toNat = n + 1 := ⟨len.toNat - 1, by omega⟩
  refine ⟨low, high, load_length _ _ _, ?_⟩
  change (load _ 0 len.toNat).head? = _
  rw [hn, load_succ, msg.setHeader_length]
  rfl

theorem inSync_send {s : TxSystem} (h : InSync s) (hp : s.pendingBody = none) (m : Ptr)
    {len : UInt8} (pad : Vector UInt8 3) (low : 2 ≤ len) (high : len ≤ 126)
    {r : Sent} {msg : Message} (hm : msg = (s.mem m).setHeader len s.sequenceNumber)
    (hr : r = ⟨m, len, pad, load msg.bytes 0 len.toNat⟩) :
    InSync { s with
      sequenceNumber := s.sequenceNumber + 1
      mem := Function.update s.mem m msg
      pendingBody := some (m, msg.bytes 0)
      sendP := bareSendHeader m (msg.bytes 0) pad s.sendP
      sent := s.sent ++ [r] } := by
  obtain ⟨done, todo, pend, unread, h⟩ := h
  obtain rfl := pend_none h hp
  have hlegal : r.Legal := by
    rw [hr, hm]
    exact legal_of_frameLength low high
  have h0 : msg.bytes 0 = len + 1 := by
    rw [hm]
    exact (s.mem m).setHeader_length len s.sequenceNumber
  have hserve := h.serving.send r
  refine ⟨done, todo ++ [r], some r, unread, ?_⟩
  subst hr
  exact { serving := by rw [h0]; exact hserve
          opened := h.opened
          sent := by simp [h.sent]
          legal := by
            intro q hq
            rcases List.mem_append.mp hq with hq | hq
            · exact h.legal q hq
            · rw [List.mem_singleton.mp hq]; exact hlegal
          pending := by rw [h0]; rfl
          body := by
            intro q hq
            cases hq
            have hb : (Function.update s.mem m msg) m = msg := Function.update_self _ _ _
            have hlen := hlegal.lenByte
            simp only at hlen
            have := hlegal.low
            simp only at this
            simp only [hb, hlen, Sent.body]
            obtain ⟨n, hn⟩ : ∃ n, len.toNat = n + 1 := ⟨len.toNat - 1, by omega⟩
            rw [hn, load_succ]
            rfl
          readPipe := h.readPipe
          records := h.records }

theorem synced_sendBody {s : TxSystem} {done todo : List Sent} {r : Sent}
    {unread : List ReadFifoHeader} (h : Synced s done todo (some r) unread) :
    Synced { s with
      pendingBody := none, sendP := bareSendBody (s.mem r.ptr) (r.len + 1) s.sendP }
      done todo none unread :=
  { h with serving := h.serving.finish (h.body r rfl), pending := rfl, body := nofun }

theorem inSync_sendBody {s : TxSystem} (h : InSync s) {m : Ptr} {len : UInt8}
    (hp : s.pendingBody = some (m, len)) :
    InSync { s with pendingBody := none, sendP := bareSendBody (s.mem m) len s.sendP } := by
  obtain ⟨done, todo, pend, unread, h⟩ := h
  obtain ⟨r, rfl, hr⟩ := Option.map_eq_some_iff.mp (h.pending.symm.trans hp)
  obtain ⟨rfl, rfl⟩ := Prod.mk.inj hr
  exact ⟨done, todo, none, unread, synced_sendBody h⟩

theorem synced_moved {s : TxSystem} {t : SendP} {done todo : List Sent} {pend : Option Sent}
    {unread : List ReadFifoHeader} (h : Synced s done todo pend unread)
    (moved : ChildMoved s.sendP t done todo pend) (opened : t.child.closed = false) :
    Synced { s with sendP := t } done todo pend unread ∧
        t.child.pc.index = s.sendP.child.pc.index + 1 ∨
      ∃ r rest record, todo = r :: rest ∧
        Synced { s with sendP := t } (done ++ [r]) rest pend (unread ++ [record]) ∧
        s.sendP.child.pc.index = 3 ∧ t.child.pc.index = 0 := by
  cases moved with
  | within serving pipe later =>
    refine .inl ⟨{ h with
      serving := serving, opened := opened, readPipe := pipe.trans h.readPipe }, ?_⟩
    rcases later with ⟨hs, ht⟩ | ⟨hs, ht⟩ | ⟨hs, ret, ht⟩ <;> rw [hs, ht] <;> rfl
  | completed r rest record first serving key pipe later =>
    obtain ⟨⟨ret, hs⟩, ht⟩ := later
    refine .inr ⟨r, rest, record, first, { h with
      serving := serving, opened := opened, sent := ?_, readPipe := ?_, records := ?_ }, ?_, ?_⟩
    · rw [h.sent, first, List.append_assoc, List.singleton_append]
    · simp [pipe, h.readPipe]
    · rw [List.map_append, ← List.append_assoc, h.records, List.map_append, List.map_singleton,
        List.map_singleton, key]
    · rw [hs]; rfl
    · rw [ht]; rfl

theorem inSync_child {s : TxSystem} (h : InSync s) {ret : Int32} {t : SendP}
    (hst : childStep ret s.sendP = some t) : InSync { s with sendP := t } := by
  obtain ⟨done, todo, pend, unread, h⟩ := h
  obtain ⟨moved, opened⟩ := serving_child h.serving h.opened h.todo_legal hst
  rcases synced_moved h moved opened with ⟨h, -⟩ | ⟨r, rest, record, -, h, -⟩
  · exact ⟨done, todo, pend, unread, h⟩
  · exact ⟨done ++ [r], rest, pend, unread ++ [record], h⟩

theorem synced_spurious {s : TxSystem} {done todo : List Sent} {pend : Option Sent}
    (h : Synced s done todo pend []) : Synced (takeRecord s) done todo pend [] := by
  have hlen : s.sendP.readPipe.length < sizeofReadFifoHeader := by rw [h.readPipe]; decide
  rw [takeRecord, receiveReady_empty h.readPipe, if_pos hlen]
  exact h

theorem synced_takeRecord {s : TxSystem} {done todo : List Sent} {pend : Option Sent}
    {record : ReadFifoHeader} {rest : List ReadFifoHeader}
    (h : Synced s done todo pend (record :: rest)) :
    Synced (takeRecord s) done todo pend rest := by
  have hlen : ¬s.sendP.readPipe.length < sizeofReadFifoHeader := by
    rw [h.readPipe, List.flatMap_cons, List.length_append, record.bytes_length]
    omega
  obtain ⟨hptr, -, hreadLen⟩ := readFifoHeader_store s.sendP.sendHdr record
  rw [takeRecord, receiveReady_record h.readPipe, if_neg hlen]
  have hrecords := h.records
  refine { h with
    serving := h.serving.frame rfl rfl rfl, opened := h.opened, readPipe := rfl, records := ?_ }
  simp only [hptr, hreadLen]
  simpa using hrecords

theorem inSync_takeRecord {s : TxSystem} (h : InSync s) : InSync (takeRecord s) := by
  obtain ⟨done, todo, pend, unread, h⟩ := h
  cases unread with
  | nil => exact ⟨done, todo, pend, [], synced_spurious h⟩
  | cons record rest => exact ⟨done, todo, pend, rest, synced_takeRecord h⟩

theorem inSync_step {s t : TxSystem} {e : TxEvent} (h : InSync s) (ok : FrameLength s e)
    (hst : txStep s e = some t) : InSync t := by
  cases e with
  | send m len pad =>
    simp only [txStep, Option.ite_none_right_eq_some] at hst
    obtain ⟨⟨hp, -, -⟩, hst⟩ := hst
    cases hst
    obtain ⟨low, high⟩ := ok m len pad rfl
    exact inSync_send h hp m pad low high rfl rfl
  | sendBody =>
    obtain ⟨⟨m, len⟩, hp, hst⟩ := Option.map_eq_some_iff.mp hst
    cases hst
    exact inSync_sendBody h hp
  | child ret =>
    obtain ⟨u, hu, hst⟩ := Option.map_eq_some_iff.mp hst
    cases hst
    exact inSync_child h hu
  | receiveReady =>
    simp only [txStep, Option.ite_none_right_eq_some] at hst
    obtain ⟨-, hst⟩ := hst
    cases hst
    exact inSync_takeRecord h
  | sendDoneTask =>
    simp only [txStep, Option.ite_none_right_eq_some] at hst
    obtain ⟨⟨hp, -⟩, hst⟩ := hst
    cases hst
    obtain ⟨done, todo, pend, unread, h⟩ := h
    obtain rfl := pend_none h hp
    exact ⟨done, todo, none, unread,
      { h with serving := h.serving.frame rfl rfl rfl, opened := h.opened, body := nofun,
               readPipe := h.readPipe }⟩
  | write m msg =>
    simp only [txStep, Option.ite_none_right_eq_some] at hst
    obtain ⟨hp, hst⟩ := hst
    cases hst
    obtain ⟨done, todo, pend, unread, h⟩ := h
    obtain rfl := pend_none h hp
    exact ⟨done, todo, none, unread, { h with body := nofun }⟩

theorem child_enabled {s : SendP} {done todo : List Sent} (h : Serving s done todo none)
    (opened : s.child.closed = false) (legal : ∀ r ∈ todo, r.Legal) (hne : todo ≠ []) :
    (childStep 0 s).isSome = true := by
  cases h with
  | header pc pipe device =>
    have hw : s.writePipe ≠ [] := by
      intro he
      rw [he] at pipe
      exact hne pipe.nil_of_empty.1
    obtain ⟨xs, ys, hr⟩ := read_of_ne_nil sizeofWriteFifoHeader hw
    simp [childStep, pc, opened, hr]
  | body pc whdr first pipe front device =>
    have hl := legal _ List.mem_cons_self
    have hlen := (writeFifoHeader_read whdr).2
    simp only [childStep, pc, readBody, hlen, Sent.header, if_neg (legal_not_lt_two hl), front,
      read_append hl.body_length hl.body_ne_nil, Option.map_some, Option.isSome_some]
  | device pc => simp [childStep, pc]
  | result pc => simp [childStep, pc]

/-- In step, with the sends fixed and so much work left. -/
def Remaining (sent : List Sent) (n : ℕ) (s : TxSystem) : Prop :=
  ∃ done todo pend unread, Synced s done todo pend unread ∧ s.sent = sent ∧
    n = pend.toList.length + (5 * todo.length - s.sendP.child.pc.index) + unread.length

/-- Everything sent has reached the driver and its record has come back. -/
def Finished (sent : List Sent) (s : TxSystem) : Prop :=
  s.sent = sent ∧ s.sendP.device = sent.map Sent.frame ∧ s.results = sent.map Sent.key

theorem remaining_child {sent : List Sent} {s : TxSystem} {done todo : List Sent}
    {unread : List ReadFifoHeader} (h : Synced s done todo none unread) (hsent : s.sent = sent)
    (hne : todo ≠ []) :
    ∃ t m, m < 5 * todo.length - s.sendP.child.pc.index + unread.length ∧
      txMachine.step s (.child 0) = some t ∧ Remaining sent m t := by
  obtain ⟨t, ht⟩ := Option.isSome_iff_exists.mp
    (child_enabled h.serving h.opened h.todo_legal hne)
  have hpos : 0 < todo.length := List.length_pos_of_ne_nil hne
  have hstep : txMachine.step s (.child 0) = some { s with sendP := t } := by
    simp only [txMachine, txStep, ht, Option.map_some]
  obtain ⟨moved, opened⟩ := serving_child h.serving h.opened h.todo_legal ht
  rcases synced_moved h moved opened with ⟨h', hi⟩ | ⟨r, rest, record, rfl, h', hs, hi⟩
  · refine ⟨_, _, ?_, hstep, done, todo, none, unread, h', hsent, rfl⟩
    have : s.sendP.child.pc.index ≤ 3 := by
      cases s.sendP.child.pc <;> simp [ChildPc.index]
    simp only [hi, Option.toList_none, List.length_nil]
    omega
  · refine ⟨_, _, ?_, hstep, done ++ [r], rest, none, unread ++ [record], h', hsent, rfl⟩
    simp only [hs, hi, Option.toList_none, List.length_nil, List.length_append, List.length_cons]
    omega

theorem remaining_progress (sent : List Sent) (n : ℕ) (s : TxSystem) (h : Remaining sent n s) :
    Finished sent s ∨
      ∃ e t m, m < n ∧ txMachine.step s e = some t ∧ Remaining sent m t := by
  obtain ⟨done, todo, pend, unread, h, hsent, rfl⟩ := h
  cases pend with
  | some r =>
    have hstep : txMachine.step s .sendBody = some { s with
        pendingBody := none, sendP := bareSendBody (s.mem r.ptr) (r.len + 1) s.sendP } := by
      simp only [txMachine, txStep, h.pending]
      rfl
    refine .inr ⟨_, _, _, ?_, hstep, done, todo, none, unread, synced_sendBody h, hsent, rfl⟩
    simp [bareSendBody]
  | none =>
    cases unread with
    | cons record rest =>
      have hstep : txMachine.step s .receiveReady = some (takeRecord s) := if_pos h.pending
      have hc : (takeRecord s).sendP.child = s.sendP.child := by
        unfold takeRecord receiveReady
        split <;> rfl
      refine .inr ⟨_, _, _, ?_, hstep, done, todo, none, rest, synced_takeRecord h, hsent, rfl⟩
      simp [hc]
    | nil =>
      by_cases hne : todo = []
      · subst hne
        refine .inl ⟨hsent, ?_, ?_⟩
        · rw [← hsent, h.sent]
          cases h.serving with
          | header pc pipe device => rw [device, List.append_nil]
        · rw [← hsent, h.sent, List.append_nil]
          simpa using h.records
      · obtain ⟨t, m, hlt, hstep, ht⟩ := remaining_child h hsent hne
        exact .inr ⟨_, t, m, by simpa using hlt, hstep, ht⟩

theorem InSync.framed {s : TxSystem} (h : InSync s) : Framed s := by
  obtain ⟨done, todo, pend, unread, h⟩ := h
  refine ⟨⟨h.opened, ?_⟩, ?_, ?_, ?_, ?_⟩
  · cases h.serving with
    | header pc | body pc | starved pc | device pc | result pc => rw [pc]; nofun
  · rw [h.sent]
    cases h.serving with
    | header _ _ device | body _ _ _ _ _ device | starved _ _ _ _ device | device _ _ _ _ device =>
      rw [device, List.map_append]
      exact List.prefix_append _ _
    | @result r todo _ _ _ _ _ device =>
      rw [device]
      exact List.IsPrefix.map Sent.frame ⟨todo, by simp⟩
  · intro r hr
    have hl := h.legal r hr
    have := hl.high
    exact ⟨hl.length, hl.head, by rw [hl.lenByte]; omega⟩
  · rw [h.sent, List.map_append, ← h.records, List.append_assoc]
    exact List.prefix_append _ _
  · obtain ⟨es, t, hr, hsent, hdevice, hresults⟩ :=
      Machine.exists_run_of_rank (remaining_progress s.sent)
        (show Remaining s.sent _ s from ⟨done, todo, pend, unread, h, rfl, rfl⟩)
    exact ⟨es, t, hr, hsent, hdevice, hresults⟩

/-- Sends of 2 to 126 bytes reach the driver frame by frame and are answered one by one. -/
theorem framed_of_frameLength (s : TxSystem) (h : txMachine.Reachable FrameLength s) :
    Framed s :=
  (h.invariant (fun _ => inSync_initial) fun _ _ _ => inSync_step).framed

def txBoot : TxSystem := ⟨0, default, none, startedState, [], []⟩

theorem txBoot_initial : txMachine.initial txBoot := ⟨started_startedState, rfl, rfl, rfl⟩

/-- The shortest and the longest length in range, one after the other. -/
theorem framed_of_frameLength_bounds :
    ∃ s, txMachine.Reachable FrameLength s ∧ s.sent.map Sent.len = [2, 126] ∧ Framed s := by
  have h0 : txMachine.Reachable FrameLength txBoot := .start txBoot_initial
  have h1 := h0.next (e := .send 16 2 default)
    (fun _ _ _ he => by cases he; decide) rfl
  have h2 := h1.next (e := .sendBody) nofun rfl
  have h3 := h2.next (e := .send 32 126 default)
    (fun _ _ _ he => by cases he; decide) rfl
  exact ⟨_, h3, rfl, framed_of_frameLength _ h3⟩

/-- A send of length 1 has an empty body. The child takes the empty read for a broken pipe,
closes its ends, loses the record and exits. -/
theorem length_one_stops_child : ¬∀ s, txMachine.Reachable Machine.Any s → Framed s := by
  intro h
  have h0 : txMachine.Reachable Machine.Any txBoot := .start txBoot_initial
  have hs := h _ (h0.run [.send 16 1 default, .sendBody, .child 0, .child 0, .child 0,
    .child 0, .child 0] rfl)
  exact hs.alive.2 rfl

/-- A send of length 127 or 128 has a length byte past the largest PHY length. -/
theorem length_over_126_not_legal (len : UInt8) (h : len = 127 ∨ len = 128) :
    ∃ s, txMachine.Reachable Machine.Any s ∧ s.sent.map Sent.len = [len] ∧ ¬Framed s := by
  have h0 : txMachine.Reachable Machine.Any txBoot := .start txBoot_initial
  rcases h with rfl | rfl
  · refine ⟨_, h0.run [.send 16 127 default] rfl, rfl, fun hs => ?_⟩
    exact absurd (hs.legal _ List.mem_cons_self).2.2 (by decide)
  · refine ⟨_, h0.run [.send 16 128 default] rfl, rfl, fun hs => ?_⟩
    exact absurd (hs.legal _ List.mem_cons_self).2.2 (by decide)

end RpiCc2520.RadioSend
