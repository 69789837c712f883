import RpiCc2520.BytePipe
import RpiCc2520.RadioMessage

/-! The send module: the parent writes a header and a body to a pipe, a child process hands
the frame to the driver and returns one result record through a second pipe. -/
namespace RpiCc2520.RadioSend
open RadioMessage BytePipe

/-! Return codes of the driver's `write`. -/
def cc2520TxSuccess : Int32 := 0
def cc2520TxBusy : Int32 := 255
def cc2520TxLength : Int32 := 254
def cc2520TxAckTimeout : Int32 := 253
def cc2520TxFailed : Int32 := 252

/-- `write_fifo_header_t`. The three padding bytes are whatever the stack held. -/
structure WriteFifoHeader where
  ptrToMsg : Ptr
  len : UInt8
  pad : Vector UInt8 3

def WriteFifoHeader.bytes (h : WriteFifoHeader) : List UInt8 :=
  littleEndian 4 h.ptrToMsg.toNat ++ h.len :: h.pad.toList

structure ReadFifoHeader where
  ptrToMsg : Ptr
  ret : Int32
  len : UInt8
  pad : Vector UInt8 3

def ReadFifoHeader.bytes (h : ReadFifoHeader) : List UInt8 :=
  littleEndian 4 h.ptrToMsg.toNat ++ (littleEndian 4 h.ret.toUInt32.toNat ++ h.len :: h.pad.toList)

def sizeofWriteFifoHeader : ℕ := 8
def sizeofReadFifoHeader : ℕ := 12

/-! Fields of a header in memory. -/
def ptrAt (h : ℕ → UInt8) : Ptr := UInt32.ofNat (ofLittleEndian (load h 0 4))
def retAt (h : ℕ → UInt8) : Int32 := (UInt32.ofNat (ofLittleEndian (load h 4 4))).toInt32
def writeLenAt (h : ℕ → UInt8) : UInt8 := h 4
def readLenAt (h : ℕ → UInt8) : UInt8 := h 8

inductive ChildPc
  | header
  | body
  | device
  | result (ret : Int32)
  | exited
  deriving DecidableEq

/-- The child: where it is in its loop, its two buffers, the padding of the records it writes
and whether it has closed its pipe ends. -/
structure Child where
  pc : ChildPc
  whdr : ℕ → UInt8
  pktBuf : ℕ → UInt8
  pad : Vector UInt8 3
  closed : Bool

/-- Both processes and both pipes; `device` holds the buffers given to the driver's `write`,
oldest first. -/
structure SendP where
  writePipe : List UInt8
  child : Child
  device : List (List UInt8)
  readPipe : List UInt8
  sendHdr : ℕ → UInt8
  sendDonePosted : Bool

/-- After `SoftwareInit.init`. -/
def Started (s : SendP) : Prop :=
  s.writePipe = [] ∧ s.child.pc = .header ∧ s.child.closed = false ∧ s.device = [] ∧
    s.readPipe = [] ∧ s.sendDonePosted = false

def startedState : SendP :=
  ⟨[], ⟨.header, default, default, default, false⟩, [], [], default, false⟩

theorem started_startedState : Started startedState := ⟨rfl, rfl, rfl, rfl, rfl, rfl⟩

/-- `BareSend.send` up to its first `write`. -/
def bareSendHeader (m : Ptr) (len : UInt8) (pad : Vector UInt8 3) (s : SendP) : SendP :=
  { s with writePipe := s.writePipe ++ WriteFifoHeader.bytes ⟨m, len, pad⟩ }

/-- The second `write` of `BareSend.send`. A length byte below 2 makes the count negative,
and the kernel refuses it without writing. -/
def bareSendBody (msg : Message) (len : UInt8) (s : SendP) : SendP :=
  { s with writePipe := s.writePipe ++ load msg.bytes 1 (len.toNat - 2) }

/-- The child's `read` of the body: `len <= 0` closes both pipe ends and goes on. -/
def readBody (s : SendP) : Option SendP :=
  let len := writeLenAt s.child.whdr
  if len < 2 then some { s with child := { s.child with closed := true, pc := .device } }
  else (read (len.toNat - 2) s.writePipe).map fun (body, rest) =>
    { s with writePipe := rest, child := { s.child with
        pktBuf := store s.child.pktBuf 1 body
        closed := body.isEmpty
        pc := .device } }

/-- One system call of the child's loop; `ret` is what the driver's `write` returns. -/
def childStep (ret : Int32) (s : SendP) : Option SendP :=
  match s.child.pc with
  | .header =>
      if s.child.closed then some { s with child := { s.child with pc := .exited } }
      else (read sizeofWriteFifoHeader s.writePipe).map fun (hdr, rest) =>
        let whdr := store s.child.whdr 0 hdr
        { s with writePipe := rest, child := { s.child with
            whdr := whdr
            pktBuf := store s.child.pktBuf 0 [writeLenAt whdr]
            pc := .body } }
  | .body => readBody s
  | .device =>
      let frame := load s.child.pktBuf 0 ((writeLenAt s.child.whdr).toNat - 1)
      some { s with device := s.device ++ [frame], child := { s.child with pc := .result ret } }
  | .result r =>
      let rhdr : ReadFifoHeader :=
        ⟨ptrAt s.child.whdr, r, writeLenAt s.child.whdr, s.child.pad⟩
      some { s with
        readPipe := if s.child.closed then s.readPipe else s.readPipe ++ rhdr.bytes
        child := { s.child with pc := .header } }
  | .exited => none

/-- `IO.receiveReady`. The descriptor is non-blocking: an empty pipe is a spurious wakeup. -/
def receiveReady (s : SendP) : SendP :=
  match read sizeofReadFifoHeader s.readPipe with
  | none => s
  | some (hdr, rest) =>
      { s with
        readPipe := rest
        sendHdr := store s.sendHdr 0 hdr
        sendDonePosted := s.sendDonePosted || hdr.length == sizeofReadFifoHeader }

/-- The switch of `sendDone_task`: the ack flag it sets, if it sets one. -/
def verdict (ret : Int32) (len : UInt8) : Option Bool :=
  if ret = cc2520TxBusy ∨ ret = cc2520TxAckTimeout ∨ ret = cc2520TxFailed then some false
  else if ret = cc2520TxLength then none
  else if ret = cc2520TxSuccess then some true
  else if ret.toInt = (len.toNat : ℤ) - 1 then some true
  else none

def setVerdict (msg : Message) : Option Bool → Message
  | none => msg
  | some ack => msg.setWasAcked ack

/-- What `sendDone_task` does to the message before it signals `BareSend.sendDone`. -/
def sendDoneTask (mem : Ptr → Message) (s : SendP) : Ptr → Message :=
  let m := ptrAt s.sendHdr
  Function.update mem m
    (setVerdict (mem m) (verdict (retAt s.sendHdr) (readLenAt s.sendHdr)))

theorem WriteFifoHeader.bytes_length (h : WriteFifoHeader) :
    h.bytes.length = sizeofWriteFifoHeader := by
  simp [bytes, sizeofWriteFifoHeader]

theorem ReadFifoHeader.bytes_length (h : ReadFifoHeader) :
    h.bytes.length = sizeofReadFifoHeader := by
  simp [bytes, sizeofReadFifoHeader]

theorem ptrAt_of_load {buf : ℕ → UInt8} {m : Ptr} (h : load buf 0 4 = littleEndian 4 m.toNat) :
    ptrAt buf = m := by
  rw [ptrAt, h, word32_roundtrip]

theorem writeFifoHeader_read {h : WriteFifoHeader} {buf : ℕ → UInt8}
    (hb : load buf 0 sizeofWriteFifoHeader = h.bytes) :
    ptrAt buf = h.ptrToMsg ∧ writeLenAt buf = h.len := by
  rw [show sizeofWriteFifoHeader = 4 + (3 + 1) from rfl, load_add,
    load_succ buf (0 + 4)] at hb
  obtain ⟨hp, hl⟩ := List.append_inj hb (by simp)
  exact ⟨ptrAt_of_load hp, (List.cons.inj hl).1⟩

theorem readFifoHeader_read {h : ReadFifoHeader} {buf : ℕ → UInt8}
    (hb : load buf 0 sizeofReadFifoHeader = h.bytes) :
    ptrAt buf = h.ptrToMsg ∧ retAt buf = h.ret ∧ readLenAt buf = h.len := by
  rw [show sizeofReadFifoHeader = 4 + (4 + (3 + 1)) from rfl, load_add, load_add,
    load_succ buf (0 + 4 + 4)] at hb
  obtain ⟨hp, hb⟩ := List.append_inj hb (by simp)
  obtain ⟨hr, hl⟩ := List.append_inj hb (by simp)
  refine ⟨ptrAt_of_load hp, ?_, (List.cons.inj hl).1⟩
  rw [retAt, hr, word32_roundtrip, Int32.toInt32_toUInt32]

theorem load_store_header (buf : ℕ → UInt8) (h : WriteFifoHeader) :
    load (store buf 0 h.bytes) 0 sizeofWriteFifoHeader = h.bytes := by
  rw [← h.bytes_length, load_store]

theorem readFifoHeader_store (buf : ℕ → UInt8) (h : ReadFifoHeader) :
    ptrAt (store buf 0 h.bytes) = h.ptrToMsg ∧ retAt (store buf 0 h.bytes) = h.ret ∧
      readLenAt (store buf 0 h.bytes) = h.len :=
  readFifoHeader_read (by rw [← h.bytes_length, load_store])

/-- An empty result pipe is a spurious wakeup. -/
theorem receiveReady_empty {s : SendP} (h : s.readPipe = []) : receiveReady s = s := by
  have hr : read sizeofReadFifoHeader s.readPipe = none := by
    rw [h]
    exact read_nil (by decide)
  rw [receiveReady, hr]

theorem receiveReady_record {s : SendP} {record : ReadFifoHeader} {rest : List UInt8}
    (h : s.readPipe = record.bytes ++ rest) :
    receiveReady s = { s with
      readPipe := rest
      sendHdr := store s.sendHdr 0 record.bytes
      sendDonePosted := true } := by
  have hne : record.bytes ≠ [] :=
    List.ne_nil_of_length_pos (by rw [record.bytes_length]; decide)
  have hr : read sizeofReadFifoHeader s.readPipe = some (record.bytes, rest) := by
    rw [h]
    exact read_append record.bytes_length hne
  rw [receiveReady, hr]
  simp [record.bytes_length]

end RpiCc2520.RadioSend
