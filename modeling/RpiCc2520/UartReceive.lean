import RpiCc2520.BytePipe
import RpiCc2520.EventMachine
import RpiCc2520.RfidReader

/-! Bytes from the UART on their way to the RFID reader: a read when the descriptor is ready, a
task that passes the buffer and its length on. -/
namespace RpiCc2520.UartReceive
open BytePipe RfidReader

def uartBufLen : ℕ := 1024

inductive ReadResult
  | bytes (bs : List UInt8)
  | eagain
  | error

/-- A `UartBuffer.receive`: the read it follows, the length and the bytes it reports, and the code
the reader was notified of. -/
structure Received where
  read : List UInt8
  len : UInt8
  bytes : List UInt8
  notified : Option Code
  deriving DecidableEq

/-- The variables of the UART, the task in the queue or not, what the last read delivered, the
reader, and what it was told so far, newest first. -/
structure Uart where
  uartBuf : ℕ → UInt8
  lastUartLen : UInt32
  posted : Bool
  lastRead : List UInt8
  reader : Reader
  log : List Received

/-- `IO.receiveReady`. A newline alone is dropped, an error ends the process. -/
def receiveReady (r : ReadResult) (s : Uart) : Option Uart :=
  match r with
  | .eagain => some s
  | .error => none
  | .bytes bs =>
      let s := { s with uartBuf := store s.uartBuf 0 bs, lastRead := bs }
      if bs.length = 1 ∧ s.uartBuf 0 = 0x0a then some s
      else some { s with lastUartLen := .ofNat bs.length, posted := true }

/-- The task. The event takes the length as a `uint8_t`. -/
def uartRecvTask (s : Uart) : Uart :=
  let len := s.lastUartLen.toUInt8
  let (notified, reader) := RfidReader.receive s.uartBuf len s.reader
  { s with
    posted := false
    reader := reader
    log := ⟨s.lastRead, len, load s.uartBuf 0 len.toNat, notified⟩ :: s.log }

inductive Event
  | receiveReady (r : ReadResult)
  | task
  | enable
  | disable

/-- Descriptors are looked at when the task has run: `SchedulerSleep.not_mem_queue_of_sleepy`. -/
def step (s : Uart) : Event → Option Uart
  | .receiveReady r =>
      if s.posted then none
      else match r with
        | .bytes bs => if bs.length ≤ uartBufLen then receiveReady (.bytes bs) s else none
        | .eagain | .error => receiveReady r s
  | .task => if s.posted then some (uartRecvTask s) else none
  | .enable => some { s with reader := RfidReader.enable s.reader }
  | .disable => some { s with reader := RfidReader.disable s.reader }

/-- Nothing has been read, and the reader is not enabled. -/
def Booted (s : Uart) : Prop :=
  s.posted = false ∧ s.reader.active = false ∧ s.log = []

def machine : Machine Uart Event := ⟨Booted, step⟩

def settled (s : Uart) : Uart := if s.posted then uartRecvTask s else s

/-- The client gets what was read, with its length, and the reader takes nothing else for a frame
than 16 bytes read at once. -/
structure TrueLength (r : Received) : Prop where
  len : r.len.toNat = r.read.length
  bytes : r.bytes = r.read
  frame : r.notified ≠ none → r.read.length = 16

def ReportsTrueLength (s : Uart) : Prop := ∀ r ∈ (settled s).log, TrueLength r

def Short (_ : Uart) : Event → Prop
  | .receiveReady (.bytes bs) => bs.length ≤ 255
  | _ => True

/-- The length of the read whose task is queued, and whether it is in the buffer. -/
structure Sound (s : Uart) : Prop where
  log : ∀ r ∈ s.log, TrueLength r
  pending : s.posted = true → s.lastUartLen.toUInt8.toNat = s.lastRead.length ∧
    load s.uartBuf 0 s.lastRead.length = s.lastRead

/-- A length has been cut, or is going to be. -/
def Cut (s : Uart) : Prop :=
  (∃ r ∈ s.log, r.len.toNat ≠ r.read.length) ∨
    s.posted = true ∧ s.lastUartLen.toUInt8.toNat ≠ s.lastRead.length

/-- What a read does unless it ends the process. -/
inductive ReadEffect (bs : List UInt8) (s : Uart) : Uart → Prop
  | dropped (newline : bs.length = 1) : ReadEffect bs s
      { s with uartBuf := store s.uartBuf 0 bs, lastRead := bs }
  | posted : ReadEffect bs s
      { s with
        uartBuf := store s.uartBuf 0 bs
        lastRead := bs
        lastUartLen := .ofNat bs.length
        posted := true }

theorem readEffect {bs : List UInt8} {s t : Uart} (h : receiveReady (.bytes bs) s = some t) :
    ReadEffect bs s t := by
  unfold receiveReady at h
  dsimp only at h
  split_ifs at h with hnewline
  · cases h
    exact .dropped hnewline.1
  · cases h
    exact .posted

theorem step_receiveReady {r : ReadResult} {s t : Uart}
    (h : step s (.receiveReady r) = some t) : s.posted = false ∧
      (r = .eagain ∧ t = s ∨ ∃ bs, r = .bytes bs ∧ bs.length ≤ uartBufLen ∧ ReadEffect bs s t) := by
  simp only [step, Option.ite_none_left_eq_some, Bool.not_eq_true] at h
  obtain ⟨hposted, h⟩ := h
  refine ⟨hposted, ?_⟩
  cases r with
  | eagain => exact .inl ⟨rfl, (Option.some.inj h).symm⟩
  | error => cases h
  | bytes bs =>
    simp only [Option.ite_none_right_eq_some] at h
    exact .inr ⟨bs, rfl, h.1, readEffect h.2⟩

theorem toUInt8_ofNat_length {n : ℕ} (h : n ≤ uartBufLen) :
    (UInt32.ofNat n).toUInt8.toNat = n % 256 := by
  have hlt : n < 2 ^ 32 := lt_of_le_of_lt h (by decide)
  rw [UInt32.toNat_toUInt8, UInt32.toNat_ofNat_of_lt' hlt]

/-- The reader is notified of nothing but frames of 16 bytes. -/
theorem len_of_notified {buf : ℕ → UInt8} {len : UInt8} {s : Reader}
    (h : (RfidReader.receive buf len s).1 ≠ none) : len = 16 := by
  by_contra hne
  apply h
  unfold RfidReader.receive
  rw [if_pos hne]
  split <;> rfl

theorem settled_of_posted {s : Uart} (h : s.posted = true) : settled s = uartRecvTask s := if_pos h

theorem settled_of_not_posted {s : Uart} (h : s.posted = false) : settled s = s :=
  if_neg (by simp [h])

theorem log_uartRecvTask {s : Uart} (h : Sound s) (hposted : s.posted = true) :
    ∀ r ∈ (uartRecvTask s).log, TrueLength r := by
  obtain ⟨hlen, hload⟩ := h.pending hposted
  intro r hr
  rcases List.mem_cons.mp hr with rfl | hr
  · refine ⟨hlen, ?_, ?_⟩
    · dsimp only
      rw [hlen]
      exact hload
    · intro hnotified
      have hsixteen := len_of_notified hnotified
      dsimp only
      rw [← hlen, hsixteen]
      rfl
  · exact h.log r hr

theorem Sound.reportsTrueLength {s : Uart} (h : Sound s) : ReportsTrueLength s := by
  unfold ReportsTrueLength
  cases hposted : s.posted with
  | true =>
    rw [settled_of_posted hposted]
    exact log_uartRecvTask h hposted
  | false =>
    rw [settled_of_not_posted hposted]
    exact h.log

theorem sound_step {s t : Uart} {e : Event} (h : Sound s) (hshort : Short s e)
    (hst : step s e = some t) : Sound t := by
  cases e with
  | receiveReady r =>
    obtain ⟨hposted, ⟨-, rfl⟩ | ⟨bs, rfl, hle, heffect⟩⟩ := step_receiveReady hst
    · exact h
    cases heffect with
    | dropped =>
      refine ⟨h.log, fun hp => ?_⟩
      have hp : s.posted = true := hp
      rw [hposted] at hp
      cases hp
    | posted =>
      have hbytes : bs.length ≤ 255 := hshort
      refine ⟨h.log, fun _ => ⟨?_, load_store s.uartBuf 0 bs⟩⟩
      rw [toUInt8_ofNat_length hle]
      exact Nat.mod_eq_of_lt (by omega)
  | task =>
    simp only [step, Option.ite_none_right_eq_some, Option.some.injEq] at hst
    obtain ⟨hposted, rfl⟩ := hst
    exact ⟨log_uartRecvTask h hposted, nofun⟩
  | enable =>
    cases hst
    exact ⟨h.log, h.pending⟩
  | disable =>
    cases hst
    exact ⟨h.log, h.pending⟩

/-- What is reported with a wrong length stays in the log. -/
theorem cut_step {s t : Uart} {e : Event} (h : Cut s) (hst : step s e = some t) : Cut t := by
  cases e with
  | receiveReady r =>
    obtain ⟨hposted, ⟨-, rfl⟩ | ⟨bs, rfl, -, heffect⟩⟩ := step_receiveReady hst
    · exact h
    have hlog := h.resolve_right (by simp [hposted])
    cases heffect with
    | dropped => exact .inl hlog
    | posted => exact .inl hlog
  | task =>
    simp only [step, Option.ite_none_right_eq_some, Option.some.injEq] at hst
    obtain ⟨-, rfl⟩ := hst
    rcases h with ⟨r, hr, hne⟩ | ⟨-, hne⟩
    · exact .inl ⟨r, List.mem_cons_of_mem _ hr, hne⟩
    · exact .inl ⟨_, List.mem_cons_self, hne⟩
  | enable =>
    cases hst
    exact h
  | disable =>
    cases hst
    exact h

theorem not_reportsTrueLength_of_cut {s : Uart} (h : Cut s) : ¬ReportsTrueLength s := by
  intro hreports
  unfold ReportsTrueLength at hreports
  cases hposted : s.posted with
  | true =>
    rw [settled_of_posted hposted] at hreports
    rcases h with ⟨r, hr, hne⟩ | ⟨-, hne⟩
    · exact hne (hreports r (List.mem_cons_of_mem _ hr)).len
    · exact hne (hreports _ List.mem_cons_self).len
  | false =>
    rw [settled_of_not_posted hposted] at hreports
    obtain ⟨r, hr, hne⟩ := h.resolve_right (by simp [hposted])
    exact hne (hreports r hr).len

/-- A read of more than 255 bytes is cut. -/
theorem cut_of_not_short {s t : Uart} {e : Event} (hshort : ¬Short s e)
    (hst : step s e = some t) : Cut t := by
  cases e with
  | receiveReady r =>
    obtain ⟨-, ⟨rfl, -⟩ | ⟨bs, rfl, hle, heffect⟩⟩ := step_receiveReady hst
    · exact absurd trivial hshort
    have hlong : 255 < bs.length := Nat.lt_of_not_le hshort
    cases heffect with
    | dropped newline => omega
    | posted =>
      refine .inr ⟨rfl, ?_⟩
      rw [toUInt8_ofNat_length hle]
      dsimp only
      omega
  | task | enable | disable => exact absurd trivial hshort

/-- Every read so far reaches the client with its true length exactly when none was longer than 255
bytes. -/
theorem reportsTrueLength_iff_short (s : Uart) (h : machine.Reachable Machine.Any s) :
    ReportsTrueLength s ↔ machine.Reachable Short s := by
  constructor
  · intro hreports
    have hcases : machine.Reachable Short s ∨ Cut s :=
      h.ok_or_broken (fun _ _ _ _ => cut_of_not_short) fun _ _ _ => cut_step
    exact hcases.resolve_right fun hcut => not_reportsTrueLength_of_cut hcut hreports
  · intro hshort
    have hsound : Sound s := hshort.invariant (I := Sound)
      (fun s hb => ⟨by rw [hb.2.2]; exact List.forall_mem_nil _, by rw [hb.1]; nofun⟩)
      fun _ _ _ => sound_step
    exact hsound.reportsTrueLength

def bootedUart : Uart := ⟨fun _ => 0, 0, false, [], ⟨false, .replicate 5 0⟩, []⟩

theorem booted_bootedUart : Booted bootedUart := ⟨rfl, rfl, rfl⟩

/-- The code 0a1b2c3d4e between the first character of a frame and its end. -/
def sampleFrame : List UInt8 := [2, 48, 65, 49, 98, 50, 67, 51, 100, 52, 69, 52, 101, 13, 10, 3]

/-- One frame is read and the reader is notified. -/
theorem reportsTrueLength_iff_short_frame : ∃ s, machine.Reachable Machine.Any s ∧
    s.log = [⟨sampleFrame, 16, sampleFrame, some #v[0x0a, 0x1b, 0x2c, 0x3d, 0x4e]⟩] ∧
    (ReportsTrueLength s ↔ machine.Reachable Short s) := by
  have h0 : machine.Reachable Machine.Any bootedUart := .start booted_bootedUart
  have hs := h0.run [.enable, .receiveReady (.bytes sampleFrame), .task] rfl
  exact ⟨_, hs, by decide, reportsTrueLength_iff_short _ hs⟩

/-- A frame and 256 bytes after it. -/
def longRead : List UInt8 := sampleFrame ++ .replicate 256 0

theorem length_longRead : longRead.length = 272 := by
  simp only [longRead, sampleFrame, List.length_append, List.length_replicate, List.length_cons,
    List.length_nil]

theorem step_longRead {s : Uart} (h : s.posted = false) :
    machine.step s (.receiveReady (.bytes longRead)) = some
      { s with
        uartBuf := store s.uartBuf 0 longRead
        lastRead := longRead
        lastUartLen := 272
        posted := true } := by
  simp only [machine, step, receiveReady, h, length_longRead]
  rfl

/-- Of 272 bytes read at once the reader is told 16, and takes them for a frame. -/
theorem long_read_notified : ∃ s r, machine.Reachable Machine.Any s ∧ s.log = [r] ∧
    r.read.length = 272 ∧ r.len = 16 ∧ r.notified = some #v[0x0a, 0x1b, 0x2c, 0x3d, 0x4e] ∧
    ¬ReportsTrueLength s := by
  have h0 : machine.Reachable Machine.Any bootedUart := .start booted_bootedUart
  have h1 := h0.next (e := .enable) trivial rfl
  have h2 := h1.next (e := .receiveReady (.bytes longRead)) trivial (step_longRead rfl)
  have h3 := h2.next (e := .task) trivial rfl
  refine ⟨_, _, h3, rfl, length_longRead, rfl, by decide, fun h => ?_⟩
  have hlen : (16 : UInt8).toNat = longRead.length := (h _ List.mem_cons_self).len
  rw [length_longRead] at hlen
  cases hlen

end RpiCc2520.UartReceive
