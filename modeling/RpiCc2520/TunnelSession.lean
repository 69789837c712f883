import RpiCc2520.EventMachine

/-! One session of the tunnel server: the loop of `handleClient` and the goroutines `clientTCP`
and `clientTUN`, with the channels between them. A send and a receive on an unbuffered channel
are one step of both sides. -/
namespace RpiCc2520.TunnelSession

abbrev Packet := List UInt8

/-- The loop of `handleClient` and what follows it, up to the return of the TUN name. -/
inductive HandlerPc
  | select
  | writeTun (newpkt : Packet)
  | writeTcp (tunpkt : Packet)
  | sendQuit
  | wakeUp
  | sendQuit2
  | unsetTunName
  | left
  deriving DecidableEq

inductive TcpPc
  | read
  | send (buf : Packet)
  | quit
  | ended
  deriving DecidableEq

inductive TunPc
  | read
  | check (pkt : Packet)
  | send (pkt : Packet)
  | close
  | recvQuit2
  | ended
  deriving DecidableEq

/-- The two calls that give the interface and its name back. -/
inductive Teardown
  | close
  | unsetTunName
  deriving DecidableEq

/-- `tunQuit` counts the messages in `tun_quit_ch`, `device` holds the packets waiting at the
TUN device, `toTun` the packets written to it and `toTcp` the bytes written to the
connection. -/
structure Session where
  handler : HandlerPc
  tcpReader : TcpPc
  tunReader : TunPc
  tunQuit : ℕ
  tunOpen : Bool
  device : List Packet
  toTun : List Packet
  toTcp : List UInt8
  teardown : List Teardown

def started : Session := ⟨.select, .read, .read, 0, true, [], [], [], []⟩

def tcpBufLen : ℕ := 4096
def tunQuitCap : ℕ := 10

/-- `tcpRead` returns a chunk, or nothing on an error or the end of the stream. `tcpChunk`,
`tcpQuit`, `tunPacket` and `tunQuit2` are the exchanges on the unbuffered channels, `datagram`
is the packet the wake-up arrives as. -/
inductive Event
  | tunArrives (pkt : Packet)
  | tcpRead (chunk : Packet)
  | tcpChunk
  | tcpQuit
  | tunRead
  | tunCheck
  | tunPacket
  | tunClose
  | tunQuit2
  | writeTun
  | writeTcp
  | sendQuit
  | wakeUp (datagram : Packet)
  | unsetTunName

def step (s : Session) : Event → Option Session
  | .tunArrives pkt => some { s with device := s.device ++ [pkt] }
  | .tcpRead chunk =>
      if s.tcpReader = .read ∧ chunk.length ≤ tcpBufLen then
        some { s with tcpReader := if chunk = [] then .quit else .send chunk }
      else none
  | .tcpChunk =>
      match s.handler, s.tcpReader with
      | .select, .send buf => some { s with handler := .writeTun buf, tcpReader := .read }
      | _, _ => none
  | .tcpQuit =>
      match s.handler, s.tcpReader with
      | .select, .quit => some { s with handler := .sendQuit, tcpReader := .ended }
      | _, _ => none
  | .tunRead =>
      match s.tunReader, s.device with
      | .read, pkt :: device => some { s with tunReader := .check pkt, device := device }
      | _, _ => none
  | .tunCheck =>
      match s.tunReader with
      | .check pkt =>
          match s.tunQuit with
          | 0 => some { s with tunReader := .send pkt }
          | n + 1 => some { s with tunReader := .close, tunQuit := n }
      | _ => none
  | .tunPacket =>
      match s.handler, s.tunReader with
      | .select, .send pkt => some { s with handler := .writeTcp pkt, tunReader := .read }
      | _, _ => none
  | .tunClose =>
      match s.tunReader with
      | .close => some { s with
          tunReader := .recvQuit2, tunOpen := false, teardown := s.teardown ++ [.close] }
      | _ => none
  | .tunQuit2 =>
      match s.handler, s.tunReader with
      | .sendQuit2, .recvQuit2 =>
          some { s with handler := .unsetTunName, tunReader := .ended }
      | _, _ => none
  | .writeTun =>
      match s.handler with
      | .writeTun newpkt => some { s with handler := .select, toTun := s.toTun ++ [newpkt] }
      | _ => none
  | .writeTcp =>
      match s.handler with
      | .writeTcp tunpkt => some { s with handler := .select, toTcp := s.toTcp ++ tunpkt }
      | _ => none
  | .sendQuit =>
      match s.handler with
      | .sendQuit =>
          if s.tunQuit < tunQuitCap then
            some { s with handler := .wakeUp, tunQuit := s.tunQuit + 1 }
          else none
      | _ => none
  | .wakeUp datagram =>
      match s.handler with
      | .wakeUp => some { s with handler := .sendQuit2, device := s.device ++ [datagram] }
      | _ => none
  | .unsetTunName =>
      match s.handler with
      | .unsetTunName => some { s with
          handler := .left, teardown := s.teardown ++ [.unsetTunName] }
      | _ => none

/-- Everything a step can do, with the guards. -/
inductive Moved (s : Session) : Event → Session → Prop
  | tunArrives (pkt : Packet) : Moved s (.tunArrives pkt) { s with device := s.device ++ [pkt] }
  | tcpData {chunk : Packet} (tcp : s.tcpReader = .read) (len : chunk.length ≤ tcpBufLen)
      (data : chunk ≠ []) : Moved s (.tcpRead chunk) { s with tcpReader := .send chunk }
  | tcpEnd (tcp : s.tcpReader = .read) : Moved s (.tcpRead []) { s with tcpReader := .quit }
  | tcpChunk {buf : Packet} (handler : s.handler = .select) (tcp : s.tcpReader = .send buf) :
      Moved s .tcpChunk { s with handler := .writeTun buf, tcpReader := .read }
  | tcpQuit (handler : s.handler = .select) (tcp : s.tcpReader = .quit) :
      Moved s .tcpQuit { s with handler := .sendQuit, tcpReader := .ended }
  | tunRead {pkt : Packet} {device : List Packet} (tun : s.tunReader = .read)
      (arrived : s.device = pkt :: device) :
      Moved s .tunRead { s with tunReader := .check pkt, device := device }
  | tunKeep {pkt : Packet} (tun : s.tunReader = .check pkt) (quit : s.tunQuit = 0) :
      Moved s .tunCheck { s with tunReader := .send pkt }
  | tunLeave {pkt : Packet} {n : ℕ} (tun : s.tunReader = .check pkt) (quit : s.tunQuit = n + 1) :
      Moved s .tunCheck { s with tunReader := .close, tunQuit := n }
  | tunPacket {pkt : Packet} (handler : s.handler = .select) (tun : s.tunReader = .send pkt) :
      Moved s .tunPacket { s with handler := .writeTcp pkt, tunReader := .read }
  | tunClose (tun : s.tunReader = .close) : Moved s .tunClose { s with
      tunReader := .recvQuit2, tunOpen := false, teardown := s.teardown ++ [.close] }
  | tunQuit2 (handler : s.handler = .sendQuit2) (tun : s.tunReader = .recvQuit2) :
      Moved s .tunQuit2 { s with handler := .unsetTunName, tunReader := .ended }
  | writeTun {newpkt : Packet} (handler : s.handler = .writeTun newpkt) :
      Moved s .writeTun { s with handler := .select, toTun := s.toTun ++ [newpkt] }
  | writeTcp {tunpkt : Packet} (handler : s.handler = .writeTcp tunpkt) :
      Moved s .writeTcp { s with handler := .select, toTcp := s.toTcp ++ tunpkt }
  | sendQuit (handler : s.handler = .sendQuit) (room : s.tunQuit < tunQuitCap) :
      Moved s .sendQuit { s with handler := .wakeUp, tunQuit := s.tunQuit + 1 }
  | wakeUp {datagram : Packet} (handler : s.handler = .wakeUp) :
      Moved s (.wakeUp datagram)
        { s with handler := .sendQuit2, device := s.device ++ [datagram] }
  | unsetTunName (handler : s.handler = .unsetTunName) :
      Moved s .unsetTunName
        { s with handler := .left, teardown := s.teardown ++ [.unsetTunName] }

theorem moved_of_step {s t : Session} {e : Event} (h : step s e = some t) : Moved s e t := by
  cases e with
  | tunArrives pkt => cases h; exact .tunArrives pkt
  | tcpRead chunk =>
    simp only [step, Option.ite_none_right_eq_some] at h
    obtain ⟨⟨tcp, len⟩, h⟩ := h
    by_cases hc : chunk = []
    · subst hc
      cases h
      exact .tcpEnd tcp
    · rw [if_neg hc] at h
      cases h
      exact .tcpData tcp len hc
  | tunCheck =>
    simp only [step] at h
    split at h
    · split at h
      · cases h; exact .tunKeep ‹_› ‹_›
      · cases h; exact .tunLeave ‹_› ‹_›
    · cases h
  | sendQuit =>
    simp only [step] at h
    split at h
    · rw [Option.ite_none_right_eq_some] at h
      obtain ⟨room, h⟩ := h
      cases h
      exact .sendQuit ‹_› room
    · cases h
  | _ =>
    simp only [step] at h
    split at h
    · cases h
      constructor <;> assumption
    · cases h

inductive HandlerPc.InLoop : HandlerPc → Prop
  | select : InLoop .select
  | writeTun (newpkt : Packet) : InLoop (.writeTun newpkt)
  | writeTcp (tunpkt : Packet) : InLoop (.writeTcp tunpkt)

/-- The quit message is sent, `clientTUN` has not confirmed it. -/
inductive HandlerPc.Waiting : HandlerPc → Prop
  | wakeUp : Waiting .wakeUp
  | sendQuit2 : Waiting .sendQuit2

inductive TunPc.Serving : TunPc → Prop
  | read : Serving .read
  | check (pkt : Packet) : Serving (.check pkt)
  | send (pkt : Packet) : Serving (.send pkt)

/-- How far the teardown has got: the handler, `clientTUN`, the messages in `tun_quit_ch`,
whether the interface is open and the calls made so far. -/
inductive Stage : HandlerPc → TunPc → ℕ → Bool → List Teardown → Prop
  | shuffling {h : HandlerPc} {t : TunPc} (loop : h.InLoop) (serving : t.Serving) :
      Stage h t 0 true []
  | leaving {t : TunPc} (serving : t.Serving) : Stage .sendQuit t 0 true []
  | asked {h : HandlerPc} {t : TunPc} (waiting : h.Waiting) (serving : t.Serving) :
      Stage h t 1 true []
  | closing {h : HandlerPc} (waiting : h.Waiting) : Stage h .close 0 true []
  | closed {h : HandlerPc} (waiting : h.Waiting) : Stage h .recvQuit2 0 false [.close]
  | confirmed : Stage .unsetTunName .ended 0 false [.close]
  | left : Stage .left .ended 0 false [.close, .unsetTunName]

structure Staged (s : Session) : Prop where
  stage : Stage s.handler s.tunReader s.tunQuit s.tunOpen s.teardown
  tcp : s.tcpReader = .ended ↔ ¬s.handler.InLoop

theorem staged_started : Staged started :=
  ⟨.shuffling .select .read, iff_of_false nofun (not_not.mpr .select)⟩

theorem Stage.teardown_of_left {h : HandlerPc} {t : TunPc} {n : ℕ} {o : Bool}
    {calls : List Teardown} (stage : Stage h t n o calls) (left : h = .left) :
    t = .ended ∧ o = false ∧ calls = [.close, .unsetTunName] := by
  subst left
  cases stage with
  | shuffling loop => nomatch loop
  | asked waiting | closing waiting | closed waiting => nomatch waiting
  | left => exact ⟨rfl, rfl, rfl⟩

/-- Before the quit message is in the channel a handler that left its loop has yet to send it. -/
theorem Stage.sendQuit_of_empty {h : HandlerPc} {t : TunPc} {n : ℕ} {o : Bool}
    {calls : List Teardown} (stage : Stage h t n o calls) (empty : n = 0) (serving : t.Serving)
    (outside : ¬h.InLoop) : h = .sendQuit := by
  subst empty
  cases stage with
  | shuffling loop => exact absurd loop outside
  | leaving => rfl
  | closing | closed | confirmed | left => nomatch serving

/-- In its loop the handler has asked for nothing. -/
theorem Stage.serving_of_inLoop {h : HandlerPc} {t : TunPc} {n : ℕ} {o : Bool}
    {calls : List Teardown} (stage : Stage h t n o calls) (loop : h.InLoop) :
    t.Serving ∧ n = 0 := by
  cases stage with
  | shuffling _ serving => exact ⟨serving, rfl⟩
  | leaving | confirmed | left => nomatch loop
  | asked waiting | closing waiting | closed waiting => cases waiting <;> nomatch loop

section
variable {h h' : HandlerPc} {t t' : TunPc} {n : ℕ} {o : Bool} {calls : List Teardown}

theorem Stage.shuffle (stage : Stage h t n o calls) (loop : h.InLoop) (loop' : h'.InLoop) :
    Stage h' t n o calls := by
  cases stage with
  | shuffling _ serving => exact .shuffling loop' serving
  | leaving | confirmed | left => nomatch loop
  | asked waiting | closing waiting | closed waiting => cases waiting <;> nomatch loop

theorem Stage.serve (stage : Stage h t n o calls) (serving : t.Serving) (serving' : t'.Serving) :
    Stage h t' n o calls := by
  cases stage with
  | shuffling loop => exact .shuffling loop serving'
  | leaving => exact .leaving serving'
  | asked waiting => exact .asked waiting serving'
  | closing | closed | confirmed | left => nomatch serving

theorem Stage.leave (stage : Stage .select t n o calls) : Stage .sendQuit t n o calls := by
  cases stage with
  | shuffling _ serving => exact .leaving serving
  | asked waiting | closing waiting | closed waiting => nomatch waiting

theorem Stage.ask (stage : Stage .sendQuit t n o calls) : Stage .wakeUp t (n + 1) o calls := by
  cases stage with
  | shuffling loop => nomatch loop
  | leaving serving => exact .asked .wakeUp serving
  | asked waiting | closing waiting | closed waiting => nomatch waiting

/-- The handler has woken `clientTUN` up and waits. -/
theorem Stage.wait (stage : Stage .wakeUp t n o calls) : Stage .sendQuit2 t n o calls := by
  cases stage with
  | shuffling loop => nomatch loop
  | asked _ serving => exact .asked .sendQuit2 serving
  | closing => exact .closing .sendQuit2
  | closed => exact .closed .sendQuit2

/-- `clientTUN` finds the quit message. -/
theorem Stage.close {pkt : Packet} (stage : Stage h (.check pkt) (n + 1) o calls) :
    Stage h .close n o calls := by
  cases stage with
  | asked waiting => exact .closing waiting

theorem Stage.closes (stage : Stage h .close n o calls) :
    Stage h .recvQuit2 n false (calls ++ [.close]) := by
  cases stage with
  | shuffling _ serving | leaving serving | asked _ serving => nomatch serving
  | closing waiting => exact .closed waiting

/-- The two goroutines meet at the second quit message. -/
theorem Stage.confirm (stage : Stage .sendQuit2 .recvQuit2 n o calls) :
    Stage .unsetTunName .ended n o calls := by
  cases stage with
  | shuffling loop => nomatch loop
  | asked _ serving => nomatch serving
  | closed => exact .confirmed

theorem Stage.release (stage : Stage .unsetTunName t n o calls) :
    Stage .left t n o (calls ++ [.unsetTunName]) := by
  cases stage with
  | shuffling loop => nomatch loop
  | asked waiting | closing waiting | closed waiting => nomatch waiting
  | confirmed => exact .left

end

section
variable {s : Session} (h : Staged s) {pc : HandlerPc}
include h

theorem Staged.tcp_inLoop (loop : s.handler.InLoop) (loop' : pc.InLoop) :
    s.tcpReader = .ended ↔ ¬pc.InLoop :=
  iff_of_false (fun ended => h.tcp.mp ended loop) (not_not.mpr loop')

theorem Staged.tcp_outside (outside : ¬s.handler.InLoop) (outside' : ¬pc.InLoop) :
    s.tcpReader = .ended ↔ ¬pc.InLoop :=
  iff_of_true (h.tcp.mpr outside) outside'

end

theorem staged_moved {s t : Session} {e : Event} (h : Staged s) (m : Moved s e t) :
    Staged t := by
  have stage := h.stage
  cases m with
  | tunArrives => exact ⟨stage, h.tcp⟩
  | tcpData reads | tcpEnd reads =>
    have hloop : ¬¬s.handler.InLoop := h.tcp.not.mp (reads ▸ nofun)
    exact ⟨stage, iff_of_false nofun hloop⟩
  | tcpChunk select =>
    have hloop : s.handler.InLoop := select ▸ .select
    exact ⟨stage.shuffle hloop (.writeTun _), iff_of_false nofun (not_not.mpr (.writeTun _))⟩
  | tcpQuit select =>
    rw [select] at stage
    exact ⟨stage.leave, iff_of_true rfl nofun⟩
  | tunRead reads => exact ⟨stage.serve (reads ▸ .read) (.check _), h.tcp⟩
  | tunKeep checks => exact ⟨stage.serve (checks ▸ .check _) (.send _), h.tcp⟩
  | tunLeave checks quit =>
    rw [checks, quit] at stage
    exact ⟨stage.close, h.tcp⟩
  | tunPacket select sends =>
    have hloop : s.handler.InLoop := select ▸ .select
    have hserving : s.tunReader.Serving := sends ▸ .send _
    exact ⟨(stage.shuffle hloop (.writeTcp _)).serve hserving .read,
      h.tcp_inLoop hloop (.writeTcp _)⟩
  | tunClose closes =>
    rw [closes] at stage
    exact ⟨stage.closes, h.tcp⟩
  | tunQuit2 waits receives =>
    rw [waits, receives] at stage
    exact ⟨stage.confirm, h.tcp_outside (waits ▸ nofun) nofun⟩
  | writeTun writes =>
    have hloop : s.handler.InLoop := writes ▸ .writeTun _
    exact ⟨stage.shuffle hloop .select, h.tcp_inLoop hloop .select⟩
  | writeTcp writes =>
    have hloop : s.handler.InLoop := writes ▸ .writeTcp _
    exact ⟨stage.shuffle hloop .select, h.tcp_inLoop hloop .select⟩
  | sendQuit leaves =>
    rw [leaves] at stage
    exact ⟨stage.ask, h.tcp_outside (leaves ▸ nofun) nofun⟩
  | wakeUp wakes =>
    rw [wakes] at stage
    exact ⟨stage.wait, h.tcp_outside (wakes ▸ nofun) nofun⟩
  | unsetTunName unsets =>
    rw [unsets] at stage
    exact ⟨stage.release, h.tcp_outside (unsets ▸ nofun) nofun⟩

end RpiCc2520.TunnelSession
