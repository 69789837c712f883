import RpiCc2520.BytePipe
import RpiCc2520.TunnelSession

/-! The tunnel's data path: the server's session and the client's `select` loop, joined by a
connection that keeps bytes and their order and nothing else. -/
namespace RpiCc2520.TunnelDataPath
open TunnelSession BytePipe

/-- The client's loop. `tunReady` is what `select` said of the TUN device. -/
inductive ClientPc
  | select
  | recv (tunReady : Bool)
  | writeTun (buf : Packet) (tunReady : Bool)
  | read
  | send (buf : Packet)

structure Client where
  pc : ClientPc
  device : List Packet
  toTun : List Packet

/-- Both ends, the bytes on their way up to the server and down to the client, the packets
that have arrived at the TUN devices, and what each read from the connection returned. -/
structure DataPath where
  client : Client
  server : Session
  up : List UInt8
  down : List UInt8
  arrivedUp : List Packet
  arrivedDown : List Packet
  readsUp : List ℕ
  readsDown : List ℕ

def clientBufLen : ℕ := 4096

/-- A packet is not empty and fits the buffers. -/
def IsPacket (pkt : Packet) : Prop := pkt ≠ [] ∧ pkt.length ≤ clientBufLen

instance (pkt : Packet) : Decidable (IsPacket pkt) := inferInstanceAs (Decidable (_ ∧ _))

/-- `serverRead n` and `clientRecv n` are reads that return `n` bytes. -/
inductive Event
  | clientArrives (pkt : Packet)
  | serverArrives (pkt : Packet)
  | serverRead (n : ℕ)
  | server (e : TunnelSession.Event)
  | clientSelect (tcpReady tunReady : Bool)
  | clientRecv (n : ℕ)
  | clientWriteTun
  | clientRead
  | clientSend

/-- A step of the client's loop. A read of the TUN device with nothing there returns
`EAGAIN`. -/
def clientStep (s : DataPath) : Event → Option DataPath
  | .clientSelect tcpReady tunReady =>
      match s.client.pc with
      | .select =>
          if tcpReady then
            if s.down = [] then none
            else some { s with client := { s.client with pc := .recv tunReady } }
          else if tunReady then some { s with client := { s.client with pc := .read } }
          else none
      | _ => none
  | .clientRecv n =>
      match s.client.pc with
      | .recv tunReady =>
          if 0 < n ∧ n ≤ clientBufLen ∧ n ≤ s.down.length then
            some { s with
              client := { s.client with pc := .writeTun (s.down.take n) tunReady }
              down := s.down.drop n
              readsDown := s.readsDown ++ [n] }
          else none
      | _ => none
  | .clientWriteTun =>
      match s.client.pc with
      | .writeTun buf tunReady => some { s with client := { s.client with
          toTun := s.client.toTun ++ [buf]
          pc := if tunReady then .read else .select } }
      | _ => none
  | .clientRead =>
      match s.client.pc, s.client.device with
      | .read, [] => some { s with client := { s.client with pc := .select } }
      | .read, pkt :: device =>
          some { s with client := { s.client with pc := .send pkt, device := device } }
      | _, _ => none
  | .clientSend =>
      match s.client.pc with
      | .send buf => some { s with
          client := { s.client with pc := .select }
          up := s.up ++ buf }
      | _ => none
  | _ => none

/-- While the connection is up: a read returns at least one byte. -/
def pathStep (s : DataPath) : Event → Option DataPath
  | .clientArrives pkt =>
      if IsPacket pkt then
        some { s with
          client := { s.client with device := s.client.device ++ [pkt] }
          arrivedUp := s.arrivedUp ++ [pkt] }
      else none
  | .serverArrives pkt =>
      if IsPacket pkt then
        (step s.server (.tunArrives pkt)).map fun server =>
          { s with server := server, arrivedDown := s.arrivedDown ++ [pkt] }
      else none
  | .serverRead n =>
      if 0 < n ∧ n ≤ s.up.length then
        (step s.server (.tcpRead (s.up.take n))).map fun server =>
          { s with server := server, up := s.up.drop n, readsUp := s.readsUp ++ [n] }
      else none
  | .server (.tunArrives _) => none
  | .server (.tcpRead _) => none
  | .server e => (step s.server e).map fun server =>
      { s with server := server, down := s.down ++ server.toTcp.drop s.server.toTcp.length }
  | e => clientStep s e

def bootPath : DataPath := ⟨⟨.select, [], []⟩, started, [], [], [], [], [], []⟩

def machine : Machine DataPath Event := ⟨fun s => s = bootPath, pathStep⟩

/-- Nothing is inside either end or on its way between them. -/
structure Drained (s : DataPath) : Prop where
  client : s.client.pc = .select ∧ s.client.device = []
  server : s.server.handler = .select ∧ s.server.tcpReader = .read ∧
    s.server.tunReader = .read ∧ s.server.device = []
  pipes : s.up = [] ∧ s.down = []

/-- The packets written so far are the first ones that arrived at the other end. -/
def InOrder (s : DataPath) : Prop :=
  s.server.toTun <+: s.arrivedUp ∧ s.client.toTun <+: s.arrivedDown

/-- Each end wrote exactly the packets that arrived at the other end. -/
def Exact (s : DataPath) : Prop :=
  s.server.toTun = s.arrivedUp ∧ s.client.toTun = s.arrivedDown

/-- Every read from the connection returned as many bytes as the next packet has. -/
def PacketPerRead (s : DataPath) : Prop :=
  s.readsUp <+: s.arrivedUp.map List.length ∧ s.readsDown <+: s.arrivedDown.map List.length

/-! What each goroutine and the client hold. -/
def newpkt : HandlerPc → List Packet
  | .writeTun buf => [buf]
  | _ => []

def tunpkt : HandlerPc → List Packet
  | .writeTcp pkt => [pkt]
  | _ => []

def tcpBuf : TcpPc → List Packet
  | .send buf => [buf]
  | _ => []

def tunBuf : TunPc → List Packet
  | .check pkt => [pkt]
  | .send pkt => [pkt]
  | _ => []

def received : ClientPc → List Packet
  | .writeTun buf _ => [buf]
  | _ => []

def sending : ClientPc → List Packet
  | .send buf => [buf]
  | _ => []

/-- The chunks an end has read, written or not. -/
def takenUp (s : DataPath) : List Packet :=
  s.server.toTun ++ (newpkt s.server.handler ++ tcpBuf s.server.tcpReader)

def takenDown (s : DataPath) : List Packet := s.client.toTun ++ received s.client.pc

/-- A packet is waiting or sent, and the bytes of those sent are in the chunks or under way. -/
structure Carried (s : DataPath) : Prop where
  staged : Staged s.server
  connected : s.server.tcpReader ≠ .quit ∧ s.server.tcpReader ≠ .ended
  up : ∃ sent, s.arrivedUp = sent ++ (sending s.client.pc ++ s.client.device) ∧
    sent.flatten = (takenUp s).flatten ++ s.up
  upReads : s.readsUp = (takenUp s).map List.length
  down : ∃ sent, s.arrivedDown =
      sent ++ (tunpkt s.server.handler ++ (tunBuf s.server.tunReader ++ s.server.device)) ∧
    sent.flatten = (takenDown s).flatten ++ s.down
  downReads : s.readsDown = (takenDown s).map List.length
  packets : (∀ pkt ∈ s.arrivedUp, pkt ≠ []) ∧ ∀ pkt ∈ s.arrivedDown, pkt ≠ []

theorem carried_boot : Carried bootPath :=
  ⟨staged_started, ⟨nofun, nofun⟩, ⟨[], rfl, rfl⟩, rfl, ⟨[], rfl, rfl⟩, rfl, nofun, nofun⟩

/-- What the server does with the packets it holds: each step moves one a place further. -/
theorem carried_server {s : DataPath} {t : Session} {e : TunnelSession.Event} (h : Carried s)
    (m : Moved s.server e t) (hne : ∀ pkt, e ≠ .tunArrives pkt ∧ e ≠ .tcpRead pkt) :
    Carried { s with
      server := t, down := s.down ++ t.toTcp.drop s.server.toTcp.length } := by
  have hstaged := staged_moved h.staged m
  have hloop : s.server.handler.InLoop :=
    not_not.mp fun hl => h.connected.2 (h.staged.tcp.mpr hl)
  obtain ⟨hserving, hquit⟩ := h.staged.stage.serving_of_inLoop hloop
  have hup := h.up
  have hupReads := h.upReads
  obtain ⟨sent, hdown, hbytes⟩ := h.down
  cases m with
  | tunArrives pkt => exact absurd rfl (hne pkt).1
  | @tcpData chunk => exact absurd rfl (hne chunk).2
  | tcpEnd => exact absurd rfl (hne []).2
  | tcpQuit _ tcp => exact absurd tcp h.connected.1
  | tunLeave _ quit => rw [hquit] at quit; cases quit
  | tunClose tun => rw [tun] at hserving; nomatch hserving
  | tunQuit2 handler | sendQuit handler | wakeUp handler | unsetTunName handler =>
    rw [handler] at hloop; nomatch hloop
  | @tcpChunk buf handler tcp =>
    refine ⟨hstaged, ⟨nofun, nofun⟩, ?_, ?_, ⟨sent, ?_, ?_⟩, h.downReads, h.packets⟩
    · simpa [takenUp, handler, tcp, newpkt, tcpBuf] using hup
    · simpa [takenUp, handler, tcp, newpkt, tcpBuf] using hupReads
    · simpa [handler, tunpkt] using hdown
    · simpa [takenDown] using hbytes
  | @tunRead pkt device tun arrived =>
    refine ⟨hstaged, h.connected, hup, hupReads, ⟨sent, ?_, ?_⟩, h.downReads, h.packets⟩
    · simpa [tun, arrived, tunBuf] using hdown
    · simpa [takenDown] using hbytes
  | @tunKeep pkt tun quit =>
    refine ⟨hstaged, h.connected, hup, hupReads, ⟨sent, ?_, ?_⟩, h.downReads, h.packets⟩
    · simpa [tun, tunBuf] using hdown
    · simpa [takenDown] using hbytes
  | @tunPacket pkt handler tun =>
    refine ⟨hstaged, h.connected, ?_, ?_, ⟨sent, ?_, ?_⟩, h.downReads, h.packets⟩
    · simpa [takenUp, handler, newpkt] using hup
    · simpa [takenUp, handler, newpkt] using hupReads
    · simpa [handler, tun, tunpkt, tunBuf] using hdown
    · simpa [takenDown] using hbytes
  | @writeTun buf handler =>
    refine ⟨hstaged, h.connected, ?_, ?_, ⟨sent, ?_, ?_⟩, h.downReads, h.packets⟩
    · simpa [takenUp, handler, newpkt] using hup
    · simpa [takenUp, handler, newpkt] using hupReads
    · simpa [handler, tunpkt] using hdown
    · simpa [takenDown] using hbytes
  | @writeTcp pkt handler =>
    have hbytes := congrArg (· ++ pkt) hbytes
    refine ⟨hstaged, h.connected, ?_, ?_, ⟨sent ++ [pkt], ?_, ?_⟩, h.downReads, h.packets⟩
    · simpa [takenUp, handler, newpkt] using hup
    · simpa [takenUp, handler, newpkt] using hupReads
    · simpa [handler, tunpkt] using hdown
    · simpa [takenDown] using hbytes

theorem carried_serverRead {s : DataPath} {t : Session} {n : ℕ} (h : Carried s) (pos : 0 < n)
    (room : n ≤ s.up.length) (m : Moved s.server (.tcpRead (s.up.take n)) t) :
    Carried { s with server := t, up := s.up.drop n, readsUp := s.readsUp ++ [n] } := by
  have hstaged := staged_moved h.staged m
  obtain ⟨sent, hup, hbytes⟩ := h.up
  have hupReads := congrArg (· ++ [n]) h.upReads
  have hlen : (s.up.take n).length = n := List.length_take_of_le room
  generalize hc : s.up.take n = chunk at m hlen
  cases m with
  | tcpEnd => simp at hlen; omega
  | tcpData tcp =>
    have hsplit : chunk ++ s.up.drop n = s.up := by rw [← hc, List.take_append_drop]
    refine ⟨hstaged, ⟨nofun, nofun⟩, ⟨sent, hup, ?_⟩, ?_, h.down, h.downReads, h.packets⟩
    · simpa [takenUp, tcp, tcpBuf, hsplit] using hbytes
    · simpa [takenUp, tcp, tcpBuf, hlen] using hupReads

theorem Carried.pass {s : DataPath} (h : Carried s) {c : Client}
    (up : sending c.pc ++ c.device = sending s.client.pc ++ s.client.device)
    (down : c.toTun ++ received c.pc = s.client.toTun ++ received s.client.pc) :
    Carried { s with client := c } := by
  have htaken : takenDown { s with client := c } = takenDown s := down
  refine ⟨h.staged, h.connected, ?_, h.upReads, ?_, ?_, h.packets⟩
  · rw [up]
    exact h.up
  · rw [htaken]
    exact h.down
  · rw [htaken]
    exact h.downReads

theorem carried_client {s t : DataPath} {e : Event} (h : Carried s) (hst : clientStep s e = some t) :
    Carried t := by
  cases e with
  | clientArrives | serverArrives | serverRead | server => simp [clientStep] at hst
  | clientSelect tcpReady tunReady =>
    cases hpc : s.client.pc with
    | select =>
      simp only [clientStep, hpc] at hst
      split_ifs at hst <;> cases hst <;>
        exact h.pass (by simp [hpc, sending]) (by simp [hpc, received])
    | _ => simp [clientStep, hpc] at hst
  | clientRecv n =>
    cases hpc : s.client.pc with
    | recv tunReady =>
      simp only [clientStep, hpc, Option.ite_none_right_eq_some] at hst
      obtain ⟨⟨pos, -, room⟩, hst⟩ := hst
      cases hst
      obtain ⟨sent, hdown, hbytes⟩ := h.down
      have hreads := congrArg (· ++ [n]) h.downReads
      refine ⟨h.staged, h.connected, ?_, h.upReads, ⟨sent, hdown, ?_⟩, ?_, h.packets⟩
      · simpa [takenUp, hpc, sending] using h.up
      · simpa [takenDown, hpc, received] using hbytes
      · simpa [takenDown, hpc, received, room] using hreads
    | _ => simp [clientStep, hpc] at hst
  | clientWriteTun =>
    cases hpc : s.client.pc with
    | writeTun buf tunReady =>
      simp only [clientStep, hpc] at hst
      cases hst
      cases tunReady <;> exact h.pass (by simp [hpc, sending]) (by simp [hpc, received])
    | _ => simp [clientStep, hpc] at hst
  | clientRead =>
    cases hpc : s.client.pc with
    | read =>
      cases hd : s.client.device with
      | nil =>
        simp only [clientStep, hpc, hd] at hst
        cases hst
        exact h.pass (by simp [hpc, hd, sending]) (by simp [hpc, received])
      | cons pkt device =>
        simp only [clientStep, hpc, hd] at hst
        cases hst
        exact h.pass (by simp [hpc, hd, sending]) (by simp [hpc, received])
    | _ => simp [clientStep, hpc] at hst
  | clientSend =>
    cases hpc : s.client.pc with
    | send buf =>
      simp only [clientStep, hpc] at hst
      cases hst
      obtain ⟨sent, hup, hbytes⟩ := h.up
      have hbytes := congrArg (· ++ buf) hbytes
      refine ⟨h.staged, h.connected, ⟨sent ++ [buf], ?_, ?_⟩, h.upReads, ?_, ?_, h.packets⟩
      · simpa [hpc, sending] using hup
      · simpa [takenUp] using hbytes
      · simpa [takenDown, hpc, received] using h.down
      · simpa [takenDown, hpc, received] using h.downReads
    | _ => simp [clientStep, hpc] at hst

theorem carried_step {s t : DataPath} {e : Event} (h : Carried s) (hst : pathStep s e = some t) :
    Carried t := by
  cases e with
  | clientArrives pkt =>
    simp only [pathStep, Option.ite_none_right_eq_some] at hst
    obtain ⟨hpkt, hst⟩ := hst
    cases hst
    obtain ⟨sent, hup, hbytes⟩ := h.up
    refine ⟨h.staged, h.connected, ⟨sent, by simp [hup], hbytes⟩, h.upReads, h.down, h.downReads,
      fun p hp => ?_, h.packets.2⟩
    rcases List.mem_append.mp hp with hp | hp
    · exact h.packets.1 p hp
    · rw [List.mem_singleton.mp hp]
      exact hpkt.1
  | serverArrives pkt =>
    simp only [pathStep, Option.ite_none_right_eq_some] at hst
    obtain ⟨hpkt, hst⟩ := hst
    obtain ⟨u, hu, hst⟩ := Option.map_eq_some_iff.mp hst
    cases hst
    cases hu
    obtain ⟨sent, hdown, hbytes⟩ := h.down
    refine ⟨staged_moved h.staged (.tunArrives pkt), h.connected, h.up, h.upReads,
      ⟨sent, by simp [hdown], hbytes⟩, h.downReads, h.packets.1, fun p hp => ?_⟩
    rcases List.mem_append.mp hp with hp | hp
    · exact h.packets.2 p hp
    · rw [List.mem_singleton.mp hp]
      exact hpkt.1
  | serverRead n =>
    simp only [pathStep, Option.ite_none_right_eq_some] at hst
    obtain ⟨⟨pos, room⟩, hst⟩ := hst
    obtain ⟨u, hu, hst⟩ := Option.map_eq_some_iff.mp hst
    cases hst
    exact carried_serverRead h pos room (moved_of_step hu)
  | server e =>
    cases e with
    | tunArrives | tcpRead => simp [pathStep] at hst
    | _ =>
      obtain ⟨u, hu, hst⟩ := Option.map_eq_some_iff.mp hst
      cases hst
      exact carried_server h (moved_of_step hu) fun _ => ⟨nofun, nofun⟩
  | clientSelect tcpReady tunReady =>
    exact carried_client (e := .clientSelect tcpReady tunReady) h hst
  | clientRecv n => exact carried_client (e := .clientRecv n) h hst
  | clientWriteTun => exact carried_client (e := .clientWriteTun) h hst
  | clientRead => exact carried_client (e := .clientRead) h hst
  | clientSend => exact carried_client (e := .clientSend) h hst

theorem chunks_isPrefix {arrived sent waiting taken : List Packet} {pipe : List UInt8}
    (h : arrived = sent ++ waiting) (hbytes : sent.flatten = taken.flatten ++ pipe) :
    taken.flatten <+: arrived.flatten := by
  rw [h, List.flatten_append, hbytes, List.append_assoc]
  exact List.prefix_append _ _

/-- Packets that are not empty and of which nothing is left are all there. -/
theorem eq_of_prefix_of_flatten {taken arrived : List Packet} (h : taken <+: arrived)
    (hne : ∀ pkt ∈ arrived, pkt ≠ []) (hbytes : arrived.flatten = taken.flatten) :
    taken = arrived := by
  obtain ⟨rest, rfl⟩ := h
  have hrest : rest = [] := by
    refine List.eq_nil_iff_forall_not_mem.mpr fun pkt hpkt => ?_
    have hnil : rest.flatten = [] := by simpa using hbytes
    exact hne pkt (List.mem_append_right _ hpkt) (List.flatten_eq_nil_iff.mp hnil pkt hpkt)
  rw [hrest, List.append_nil]

theorem written_iff {arrived sent taken : List Packet} {reads : List ℕ}
    (h : arrived = sent) (hbytes : sent.flatten = taken.flatten)
    (hne : ∀ pkt ∈ arrived, pkt ≠ []) (hreads : reads = taken.map List.length) :
    taken = arrived ↔ reads <+: arrived.map List.length := by
  subst h
  have hpre : taken.flatten <+: arrived.flatten := hbytes ▸ List.prefix_rfl
  rw [hreads, ← isPrefix_iff_of_flatten hpre]
  exact ⟨fun he => he ▸ List.prefix_rfl, fun hp => eq_of_prefix_of_flatten hp hne hbytes⟩

theorem Carried.inOrder {s : DataPath} (h : Carried s) (reads : PacketPerRead s) :
    InOrder s := by
  obtain ⟨sentUp, hup, hupBytes⟩ := h.up
  obtain ⟨sentDown, hdown, hdownBytes⟩ := h.down
  have htakenUp : takenUp s <+: s.arrivedUp :=
    (isPrefix_iff_of_flatten (chunks_isPrefix hup hupBytes)).mpr (h.upReads ▸ reads.1)
  have htakenDown : takenDown s <+: s.arrivedDown :=
    (isPrefix_iff_of_flatten (chunks_isPrefix hdown hdownBytes)).mpr (h.downReads ▸ reads.2)
  exact ⟨(List.prefix_append _ _).trans htakenUp, (List.prefix_append _ _).trans htakenDown⟩

theorem Carried.exact_iff {s : DataPath} (h : Carried s) (drained : Drained s) :
    Exact s ↔ PacketPerRead s := by
  obtain ⟨⟨hclient, hdevice⟩, ⟨hhandler, htcp, htun, hserverDevice⟩, hpipeUp, hpipeDown⟩ := drained
  have htakenUp : takenUp s = s.server.toTun := by
    simp [takenUp, hhandler, htcp, newpkt, tcpBuf]
  have htakenDown : takenDown s = s.client.toTun := by simp [takenDown, hclient, received]
  obtain ⟨sentUp, hup, hupBytes⟩ := h.up
  obtain ⟨sentDown, hdown, hdownBytes⟩ := h.down
  have hupReads := h.upReads
  have hdownReads := h.downReads
  rw [htakenUp] at hupBytes hupReads
  rw [htakenDown] at hdownBytes hdownReads
  rw [hpipeUp, List.append_nil] at hupBytes
  rw [hpipeDown, List.append_nil] at hdownBytes
  have hup : s.arrivedUp = sentUp := by simpa [hclient, hdevice, sending] using hup
  have hdown : s.arrivedDown = sentDown := by
    simpa [hhandler, htun, hserverDevice, tunpkt, tunBuf] using hdown
  exact and_congr (written_iff hup hupBytes h.packets.1 hupReads)
    (written_iff hdown hdownBytes h.packets.2 hdownReads)

/-- While reads return one packet each, the packets come out as they went in. Once all have
come through, that is the only way for them to. -/
theorem exact_iff_packetPerRead (s : DataPath) (h : machine.Reachable Machine.Any s) :
    (PacketPerRead s → InOrder s) ∧ (Drained s → (Exact s ↔ PacketPerRead s)) := by
  have hc : Carried s := by
    refine h.invariant (I := Carried) ?_ fun _ _ _ hs _ hst => carried_step hs hst
    rintro _ rfl
    exact carried_boot
  exact ⟨hc.inOrder, hc.exact_iff⟩

/-- A client sends two packets of 40 bytes, and the server's reads return `n` bytes and the
rest. -/
def twoPackets : List Event :=
  [.clientArrives (List.replicate 40 1), .clientArrives (List.replicate 40 2),
    .clientSelect false true, .clientRead, .clientSend,
    .clientSelect false true, .clientRead, .clientSend]

/-- One read for each packet. -/
theorem exact_iff_packetPerRead_slow :
    ∃ s, machine.Reachable Machine.Any s ∧ Drained s ∧ PacketPerRead s ∧
      s.server.toTun = [List.replicate 40 1, List.replicate 40 2] ∧ Exact s := by
  have h0 : machine.Reachable Machine.Any bootPath := .start rfl
  have hs := h0.run (twoPackets ++ [.serverRead 40, .server .tcpChunk, .server .writeTun,
    .serverRead 40, .server .tcpChunk, .server .writeTun]) rfl
  have hdrained := (exact_iff_packetPerRead _ hs).2 ⟨⟨rfl, rfl⟩, ⟨rfl, rfl, rfl, rfl⟩, rfl, rfl⟩
  refine ⟨_, hs, ⟨⟨rfl, rfl⟩, ⟨rfl, rfl, rfl, rfl⟩, rfl, rfl⟩, ?_, rfl, hdrained.mpr ?_⟩
  · exact ⟨List.prefix_rfl, List.prefix_rfl⟩
  · exact ⟨List.prefix_rfl, List.prefix_rfl⟩

/-- Both packets in one read are written as one. -/
theorem coalesced_packets_merged :
    ¬∀ s, machine.Reachable Machine.Any s → Drained s → Exact s := by
  intro h
  have h0 : machine.Reachable Machine.Any bootPath := .start rfl
  have hs := h0.run (twoPackets ++ [.serverRead 80, .server .tcpChunk, .server .writeTun]) rfl
  have hexact := h _ hs ⟨⟨rfl, rfl⟩, ⟨rfl, rfl, rfl, rfl⟩, rfl, rfl⟩
  exact absurd (congrArg List.length hexact.1) (by decide)

end RpiCc2520.TunnelDataPath
