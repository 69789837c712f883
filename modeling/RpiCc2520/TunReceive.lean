import RpiCc2520.DescriptorLoop
import RpiCc2520.UartReceive

/-! Packets from the TUN device: a read into the module's buffer when the descriptor is ready, and a
task that signals the packet in it to the next layer. -/
namespace RpiCc2520.TunReceive
open BytePipe DescriptorLoop
open UartReceive (ReadResult)

def maxIpv6PacketLen : ℕ := 4096
def sizeofIp6Hdr : ℕ := 40

/-- `in_buf`, the task posted or not, the packets read so far and those signaled to the next layer,
as it finds them. -/
structure Tun where
  inBuf : ℕ → UInt8
  posted : Bool
  packets : List (List UInt8)
  received : List (List UInt8)

/-- The next layer takes the length from the header. -/
def packetLen (buf : ℕ → UInt8) : ℕ := sizeofIp6Hdr + ((buf 4).toNat * 256 + (buf 5).toNat)

/-- `IO.receiveReady`. An error ends the process. -/
def receiveReady (r : ReadResult) (s : Tun) : Option Tun :=
  match r with
  | .eagain => some s
  | .error => none
  | .bytes bs =>
      if bs.length = 0 then some s
      else if bs.length ≤ maxIpv6PacketLen then
        some { s with
          inBuf := store s.inBuf 0 bs
          posted := true
          packets := s.packets ++ [bs] }
      else none

/-- `receive_task`. `IPForward.recv` is given the header and what is behind it, and no length. -/
def receiveTask (s : Tun) : Tun :=
  { s with posted := false, received := s.received ++ [load s.inBuf 0 (packetLen s.inBuf)] }

inductive Event
  | receiveReady (r : ReadResult)
  | receiveTask

def step (s : Tun) : Event → Option Tun
  | .receiveReady r => receiveReady r s
  | .receiveTask => if s.posted then some (receiveTask s) else none

def Booted (s : Tun) : Prop := s.posted = false ∧ s.packets = [] ∧ s.received = []

def Event.kind : Event → Kind
  | .receiveReady _ => .ready
  | .receiveTask => .task

theorem receiveReady_cases {r : ReadResult} {s t : Tun} (h : receiveReady r s = some t) :
    t = s ∨ ∃ bs, r = .bytes bs ∧ bs ≠ [] ∧
      t = { s with inBuf := store s.inBuf 0 bs, posted := true, packets := s.packets ++ [bs] } := by
  cases r with
  | eagain => exact .inl (Option.some.inj h).symm
  | error => cases h
  | bytes bs =>
    simp only [receiveReady] at h
    split_ifs at h with hempty
    · exact .inl (Option.some.inj h).symm
    · exact .inr ⟨bs, rfl, fun hnil => hempty (by simp [hnil]), (Option.some.inj h).symm⟩

/-- The module as one of those the mote sleeps for. -/
def tunFile : IoFile where
  State := Tun
  Event := Event
  initial := Booted
  step := step
  kind := Event.kind
  posted := Tun.posted
  busy _ := false
  initial_posted _ h := h.1
  initial_busy _ _ := rfl
  posted_free _ e _ hkind _ := by cases e <;> cases hkind
  posted_read s e t hkind hst hposted := by
    cases e with
    | receiveReady r =>
      obtain rfl | ⟨bs, -, -, rfl⟩ := receiveReady_cases hst
      · exact hposted
      · rfl
    | receiveTask => rcases hkind with hkind | hkind <;> cases hkind
  posted_task s e t hkind hst := by
    cases e with
    | receiveReady => cases hkind
    | receiveTask =>
      obtain ⟨-, hst⟩ := Option.ite_none_right_eq_some.mp hst
      obtain rfl := Option.some.inj hst
      exact ⟨rfl, rfl⟩

/-- The kernel hands over one whole packet at a time. -/
def WholePacket (_ : Tun) (e : Event) : Prop :=
  ∀ bs, e = .receiveReady (.bytes bs) → bs ≠ [] →
    sizeofIp6Hdr ≤ bs.length ∧ bs.length = packetLen fun i => bs.getD i 0

/-- Every packet read but the one in the buffer has been signaled, as it was read and in order. -/
inductive InOrder (s : Tun) : Prop
  | delivered (posted : s.posted = false) (received : s.received = s.packets)
  | buffered (bs : List UInt8) (posted : s.posted = true) (packets : s.packets = s.received ++ [bs])
      (buf : load s.inBuf 0 (packetLen s.inBuf) = bs)

theorem load_packet {buf : ℕ → UInt8} {bs : List UInt8} (hsize : sizeofIp6Hdr ≤ bs.length)
    (hlen : bs.length = packetLen fun i => bs.getD i 0) :
    load (store buf 0 bs) 0 (packetLen (store buf 0 bs)) = bs := by
  have hbyte {i : ℕ} (hi : i < bs.length) : store buf 0 bs i = bs.getD i 0 := by
    simp [store, hi]
  have hsame : packetLen (store buf 0 bs) = bs.length := by
    rw [hlen]
    unfold packetLen sizeofIp6Hdr at *
    rw [hbyte (by omega), hbyte (by omega)]
  rw [hsame]
  exact load_store buf 0 bs

theorem inOrder_booted {s : Tun} (h : Booted s) : InOrder s :=
  .delivered h.1 (h.2.2.trans h.2.1.symm)

/-- A read finds the buffer free. -/
theorem inOrder_step {s t : Tun} {e : Event} (h : InOrder s) (whole : WholePacket s e)
    (hst : tunFile.machine.step s e = some t) : InOrder t := by
  obtain ⟨hguard, hst⟩ := Option.ite_none_left_eq_some.mp hst
  cases e with
  | receiveReady r =>
    have hfree : s.posted = false := by
      by_contra hposted
      have hposted : s.posted = true := by simpa using hposted
      exact hguard ⟨rfl, .inl hposted⟩
    obtain rfl | ⟨bs, rfl, hne, rfl⟩ := receiveReady_cases hst
    · exact h
    obtain ⟨hsize, hlen⟩ := whole bs rfl hne
    cases h with
    | delivered _ hreceived =>
      refine .buffered bs rfl ?_ (load_packet hsize hlen)
      change s.packets ++ [bs] = s.received ++ [bs]
      rw [hreceived]
    | buffered _ hposted =>
      rw [hfree] at hposted
      cases hposted
  | receiveTask =>
    obtain ⟨hposted, hst⟩ := Option.ite_none_right_eq_some.mp hst
    obtain rfl := Option.some.inj hst
    cases h with
    | delivered hfree =>
      rw [hfree] at hposted
      cases hposted
    | buffered bs _ hpackets hbuf =>
      refine .delivered rfl ?_
      change s.received ++ [_] = s.packets
      rw [hpackets, hbuf]

theorem InOrder.isPrefix {s : Tun} (h : InOrder s) : s.received <+: s.packets := by
  cases h with
  | delivered _ hreceived => rw [hreceived]
  | buffered bs _ hpackets =>
    rw [hpackets]
    exact List.prefix_append _ _

theorem InOrder.received_eq {s : Tun} (h : InOrder s) (hfree : s.posted = false) :
    s.received = s.packets := by
  cases h with
  | delivered _ hreceived => exact hreceived
  | buffered bs hposted =>
    rw [hfree] at hposted
    cases hposted

theorem inOrder_of_reachable {s : Tun} (h : tunFile.machine.Reachable WholePacket s) :
    InOrder s :=
  h.invariant (fun _ => inOrder_booted) fun _ _ _ => inOrder_step

end RpiCc2520.TunReceive
