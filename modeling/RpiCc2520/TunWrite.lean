import RpiCc2520.Ip6Structs
import RpiCc2520.TunForward

/-! The bytes the TUN component writes for a packet: header and payload are copied into a static
buffer, and the write starts there. -/
namespace RpiCc2520.TunWrite
open BytePipe RadioMessage IovChain Ip6Structs

def maxIpv6PacketLen : ℕ := 4096
def sizeofIp6Hdr : ℕ := 40
def sizeofTunPi : ℕ := 4

/-- The length of a chain, and the bytes it copies from an offset on, at most so many. -/
structure Library where
  iovLen : List Iov → ℕ
  iovRead : Memory → List Iov → ℕ → ℕ → List UInt8

structure Library.Documented (lib : Library) : Prop where
  iovLen : ∀ chain, lib.iovLen chain = (addresses chain).length
  iovRead : ∀ mem chain offset len,
    lib.iovRead mem chain offset len = ((flatten mem chain).drop offset).take len

/-- The component, and the memory from `out_buf` on. The buffer has `maxIpv6PacketLen` bytes; what
follows belongs to others. -/
structure State where
  tun : TunForward.Tun
  outBuf : Memory

/-- `IPForward.send`, with the bytes it hands to `write`, which returns `ret`. -/
def send (lib : Library) (mem : Memory) (msg : Ip6Packet) (data : Ptr) (ret : ℤ) (s : State) :
    UInt8 × List UInt8 × State :=
  let len := lib.iovLen msg.ip6Data + sizeofIp6Hdr
  let outBuf := store s.outBuf 0 msg.ip6Hdr.bytes
  let outBuf := store outBuf sizeofIp6Hdr (lib.iovRead mem msg.ip6Data 0 len)
  let written := load outBuf 0 (len + sizeofTunPi)
  let (result, tun) := TunForward.send data ret s.tun
  (result, written, ⟨tun, outBuf⟩)

/-- A send, the task, or others writing what is theirs. -/
inductive Event
  | send (mem : Memory) (msg : Ip6Packet) (data : Ptr) (ret : ℤ)
  | sendDoneTask
  | others (behind : Memory)

def step (lib : Library) (s : State) : Event → Option State
  | .send mem msg data ret => some (send lib mem msg data ret s).2.2
  | .sendDoneTask => (TunForward.step s.tun .sendDoneTask).map fun tun => { s with tun := tun }
  | .others behind =>
      some { s with outBuf := fun p => if p < maxIpv6PacketLen then s.outBuf p else behind p }

/-- A static buffer starts as zeros. -/
def Booted (s : State) : Prop :=
  TunForward.machine.initial s.tun ∧ ∀ p < maxIpv6PacketLen, s.outBuf p = 0

def machine (lib : Library) : Machine State Event := ⟨Booted, step lib⟩

def written (lib : Library) (mem : Memory) (msg : Ip6Packet) (data : Ptr) (ret : ℤ) (s : State) :
    List UInt8 := (send lib mem msg data ret s).2.1

theorem outBuf_send {lib : Library} (hlib : lib.Documented) (mem : Memory) (msg : Ip6Packet)
    (data : Ptr) (ret : ℤ) (s : State) :
    (send lib mem msg data ret s).2.2.outBuf = store s.outBuf 0 (msg.bytes mem) := by
  have hread : lib.iovRead mem msg.ip6Data 0 (lib.iovLen msg.ip6Data + sizeofIp6Hdr) =
      flatten mem msg.ip6Data := by
    rw [hlib.iovRead, hlib.iovLen, List.drop_zero]
    exact List.take_of_length_le (by simp)
  change store (store s.outBuf 0 msg.ip6Hdr.bytes) sizeofIp6Hdr _ = _
  rw [hread, Ip6Packet.bytes, store_append, Nat.zero_add, Ip6Hdr.length_bytes]
  rfl

/-- Four bytes too many are written: what the buffer held behind the packet. -/
theorem written_eq {lib : Library} (hlib : lib.Documented) (mem : Memory) (msg : Ip6Packet)
    (data : Ptr) (ret : ℤ) (s : State) : written lib mem msg data ret s =
      msg.bytes mem ++ load s.outBuf (msg.bytes mem).length sizeofTunPi := by
  have hlen : lib.iovLen msg.ip6Data + sizeofIp6Hdr = (msg.bytes mem).length := by
    rw [hlib.iovLen, Ip6Packet.bytes, List.length_append, Ip6Hdr.length_bytes, length_flatten]
    exact Nat.add_comm _ _
  change load (send lib mem msg data ret s).2.2.outBuf 0 (_ + sizeofTunPi) = _
  rw [outBuf_send hlib, hlen, load_add, load_store, Nat.zero_add,
    load_store_of_disjoint _ _ (.inr (by omega))]

/-- A packet of the same length and four bytes more leaves these where the write goes on. -/
theorem written_after {lib : Library} (hlib : lib.Documented) (mem mem' : Memory)
    (msg earlier : Ip6Packet) (stale : List UInt8) (hstale : stale.length = sizeofTunPi)
    (data data' : Ptr) (ret ret' : ℤ) (s : State)
    (h : flatten mem' earlier.ip6Data = flatten mem msg.ip6Data ++ stale) :
    written lib mem msg data ret (send lib mem' earlier data' ret' s).2.2 =
      msg.bytes mem ++ stale := by
  have hsplit : earlier.bytes mem' =
      (earlier.ip6Hdr.bytes ++ flatten mem msg.ip6Data) ++ stale := by
    rw [Ip6Packet.bytes, h, List.append_assoc]
  have hlen : (msg.bytes mem).length = (earlier.ip6Hdr.bytes ++ flatten mem msg.ip6Data).length := by
    simp [Ip6Packet.bytes]
  rw [written_eq hlib, outBuf_send hlib, hsplit, store_append, hlen, Nat.zero_add, ← hstale,
    load_store]

def bootState : State := ⟨⟨⟨0, 1, 1, false⟩, 0, false, [], []⟩, fun _ => 0⟩

theorem bootState_booted : Booted bootState := ⟨⟨rfl, rfl, rfl⟩, fun _ _ => rfl⟩

/-- No history makes the write exact, and where the buffer has room for them the four bytes behind
the packet can be any bytes of an earlier one. -/
theorem never_writesExactly (lib : Library) (hlib : lib.Documented) (mem : Memory)
    (msg : Ip6Packet) (data : Ptr) (ret : ℤ) (fits : (msg.bytes mem).length ≤ maxIpv6PacketLen) :
    (∀ s, (machine lib).Reachable Machine.Any s →
        written lib mem msg data ret s ≠ msg.bytes mem) ∧
      ((msg.bytes mem).length + sizeofTunPi ≤ maxIpv6PacketLen →
        ∀ stale : List UInt8, stale.length = sizeofTunPi → ∃ s,
          (machine lib).Reachable Machine.Any s ∧
            written lib mem msg data ret s = msg.bytes mem ++ stale) := by
  constructor
  · intro s _ he
    have hlen := congrArg List.length he
    rw [written_eq hlib, List.length_append, load_length] at hlen
    exact absurd hlen (by simp [sizeofTunPi])
  · intro _ stale hstale
    have hshort : (flatten mem msg.ip6Data ++ stale).length < 2 ^ 32 := by
      have hpayload : (flatten mem msg.ip6Data).length ≤ (msg.bytes mem).length := by
        rw [Ip6Packet.bytes, List.length_append]
        exact Nat.le_add_left _ _
      rw [List.length_append, hstale]
      unfold maxIpv6PacketLen at fits
      unfold sizeofTunPi
      omega
    obtain ⟨mem', v, hv⟩ := exists_flatten _ hshort
    let earlier : Ip6Packet := { msg with ip6Data := [v] }
    have hboot : (machine lib).Reachable Machine.Any bootState := .start bootState_booted
    refine ⟨_, hboot.next (e := .send mem' earlier data ret) trivial rfl, ?_⟩
    exact written_after hlib mem mem' msg earlier stale hstale data data ret ret bootState hv

def sampleLibrary : Library where
  iovLen chain := (addresses chain).length
  iovRead mem chain offset len := ((flatten mem chain).drop offset).take len

theorem sampleLibrary_documented : sampleLibrary.Documented := ⟨fun _ => rfl, fun _ _ _ _ => rfl⟩

def sampleHdr : Ip6Hdr := ⟨.replicate 4 0x60, 0, 59, 64, .replicate 16 0xfe, .replicate 16 0xff⟩

def sampleMsg : Ip6Packet := ⟨1, sampleHdr, []⟩

/-- The forty bytes of a header are never written alone. -/
theorem never_writesExactly_sample :
    written sampleLibrary (fun _ => 0) sampleMsg 1 44 bootState ≠ sampleMsg.bytes fun _ => 0 :=
  (never_writesExactly sampleLibrary sampleLibrary_documented (fun _ => 0) sampleMsg 1 44
    (by decide)).1 bootState (.start bootState_booted)

/-- After a packet with the payload 1, 2, 3, 4 the write for one without payload ends with it. -/
theorem payload_leaks :
    let mem : Memory := fun p => if p < 4 then .ofNat (p + 1) else 0
    let earlier : Ip6Packet := { sampleMsg with ip6Data := [⟨0, 4⟩] }
    let s := (send sampleLibrary mem earlier 1 48 bootState).2.2
    (machine sampleLibrary).Reachable Machine.Any s ∧
      written sampleLibrary mem sampleMsg 2 44 s = sampleMsg.bytes mem ++ [1, 2, 3, 4] ∧
      written sampleLibrary mem sampleMsg 2 44 bootState = sampleMsg.bytes mem ++ [0, 0, 0, 0] := by
  intro mem earlier s
  have hboot : (machine sampleLibrary).Reachable Machine.Any bootState := .start bootState_booted
  refine ⟨hboot.next (e := .send mem earlier 1 48) trivial rfl, ?_, ?_⟩
  · decide +kernel
  · decide +kernel

end RpiCc2520.TunWrite
