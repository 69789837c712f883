import RpiCc2520.IovChain

/-! IPv6 packets as the stack hands them on: the header in one structure, the payload in a chain of
pieces. -/
namespace RpiCc2520.Ip6Structs
open IovChain

/-- `htons` and `ntohs` on a little-endian processor. -/
def htons (x : UInt16) : UInt16 := .ofNat (x.toNat % 256 * 256 + x.toNat / 256)
def ntohs (x : UInt16) : UInt16 := htons x

theorem toNat_htons (x : UInt16) : (htons x).toNat = x.toNat % 256 * 256 + x.toNat / 256 := by
  have hx := x.toNat_lt
  exact UInt16.toNat_ofNat_of_lt' (by unfold UInt16.size; omega)

theorem ntohs_htons (x : UInt16) : ntohs (htons x) = x := by
  have hx := x.toNat_lt
  rw [ntohs, ← UInt16.toNat_inj, toNat_htons, toNat_htons]
  omega

/-- `struct ip6_hdr`. The payload length is in network order. -/
structure Ip6Hdr where
  ip6Flow : Vector UInt8 4
  ip6Plen : UInt16
  ip6Nxt : UInt8
  ip6Hlim : UInt8
  ip6Src : Vector UInt8 16
  ip6Dst : Vector UInt8 16
  deriving DecidableEq

/-- The 40 bytes of the structure on a little-endian processor. -/
def Ip6Hdr.bytes (h : Ip6Hdr) : List UInt8 :=
  h.ip6Flow.toList ++ [h.ip6Plen.toUInt8, (h.ip6Plen >>> 8).toUInt8] ++ [h.ip6Nxt, h.ip6Hlim] ++
    h.ip6Src.toList ++ h.ip6Dst.toList

@[simp] theorem Ip6Hdr.length_bytes (h : Ip6Hdr) : h.bytes.length = 40 := by
  simp [bytes]

/-- `struct ip6_packet`, with the interface it came in by. -/
structure Ip6Packet where
  ip6Inputif : ℕ
  ip6Hdr : Ip6Hdr
  ip6Data : List Iov
  deriving DecidableEq

def Ip6Packet.bytes (pkt : Ip6Packet) (mem : Memory) : List UInt8 :=
  pkt.ip6Hdr.bytes ++ flatten mem pkt.ip6Data

end RpiCc2520.Ip6Structs
