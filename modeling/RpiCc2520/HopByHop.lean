import RpiCc2520.Ip6Structs
import RpiCc2520.OnesComplement

/-! The border takes the hop-by-hop header off packets that leave the mesh: the first piece of the
payload is moved behind it, and for UDP the checksum is computed anew. -/
namespace RpiCc2520.HopByHop
open IovChain Ip6Structs OnesComplement

def ipv6Hop : UInt8 := 0
def ianaUdp : UInt8 := 17

/-- What the stack provides: `IPPacket`, `msg_cksum` and two constants. -/
structure Library where
  findHeader : Memory → List Iov → UInt8 → UInt8 → ℤ
  delTLV : Memory → List Iov → ℤ → UInt8 → Memory
  msgCksum : Memory → Ip6Hdr → List Iov → UInt8 → UInt16
  routeIfacePpp : ℕ
  rplHbhRankType : UInt8

/-- The bytes before the payload that a checksum of an upper layer covers. -/
def pseudoHeader (hdr : Ip6Hdr) (len : ℕ) (nxt : UInt8) : List UInt8 :=
  hdr.ip6Src.toList ++ hdr.ip6Dst.toList ++
    [.ofNat (len / 2 ^ 24), .ofNat (len / 2 ^ 16), .ofNat (len / 2 ^ 8), .ofNat len] ++
    [0, 0, 0, nxt]

structure Library.Documented (lib : Library) : Prop where
  /-- The header looked for is the first one. -/
  findHeader : ∀ mem v rest, lib.findHeader mem (v :: rest) ipv6Hop ipv6Hop = 0
  msgCksum : ∀ mem hdr chain nxt, lib.msgCksum mem hdr chain nxt =
    checksum (pseudoHeader hdr (addresses chain).length nxt ++ flatten mem chain)

/-- A packet that `approve` is done with, its verdict, and the addresses it has itself written to. -/
structure Approved where
  verdict : Bool
  pkt : Ip6Packet
  mem : Memory
  written : List ℕ

def lengthInBytes (mem : Memory) (v : Iov) : UInt8 := (mem (v.iovBase + 1) + 1) * 8

def skipHeader (mem : Memory) (v : Iov) : Iov :=
  ⟨v.iovBase + (lengthInBytes mem v).toNat, v.iovLen - (lengthInBytes mem v).toUInt32⟩

def fixHeader (mem : Memory) (v : Iov) (hdr : Ip6Hdr) : Ip6Hdr :=
  { hdr with
    ip6Nxt := mem v.iovBase
    ip6Plen := htons (ntohs hdr.ip6Plen - (lengthInBytes mem v).toUInt16) }

/-- Two bytes are stored at `iov_base[6]` and `iov_base[7]`. -/
def putChecksum (mem : Memory) (iovBase : ℕ) (b6 b7 : UInt8) : Memory :=
  Function.update (Function.update mem (iovBase + 6) b6) (iovBase + 7) b7

/-- Both parts of `approve` that take a header at the beginning of the payload off. -/
def removeHeader (lib : Library) (mem : Memory) (pkt : Ip6Packet) (v : Iov) (rest : List Iov) :
    Approved :=
  let hdr := fixHeader mem v pkt.ip6Hdr
  let iov := skipHeader mem v
  let pkt := { pkt with ip6Hdr := hdr, ip6Data := iov :: rest }
  if hdr.ip6Nxt = ianaUdp then
    let mem := putChecksum mem iov.iovBase 0 0
    let udpCheck := htons (lib.msgCksum mem hdr (iov :: rest) ianaUdp)
    let mem := putChecksum mem iov.iovBase udpCheck.toUInt8 (udpCheck >>> 8).toUInt8
    ⟨true, pkt, mem, [iov.iovBase + 6, iov.iovBase + 7]⟩
  else ⟨true, pkt, mem, []⟩

/-- `DumpHopHopP.approve`. Without a payload there is nothing to read the header from. -/
def dumpHopHopApprove (lib : Library) (mem : Memory) (pkt : Ip6Packet) : Option Approved :=
  let off := lib.findHeader mem pkt.ip6Data pkt.ip6Hdr.ip6Nxt ipv6Hop
  if off < 0 then some ⟨true, pkt, mem, []⟩
  else if off = 0 then
    match pkt.ip6Data with
    | [] => none
    | v :: rest => some (removeHeader lib mem pkt v rest)
  else some ⟨true, pkt, mem, []⟩

abbrev In6Addr := Vector UInt8 16

/-- The packets `RplBorderRouterP.approve` turns away: those from the PPP interface, and, once the
prefix is known, those for the default route that are for this network or link-local. -/
def turnedAway (lib : Library) (pfx : Option In6Addr) (pkt : Ip6Packet) (nextHop : In6Addr) :
    Bool :=
  if pkt.ip6Inputif = lib.routeIfacePpp then true
  else match pfx with
    | none => false
    | some pfx =>
        let dst := pkt.ip6Hdr.ip6Dst
        nextHop == .replicate 16 0 &&
          (dst.toList.take 8 == pfx.toList.take 8 || (dst[0] == 0xfe && dst[1] == 0x80))

/-- `RplBorderRouterP.approve`; `pfx` is what `NeighborDiscovery.getPrefix` returns. -/
def rplBorderRouterApprove (lib : Library) (mem : Memory) (pfx : Option In6Addr) (pkt : Ip6Packet)
    (nextHop : In6Addr) : Option Approved :=
  if turnedAway lib pfx pkt nextHop then some ⟨false, pkt, mem, []⟩
  else
    let off := lib.findHeader mem pkt.ip6Data pkt.ip6Hdr.ip6Nxt ipv6Hop
    if off < 0 then some ⟨true, pkt, mem, []⟩
    else if off = 0 then
      match pkt.ip6Data with
      | [] => none
      | v :: rest => some (removeHeader lib mem pkt v rest)
    else some ⟨true, pkt, lib.delTLV mem pkt.ip6Data off lib.rplHbhRankType, []⟩

def headerLen (mem : Memory) (v : Iov) : ℕ := 8 * ((mem (v.iovBase + 1)).toNat + 1)

/-- A packet that begins with a hop-by-hop header: its first two bytes are in the first piece, and
all of it is in the payload. -/
structure Carries (mem : Memory) (pkt : Ip6Packet) (v : Iov) (rest : List Iov) : Prop where
  nxt : pkt.ip6Hdr.ip6Nxt = ipv6Hop
  data : pkt.ip6Data = v :: rest
  start : 2 ≤ v.iovLen.toNat
  plen : (ntohs pkt.ip6Hdr.ip6Plen).toNat = (addresses pkt.ip6Data).length
  fits : headerLen mem v ≤ (addresses pkt.ip6Data).length

/-- The two bytes of a UDP datagram that hold its checksum. -/
def UdpChecksum (mem : Memory) (v : Iov) (i : ℕ) : Prop :=
  mem v.iovBase = ianaUdp ∧ (i = 6 ∨ i = 7)

/-- The packet is the old one without the header, up to the checksum of UDP, and no length has
wrapped. -/
structure Stripped (mem : Memory) (pkt : Ip6Packet) (v : Iov) (rest : List Iov)
    (out : Approved) : Prop where
  inputif : out.pkt.ip6Inputif = pkt.ip6Inputif
  hdr : out.pkt.ip6Hdr =
    { pkt.ip6Hdr with ip6Nxt := mem v.iovBase, ip6Plen := out.pkt.ip6Hdr.ip6Plen }
  plen : (ntohs out.pkt.ip6Hdr.ip6Plen).toNat + headerLen mem v =
    (ntohs pkt.ip6Hdr.ip6Plen).toNat
  iovLen : ∃ v', out.pkt.ip6Data = v' :: rest ∧ v'.iovLen.toNat + headerLen mem v = v.iovLen.toNat
  length : (flatten out.mem out.pkt.ip6Data).length + headerLen mem v =
    (flatten mem pkt.ip6Data).length
  payload : ∀ i, ¬UdpChecksum mem v i →
    (flatten out.mem out.pkt.ip6Data)[i]? = (flatten mem pkt.ip6Data)[headerLen mem v + i]?

/-- Two bytes that, as the checksum, make the datagram and its pseudo-header add up, whatever the
bytes at `iov_base[6]` and `iov_base[7]` count for before. -/
structure AddsUp (mem : Memory) (pkt : Ip6Packet) (v : Iov) (rest : List Iov) (high low : ℕ) :
    Prop where
  byte : low < 256
  small : 256 * high + low < 65535
  word : let b6 := (skipHeader mem v).iovBase + 6
    let b7 := (skipHeader mem v).iovBase + 7
    let ps := addresses (skipHeader mem v :: rest)
    (256 * high + low + total (pseudoHeader pkt.ip6Hdr ps.length ianaUdp ++ ps.map mem)) % 65535 =
      (weightAt ps b6 * (mem b6).toNat + weightAt ps b7 * (mem b7).toNat) % 65535

/-- The bytes at `iov_base[6]` and `iov_base[7]`, as far as they are in the rest of the payload at
another place than a checksum's, are what makes the datagram add up. -/
def SparesRest (mem : Memory) (pkt : Ip6Packet) (v : Iov) (rest : List Iov) : Prop :=
  let base := (skipHeader mem v).iovBase
  let chain := skipHeader mem v :: rest
  ∀ i, i ≠ 6 → i ≠ 7 →
    ((addresses chain)[i]? = some (base + 6) →
      ∃ low, AddsUp mem pkt v rest (mem (base + 6)).toNat low) ∧
    ((addresses chain)[i]? = some (base + 7) →
      ∃ high, AddsUp mem pkt v rest high (mem (base + 7)).toNat)

/-- The length byte is at most 30, the header is in the first piece, and the checksum of UDP changes
nothing else. -/
structure Removable (mem : Memory) (pkt : Ip6Packet) (v : Iov) (rest : List Iov) : Prop where
  short : (mem (v.iovBase + 1)).toNat ≤ 30
  whole : headerLen mem v ≤ v.iovLen.toNat
  udp : mem v.iovBase = ianaUdp → SparesRest mem pkt v rest

section
variable {lib : Library} {mem : Memory} {pkt : Ip6Packet} {v : Iov} {rest : List Iov}

theorem toNat_lengthInBytes (mem : Memory) (v : Iov) :
    (lengthInBytes mem v).toNat = headerLen mem v % 256 := by
  unfold lengthInBytes headerLen
  rw [UInt8.toNat_mul, UInt8.toNat_add]
  simp
  omega

theorem toNat_lengthInBytes_of_short (h : (mem (v.iovBase + 1)).toNat ≤ 30) :
    (lengthInBytes mem v).toNat = headerLen mem v := by
  rw [toNat_lengthInBytes]
  exact Nat.mod_eq_of_lt (by unfold headerLen; omega)

theorem stored_bytes (c : UInt16) : ((htons c).toUInt8).toNat = c.toNat / 256 ∧
    ((htons c >>> 8).toUInt8).toNat = c.toNat % 256 := by
  have hc := c.toNat_lt
  have hs := toNat_htons c
  constructor
  · rw [UInt16.toNat_toUInt8, hs]
    omega
  · have hdiv : (c.toNat % 256 * 256 + c.toNat / 256) / 2 ^ 8 = c.toNat % 256 := by omega
    have hshift : (8 : UInt16).toNat % 16 = 8 := rfl
    rw [UInt16.toNat_toUInt8, UInt16.toNat_shiftRight, hs, hshift, Nat.shiftRight_eq_div_pow,
      hdiv, Nat.mod_mod]

theorem pkt_removeHeader (lib : Library) (mem : Memory) (pkt : Ip6Packet) (v : Iov)
    (rest : List Iov) : (removeHeader lib mem pkt v rest).pkt =
    ⟨pkt.ip6Inputif, fixHeader mem v pkt.ip6Hdr, skipHeader mem v :: rest⟩ := by
  unfold removeHeader
  dsimp only
  split <;> rfl

theorem putChecksum_apply (mem : Memory) (base p : ℕ) (b6 b7 : UInt8) :
    putChecksum mem base b6 b7 p =
      if p = base + 6 then b6 else if p = base + 7 then b7 else mem p := by
  rcases eq_or_ne p (base + 7) with rfl | h7
  · rw [putChecksum, Function.update_self, if_neg (by omega), if_pos rfl]
  · rw [putChecksum, Function.update_of_ne h7, Function.update_apply, if_neg h7]

theorem putChecksum_putChecksum (mem : Memory) (base : ℕ) (b6 b7 c6 c7 : UInt8) :
    putChecksum (putChecksum mem base b6 b7) base c6 c7 = putChecksum mem base c6 c7 := by
  funext p
  rw [putChecksum_apply, putChecksum_apply, putChecksum_apply]
  split_ifs <;> rfl

/-- The checksum that is stored, over the bytes behind the header with the two at `iov_base[6]` and
`iov_base[7]` taken as zero. -/
def newChecksum (mem : Memory) (pkt : Ip6Packet) (v : Iov) (rest : List Iov) : UInt16 :=
  let chain := skipHeader mem v :: rest
  checksum (pseudoHeader pkt.ip6Hdr (addresses chain).length ianaUdp ++
    flatten (putChecksum mem (skipHeader mem v).iovBase 0 0) chain)

theorem length_pseudoHeader (hdr : Ip6Hdr) (len : ℕ) (nxt : UInt8) :
    (pseudoHeader hdr len nxt).length = 40 := by
  simp [pseudoHeader]

/-- The number of the protocol alone makes a sum that is not zero. -/
theorem total_pseudoHeader_ne (hdr : Ip6Hdr) (len : ℕ) (bs : List UInt8) :
    total (pseudoHeader hdr len ianaUdp ++ bs) ≠ 0 := by
  have heven : (hdr.ip6Src.toList ++ hdr.ip6Dst.toList ++ [UInt8.ofNat (len / 2 ^ 24),
      .ofNat (len / 2 ^ 16), .ofNat (len / 2 ^ 8), .ofNat len]).length % 2 = 0 := by simp
  have hlast : total [0, 0, 0, ianaUdp] = 17 := by decide
  rw [total_append (by rw [length_pseudoHeader]), pseudoHeader, total_append heven, hlast]
  omega

/-- The checksum makes the datagram add up, and nothing else does. -/
theorem newChecksum_mod (mem : Memory) (pkt : Ip6Packet) (v : Iov) (rest : List Iov) :
    let b6 := (skipHeader mem v).iovBase + 6
    let b7 := (skipHeader mem v).iovBase + 7
    let ps := addresses (skipHeader mem v :: rest)
    (newChecksum mem pkt v rest).toNat < 65535 ∧
      ((newChecksum mem pkt v rest).toNat +
          total (pseudoHeader pkt.ip6Hdr ps.length ianaUdp ++ ps.map mem)) % 65535 =
        (weightAt ps b6 * (mem b6).toNat + weightAt ps b7 * (mem b7).toNat) % 65535 := by
  intro b6 b7 ps
  have hpseudo : (pseudoHeader pkt.ip6Hdr ps.length ianaUdp).length % 2 = 0 := by
    rw [length_pseudoHeader]
  have hne : b7 ≠ b6 := by omega
  have h6 := total_update mem b6 0 ps
  have h7 := total_update (Function.update mem b6 0) b7 0 ps
  rw [Function.update_of_ne hne] at h7
  have hsum := checksum_mod (total_pseudoHeader_ne pkt.ip6Hdr ps.length
    (flatten (putChecksum mem (skipHeader mem v).iovBase 0 0) (skipHeader mem v :: rest)))
  rw [total_append hpseudo] at hsum ⊢
  change (newChecksum mem pkt v rest).toNat < 65535 ∧
    65535 ∣ (newChecksum mem pkt v rest).toNat + (_ + total (ps.map
      (Function.update (Function.update mem b6 0) b7 0))) at hsum
  have hzero : (0 : UInt8).toNat = 0 := rfl
  rw [hzero, Nat.mul_zero] at h6 h7
  obtain ⟨hlt, m, hm⟩ := hsum
  generalize weightAt ps b6 * (mem b6).toNat = x at h6 ⊢
  generalize weightAt ps b7 * (mem b7).toNat = y at h7 ⊢
  refine ⟨hlt, ?_⟩
  omega

theorem addsUp_iff (mem : Memory) (pkt : Ip6Packet) (v : Iov) (rest : List Iov) (high low : ℕ) :
    AddsUp mem pkt v rest high low ↔ (newChecksum mem pkt v rest).toNat / 256 = high ∧
      (newChecksum mem pkt v rest).toNat % 256 = low := by
  obtain ⟨hlt, hword⟩ := newChecksum_mod mem pkt v rest
  constructor
  · rintro ⟨hbyte, hsmall, hword'⟩
    have hmod : (newChecksum mem pkt v rest).toNat ≡ 256 * high + low [MOD 65535] :=
      Nat.ModEq.add_right_cancel' _ (hword.trans hword'.symm)
    have heq := Nat.ModEq.eq_of_lt_of_lt hmod hlt hsmall
    omega
  · rintro ⟨rfl, rfl⟩
    refine ⟨Nat.mod_lt _ (by decide), ?_, ?_⟩
    · omega
    · dsimp only at hword ⊢
      rw [Nat.div_add_mod]
      exact hword

theorem removeHeader_udp (pkt : Ip6Packet) (rest : List Iov) (hlib : lib.Documented)
    (hudp : mem v.iovBase = ianaUdp) :
    let c := htons (newChecksum mem pkt v rest)
    let base := (skipHeader mem v).iovBase
    (removeHeader lib mem pkt v rest).mem = putChecksum mem base c.toUInt8 (c >>> 8).toUInt8 ∧
      (removeHeader lib mem pkt v rest).written = [base + 6, base + 7] := by
  have hnxt : (fixHeader mem v pkt.ip6Hdr).ip6Nxt = ianaUdp := hudp
  unfold removeHeader
  dsimp only
  rw [if_pos hnxt]
  dsimp only
  rw [hlib.msgCksum, putChecksum_putChecksum]
  exact ⟨rfl, rfl⟩

theorem removeHeader_other (hudp : mem v.iovBase ≠ ianaUdp) :
    (removeHeader lib mem pkt v rest).mem = mem ∧
      (removeHeader lib mem pkt v rest).written = [] := by
  have hnxt : (fixHeader mem v pkt.ip6Hdr).ip6Nxt ≠ ianaUdp := hudp
  unfold removeHeader
  dsimp only
  rw [if_neg hnxt]
  exact ⟨rfl, rfl⟩

/-- The two lengths after the header is taken off are right just when it is short and whole. -/
theorem lengths_iff (h : Carries mem pkt v rest) :
    ((ntohs (fixHeader mem v pkt.ip6Hdr).ip6Plen).toNat + headerLen mem v =
          (ntohs pkt.ip6Hdr.ip6Plen).toNat ∧
        (skipHeader mem v).iovLen.toNat + headerLen mem v = v.iovLen.toNat) ↔
      (mem (v.iovBase + 1)).toNat ≤ 30 ∧ headerLen mem v ≤ v.iovLen.toNat := by
  have hbyte := (mem (v.iovBase + 1)).toNat_lt
  have hplen := h.plen
  have hfits := h.fits
  have hlen := toNat_lengthInBytes mem v
  have hle : (lengthInBytes mem v).toUInt16 ≤ ntohs pkt.ip6Hdr.ip6Plen := by
    rw [UInt16.le_iff_toNat_le, UInt8.toNat_toUInt16, hlen, hplen]
    exact (Nat.mod_le _ _).trans hfits
  have hplen' : (ntohs (fixHeader mem v pkt.ip6Hdr).ip6Plen).toNat =
      (ntohs pkt.ip6Hdr.ip6Plen).toNat - headerLen mem v % 256 := by
    rw [fixHeader, ntohs_htons, UInt16.toNat_sub_of_le _ _ hle, UInt8.toNat_toUInt16, hlen]
  rw [hplen', hplen]
  unfold headerLen at *
  constructor
  · rintro ⟨hp, hv⟩
    omega
  · rintro ⟨hshort, hwhole⟩
    have hle' : (lengthInBytes mem v).toUInt32 ≤ v.iovLen := by
      rw [UInt32.le_iff_toNat_le, UInt8.toNat_toUInt32, hlen]
      omega
    have hiov : (skipHeader mem v).iovLen.toNat =
        v.iovLen.toNat - (lengthInBytes mem v).toNat := by
      rw [skipHeader, UInt32.toNat_sub_of_le _ _ hle', UInt8.toNat_toUInt32]
    rw [hiov, hlen]
    omega

theorem addresses_skipHeader (rest : List Iov) (hshort : (mem (v.iovBase + 1)).toNat ≤ 30)
    (hwhole : headerLen mem v ≤ v.iovLen.toNat) :
    addresses (skipHeader mem v :: rest) = (addresses (v :: rest)).drop (headerLen mem v) := by
  have hlen := toNat_lengthInBytes_of_short hshort
  have hle : (lengthInBytes mem v).toUInt32 ≤ v.iovLen := by
    rw [UInt32.le_iff_toNat_le, UInt8.toNat_toUInt32, hlen]
    exact hwhole
  have hdrop := addresses_drop hle rest
  rw [UInt8.toNat_toUInt32, hlen] at hdrop
  rw [← hdrop, skipHeader, hlen]

theorem getElem?_flatten (mem : Memory) (chain : List Iov) (i : ℕ) :
    (flatten mem chain)[i]? = (addresses chain)[i]?.map mem := List.getElem?_map ..

theorem payload_iff (hdata : pkt.ip6Data = v :: rest) (hshort : (mem (v.iovBase + 1)).toNat ≤ 30)
    (hwhole : headerLen mem v ≤ v.iovLen.toNat) (mem' : Memory) (i : ℕ) :
    (flatten mem' (skipHeader mem v :: rest))[i]? =
        (flatten mem pkt.ip6Data)[headerLen mem v + i]? ↔
      ∀ a, (addresses (skipHeader mem v :: rest))[i]? = some a → mem' a = mem a := by
  have haddr := addresses_skipHeader rest hshort hwhole
  rw [getElem?_flatten, getElem?_flatten, hdata, haddr, List.getElem?_drop]
  cases (addresses (v :: rest))[headerLen mem v + i]? with
  | none => simp
  | some a => simp

/-- With UDP behind the header what is kept of the payload is what the checksum spares. -/
theorem sparesRest_iff (hlib : lib.Documented) (hudp : mem v.iovBase = ianaUdp) :
    SparesRest mem pkt v rest ↔ ∀ i, ¬UdpChecksum mem v i → ∀ a,
      (addresses (skipHeader mem v :: rest))[i]? = some a →
        (removeHeader lib mem pkt v rest).mem a = mem a := by
  obtain ⟨hhigh, hlow⟩ := stored_bytes (newChecksum mem pkt v rest)
  have hmem := (removeHeader_udp pkt rest hlib hudp).1
  constructor
  · intro hs i hi a ha
    have h67 : i ≠ 6 ∧ i ≠ 7 := not_or.mp fun h => hi ⟨hudp, h⟩
    obtain ⟨h6, h7⟩ := hs i h67.1 h67.2
    rw [hmem, putChecksum_apply]
    split_ifs with ha6 ha7
    · subst ha6
      obtain ⟨low, hadds⟩ := h6 ha
      rw [← UInt8.toNat_inj, hhigh]
      exact ((addsUp_iff ..).mp hadds).1
    · subst ha7
      obtain ⟨high, hadds⟩ := h7 ha
      rw [← UInt8.toNat_inj, hlow]
      exact ((addsUp_iff ..).mp hadds).2
    · rfl
  · intro hs i h6 h7
    have hi : ¬UdpChecksum mem v i := fun h => h.2.elim h6 h7
    constructor
    · intro ha
      have hkeep := hs i hi _ ha
      rw [hmem, putChecksum_apply, if_pos rfl] at hkeep
      rw [← hkeep, hhigh]
      exact ⟨_, (addsUp_iff ..).mpr ⟨rfl, rfl⟩⟩
    · intro ha
      have hkeep := hs i hi _ ha
      rw [hmem, putChecksum_apply, if_neg (by omega), if_pos rfl] at hkeep
      rw [← hkeep, hlow]
      exact ⟨_, (addsUp_iff ..).mpr ⟨rfl, rfl⟩⟩

/-- The packet after the removal is the old one without the header just when the header is short and
whole and the rest of the payload is spared. -/
theorem stripped_removeHeader (hlib : lib.Documented) (h : Carries mem pkt v rest) :
    Stripped mem pkt v rest (removeHeader lib mem pkt v rest) ↔ Removable mem pkt v rest := by
  have hpkt := pkt_removeHeader lib mem pkt v rest
  constructor
  · intro hs
    obtain ⟨v', hdata, hiov⟩ := hs.iovLen
    have hplen := hs.plen
    have hpayload := hs.payload
    rw [hpkt] at hdata hplen hpayload
    cases hdata
    obtain ⟨hshort, hwhole⟩ := (lengths_iff h).mp ⟨hplen, hiov⟩
    refine ⟨hshort, hwhole, ?_⟩
    intro hudp
    rw [sparesRest_iff hlib hudp]
    intro i hi
    exact (payload_iff h.data hshort hwhole _ i).mp (hpayload i hi)
  · intro hr
    obtain ⟨hplen, hiov⟩ := (lengths_iff h).mpr ⟨hr.short, hr.whole⟩
    constructor
    · rw [hpkt]
    · rw [hpkt]
      rfl
    · rw [hpkt]
      exact hplen
    · rw [hpkt]
      exact ⟨_, rfl, hiov⟩
    · rw [hpkt, length_flatten, length_flatten, h.data]
      rw [addresses_skipHeader rest hr.short hr.whole, List.length_drop]
      have hfits := h.fits
      rw [h.data] at hfits
      exact Nat.sub_add_cancel hfits
    · rw [hpkt]
      intro i hi
      rw [payload_iff h.data hr.short hr.whole]
      by_cases hudp : mem v.iovBase = ianaUdp
      · exact (sparesRest_iff hlib hudp).mp (hr.udp hudp) i hi
      · intro a _
        rw [(removeHeader_other hudp).1]

theorem dumpHopHopApprove_eq (hlib : lib.Documented) (h : Carries mem pkt v rest) :
    dumpHopHopApprove lib mem pkt = some (removeHeader lib mem pkt v rest) := by
  unfold dumpHopHopApprove
  dsimp only
  rw [h.nxt, h.data, hlib.findHeader, if_neg (lt_irrefl _), if_pos rfl]

theorem rplBorderRouterApprove_eq (hlib : lib.Documented) (h : Carries mem pkt v rest)
    {pfx : Option In6Addr} {nextHop : In6Addr} (hpass : turnedAway lib pfx pkt nextHop = false) :
    rplBorderRouterApprove lib mem pfx pkt nextHop =
      some (removeHeader lib mem pkt v rest) := by
  unfold rplBorderRouterApprove
  dsimp only
  rw [hpass, h.nxt, h.data, hlib.findHeader, if_neg (lt_irrefl _), if_pos rfl]
  rfl

theorem getElem?_skipHeader (rest : List Iov) (hshort : (mem (v.iovBase + 1)).toNat ≤ 30)
    (hroom : headerLen mem v + 8 ≤ v.iovLen.toNat) {k : ℕ} (hk : k < 8) :
    (addresses (skipHeader mem v :: rest))[k]? = some ((skipHeader mem v).iovBase + k) := by
  have hbase : (skipHeader mem v).iovBase = v.iovBase + headerLen mem v := by
    rw [skipHeader, toNat_lengthInBytes_of_short hshort]
  rw [addresses_skipHeader rest hshort (by omega), List.getElem?_drop, addresses_cons,
    addresses_eq_range', List.getElem?_append_left (by rw [List.length_range']; omega),
    List.getElem?_range' (by omega), hbase]
  congr 1
  omega

theorem nodup_skipHeader (hshort : (mem (v.iovBase + 1)).toNat ≤ 30)
    (hwhole : headerLen mem v ≤ v.iovLen.toNat) (hnodup : (addresses (v :: rest)).Nodup) :
    (addresses (skipHeader mem v :: rest)).Nodup := by
  rw [addresses_skipHeader rest hshort hwhole]
  exact hnodup.sublist (List.drop_sublist _ _)

/-- Then, if no byte lies in two places of the payload, the checksum spares the rest. -/
theorem sparesRest_of_room (hshort : (mem (v.iovBase + 1)).toNat ≤ 30)
    (hroom : headerLen mem v + 8 ≤ v.iovLen.toNat) (hnodup : (addresses (v :: rest)).Nodup) :
    SparesRest mem pkt v rest := by
  have hnodup' := nodup_skipHeader hshort (by omega) hnodup
  have honly {i k : ℕ} (hk : k < 8) (hi : (addresses (skipHeader mem v :: rest))[i]? =
      some ((skipHeader mem v).iovBase + k)) : i = k := by
    have hlen := (List.getElem?_eq_some_iff.mp hi).1
    have hplace := getElem?_skipHeader rest hshort hroom hk
    exact (List.getElem?_inj hlen hnodup').mp (hi.trans hplace.symm)
  intro i h6 h7
  exact ⟨fun hi => absurd (honly (by decide) hi) h6, fun hi => absurd (honly (by decide) hi) h7⟩

end

/-- Both components take off exactly the hop-by-hop header of those packets where it is short, whole
and the checksum spares the rest, and of no others. -/
theorem stripped_iff_removable (lib : Library) (hlib : lib.Documented) (mem : Memory)
    (pkt : Ip6Packet) (v : Iov) (rest : List Iov) (h : Carries mem pkt v rest) :
    (∃ out, dumpHopHopApprove lib mem pkt = some out ∧ out.verdict = true ∧
        (Stripped mem pkt v rest out ↔ Removable mem pkt v rest)) ∧
      ∀ pfx nextHop, turnedAway lib pfx pkt nextHop = false →
        ∃ out, rplBorderRouterApprove lib mem pfx pkt nextHop = some out ∧ out.verdict = true ∧
          (Stripped mem pkt v rest out ↔ Removable mem pkt v rest) := by
  have hverdict : (removeHeader lib mem pkt v rest).verdict = true := by
    unfold removeHeader
    dsimp only
    split <;> rfl
  have hiff := stripped_removeHeader hlib h
  constructor
  · exact ⟨_, dumpHopHopApprove_eq hlib h, hverdict, hiff⟩
  · intro pfx nextHop hpass
    exact ⟨_, rplBorderRouterApprove_eq hlib h hpass, hverdict, hiff⟩

/-- A library that does as documented where the header looked for is the first. -/
def sampleLibrary : Library where
  findHeader _ _ firstType searchType := if firstType = searchType then 0 else -1
  delTLV mem _ _ _ := mem
  msgCksum mem hdr chain nxt :=
    checksum (pseudoHeader hdr (addresses chain).length nxt ++ flatten mem chain)
  routeIfacePpp := 2
  rplHbhRankType := 0x63

theorem sampleLibrary_documented : sampleLibrary.Documented :=
  ⟨fun _ _ _ => rfl, fun _ _ _ _ => rfl⟩

/-- A packet of `len` bytes of payload in one piece that begins with a hop-by-hop header. -/
def samplePkt (len : ℕ) : Ip6Packet where
  ip6Inputif := 1
  ip6Hdr := ⟨.replicate 4 0x60, htons (.ofNat len), ipv6Hop, 64, .replicate 16 1, .replicate 16 2⟩
  ip6Data := [⟨0, .ofNat len⟩]

/-- No header follows, and the length byte is `extLen`. -/
def sampleMem (extLen : UInt8) : Memory := fun p => if p = 0 then 59 else if p = 1 then extLen else 7

theorem stripped_iff_removable_short :
    ∃ out, dumpHopHopApprove sampleLibrary (sampleMem 0) (samplePkt 12) = some out ∧
      Stripped (sampleMem 0) (samplePkt 12) ⟨0, 12⟩ [] out := by
  have hcarries : Carries (sampleMem 0) (samplePkt 12) ⟨0, 12⟩ [] :=
    ⟨rfl, rfl, by decide, by decide, by decide⟩
  obtain ⟨out, hout, -, hiff⟩ := (stripped_iff_removable sampleLibrary sampleLibrary_documented
    (sampleMem 0) (samplePkt 12) ⟨0, 12⟩ [] hcarries).1
  exact ⟨out, hout, hiff.mpr ⟨by decide, by decide, fun h => absurd h (by decide)⟩⟩

/-- A header of 256 bytes, length byte 31: nothing is taken off, and the first bytes of the header
stand where the next one is named. -/
theorem long_header_kept :
    let mem := sampleMem 31
    let pkt := samplePkt 260
    Carries mem pkt ⟨0, 260⟩ [] ∧
      ∃ out, dumpHopHopApprove sampleLibrary mem pkt = some out ∧
        out.pkt = { pkt with ip6Hdr := { pkt.ip6Hdr with ip6Nxt := 59 } } ∧ out.mem = mem ∧
        ¬Stripped mem pkt ⟨0, 260⟩ [] out := by
  intro mem pkt
  have hcarries : Carries mem pkt ⟨0, 260⟩ [] :=
    ⟨rfl, rfl, by decide, by decide +kernel, by decide +kernel⟩
  refine ⟨hcarries, _, dumpHopHopApprove_eq sampleLibrary_documented hcarries, ?_, ?_, ?_⟩
  · decide +kernel
  · exact (removeHeader_other (by decide)).1
  · rw [stripped_removeHeader sampleLibrary_documented hcarries]
    intro hr
    exact absurd hr.short (by decide)

end RpiCc2520.HopByHop
