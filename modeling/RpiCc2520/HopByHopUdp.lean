import RpiCc2520.HopByHop

/-! UDP behind a hop-by-hop header: what taking the header off does to the checksum of the datagram
and to the memory around it. -/
namespace RpiCc2520.HopByHopUdp
open IovChain Ip6Structs OnesComplement HopByHop

def datagram (mem : Memory) (v : Iov) (rest : List Iov) : List Iov := skipHeader mem v :: rest

/-- A checksum that is there and right. -/
structure GoodChecksum (mem : Memory) (hdr : Ip6Hdr) (chain : List Iov) : Prop where
  nonzero : ¬((flatten mem chain)[6]? = some 0 ∧ (flatten mem chain)[7]? = some 0)
  verifies : Verifies (pseudoHeader hdr (addresses chain).length ianaUdp ++ flatten mem chain)

/-- A packet with a UDP datagram behind a header that is taken off exactly. -/
structure CarriesUdp (mem : Memory) (pkt : Ip6Packet) (v : Iov) (rest : List Iov) : Prop where
  carries : Carries mem pkt v rest
  short : (mem (v.iovBase + 1)).toNat ≤ 30
  whole : headerLen mem v ≤ v.iovLen.toNat
  udp : mem v.iovBase = ianaUdp
  header : 8 ≤ (addresses (datagram mem v rest)).length
  good : GoodChecksum mem pkt.ip6Hdr (datagram mem v rest)

/-- The datagram comes out with a good checksum and its other bytes, and nothing else was written
to. -/
structure Survives (mem : Memory) (pkt : Ip6Packet) (v : Iov) (out : Approved) : Prop where
  good : GoodChecksum out.mem out.pkt.ip6Hdr out.pkt.ip6Data
  length : (flatten out.mem out.pkt.ip6Data).length + headerLen mem v =
    (flatten mem pkt.ip6Data).length
  kept : ∀ i, i ≠ 6 → i ≠ 7 →
    (flatten out.mem out.pkt.ip6Data)[i]? = (flatten mem pkt.ip6Data)[headerLen mem v + i]?
  inside : ∀ a ∈ out.written, a ∈ addresses out.pkt.ip6Data

/-- The two bytes the checksum is stored in belong to the datagram, and what they hold is, modulo
65535, what they count for in the sum. -/
structure Recomputes (mem : Memory) (v : Iov) (rest : List Iov) : Prop where
  high : (skipHeader mem v).iovBase + 6 ∈ addresses (datagram mem v rest)
  low : (skipHeader mem v).iovBase + 7 ∈ addresses (datagram mem v rest)
  word : let b6 := (skipHeader mem v).iovBase + 6
    let b7 := (skipHeader mem v).iovBase + 7
    let ps := addresses (datagram mem v rest)
    (weightAt ps b6 * (mem b6).toNat + weightAt ps b7 * (mem b7).toNat) % 65535 =
      256 * (mem b6).toNat + (mem b7).toNat

section
variable {lib : Library} {mem : Memory} {pkt : Ip6Packet} {v : Iov} {rest : List Iov}

/-- Of a datagram that adds up, the checksum is what the bytes it is stored in count for. -/
theorem toNat_newChecksum (h : CarriesUdp mem pkt v rest) :
    let b6 := (skipHeader mem v).iovBase + 6
    let b7 := (skipHeader mem v).iovBase + 7
    let ps := addresses (datagram mem v rest)
    (newChecksum mem pkt v rest).toNat =
      (weightAt ps b6 * (mem b6).toNat + weightAt ps b7 * (mem b7).toNat) % 65535 := by
  intro b6 b7 ps
  obtain ⟨hlt, hword⟩ := newChecksum_mod mem pkt v rest
  obtain ⟨n, hn⟩ := ((verifies_iff _).mp h.good.verifies).2
  change total (pseudoHeader pkt.ip6Hdr ps.length ianaUdp ++ ps.map mem) = 65535 * n at hn
  change (_ + total (pseudoHeader pkt.ip6Hdr ps.length ianaUdp ++ ps.map mem)) % 65535 =
    (weightAt ps b6 * (mem b6).toNat + weightAt ps b7 * (mem b7).toNat) % 65535 at hword
  rw [hn] at hword
  omega

theorem removeHeader_cases (hlib : lib.Documented) (h : CarriesUdp mem pkt v rest) :
    let out := removeHeader lib mem pkt v rest
    let c := htons (newChecksum mem pkt v rest)
    let base := (skipHeader mem v).iovBase
    out.pkt.ip6Data = datagram mem v rest ∧
      (∀ len nxt, pseudoHeader out.pkt.ip6Hdr len nxt = pseudoHeader pkt.ip6Hdr len nxt) ∧
      out.mem = putChecksum mem base c.toUInt8 (c >>> 8).toUInt8 ∧
      out.written = [base + 6, base + 7] := by
  have hudp := removeHeader_udp pkt rest hlib h.udp
  have hpkt := pkt_removeHeader lib mem pkt v rest
  refine ⟨?_, ?_, hudp⟩
  · rw [hpkt]
    rfl
  · rw [hpkt]
    intro len nxt
    rfl

theorem putChecksum_eq_iff (mem : Memory) (c : UInt16) (base : ℕ) :
    putChecksum mem base (htons c).toUInt8 (htons c >>> 8).toUInt8 = mem ↔
      c.toNat = 256 * (mem (base + 6)).toNat + (mem (base + 7)).toNat := by
  obtain ⟨hhigh, hlow⟩ := stored_bytes c
  have h6 := (mem (base + 6)).toNat_lt
  have h7 := (mem (base + 7)).toNat_lt
  constructor
  · intro he
    have he6 := congrFun he (base + 6)
    have he7 := congrFun he (base + 7)
    rw [putChecksum_apply, if_pos rfl] at he6
    rw [putChecksum_apply, if_neg (by omega), if_pos rfl] at he7
    rw [← he6, ← he7, hhigh, hlow]
    omega
  · intro he
    funext p
    rw [putChecksum_apply]
    split_ifs with hp6 hp7
    · rw [hp6, ← UInt8.toNat_inj, hhigh, he]
      omega
    · rw [hp7, ← UInt8.toNat_inj, hlow, he]
      omega
    · rfl

theorem split_word (bs : List UInt8) (h : 8 ≤ bs.length) :
    ∃ a b, bs[6]? = some a ∧ bs[7]? = some b ∧ bs = bs.take 6 ++ a :: b :: bs.drop 8 := by
  refine ⟨bs[6], bs[7], List.getElem?_eq_getElem _, List.getElem?_eq_getElem _, ?_⟩
  rw [← List.drop_eq_getElem_cons (i := 7), ← List.drop_eq_getElem_cons (i := 6),
    List.take_append_drop]

/-- Two good checksums of a datagram with the same other bytes are the same. -/
theorem eq_of_good {hdr : Ip6Hdr} {chain : List Iov} {mem' : Memory}
    (hlen : 8 ≤ (addresses chain).length) (h : GoodChecksum mem hdr chain)
    (h' : GoodChecksum mem' hdr chain)
    (kept : ∀ i, i ≠ 6 → i ≠ 7 → (flatten mem' chain)[i]? = (flatten mem chain)[i]?) :
    flatten mem' chain = flatten mem chain := by
  obtain ⟨a, b, ha, hb, hbs⟩ := split_word (flatten mem chain) (by rwa [length_flatten])
  obtain ⟨a', b', ha', hb', hbs'⟩ := split_word (flatten mem' chain) (by rwa [length_flatten])
  have htake : (flatten mem' chain).take 6 = (flatten mem chain).take 6 := by
    refine List.ext_getElem? ?_
    intro i
    rw [List.getElem?_take, List.getElem?_take]
    split_ifs
    · exact kept i (by omega) (by omega)
    · rfl
  have hdrop : (flatten mem' chain).drop 8 = (flatten mem chain).drop 8 := by
    refine List.ext_getElem? ?_
    intro i
    rw [List.getElem?_drop, List.getElem?_drop]
    exact kept _ (by omega) (by omega)
  have hne := h.nonzero
  have hne' := h'.nonzero
  have hver := h.verifies
  have hver' := h'.verifies
  rw [ha, hb, Option.some.injEq, Option.some.injEq] at hne
  rw [ha', hb', Option.some.injEq, Option.some.injEq] at hne'
  rw [hbs, ← List.append_assoc] at hver
  rw [hbs', htake, hdrop, ← List.append_assoc] at hver'
  have heven : (pseudoHeader hdr (addresses chain).length ianaUdp ++
      (flatten mem chain).take 6).length % 2 = 0 := by
    rw [List.length_append, length_pseudoHeader, List.length_take, length_flatten]
    omega
  obtain ⟨rfl, rfl⟩ := word_unique heven hver hver' hne hne'
  rw [hbs, hbs', htake, hdrop]

theorem survives_removeHeader (hlib : lib.Documented) (h : CarriesUdp mem pkt v rest) :
    Survives mem pkt v (removeHeader lib mem pkt v rest) ↔ Recomputes mem v rest := by
  obtain ⟨hdata, hpseudo, hmem, hwritten⟩ := removeHeader_cases hlib h
  have hsame := putChecksum_eq_iff mem (newChecksum mem pkt v rest)
    (skipHeader mem v).iovBase
  rw [← hmem, toNat_newChecksum h] at hsame
  have hpayload := payload_iff h.carries.data h.short h.whole
  have hflat (i : ℕ) : (flatten mem pkt.ip6Data)[headerLen mem v + i]? =
      (flatten mem (datagram mem v rest))[i]? :=
    ((hpayload mem i).mpr fun _ _ => rfl).symm
  constructor
  · intro hs
    have hinside := hs.inside
    rw [hwritten, hdata] at hinside
    have h6 := hinside _ List.mem_cons_self
    have h7 := hinside _ (List.mem_cons_of_mem _ List.mem_cons_self)
    refine ⟨h6, h7, hsame.mp ?_⟩
    obtain ⟨hnonzero, hverifies⟩ := hs.good
    rw [hdata] at hnonzero hverifies
    rw [hpseudo] at hverifies
    have hkept := hs.kept
    rw [hdata] at hkept
    have heq := eq_of_good h.header h.good ⟨hnonzero, hverifies⟩
      fun i hi6 hi7 => (hkept i hi6 hi7).trans (hflat i)
    have hbytes : ∀ a ∈ addresses (datagram mem v rest),
        (removeHeader lib mem pkt v rest).mem a = mem a := List.map_inj_left.mp heq
    funext p
    by_cases hp : p ∈ addresses (datagram mem v rest)
    · exact hbytes p hp
    · have hp6 : p ≠ (skipHeader mem v).iovBase + 6 := ne_of_mem_of_not_mem h6 hp |>.symm
      have hp7 : p ≠ (skipHeader mem v).iovBase + 7 := ne_of_mem_of_not_mem h7 hp |>.symm
      rw [hmem, putChecksum_apply, if_neg hp6, if_neg hp7]
  · intro hr
    have hkeep := hsame.mpr hr.word
    constructor
    · rw [hkeep, hdata]
      refine ⟨h.good.nonzero, ?_⟩
      rw [hpseudo]
      exact h.good.verifies
    · rw [hkeep, hdata, datagram, length_flatten, length_flatten, h.carries.data,
        addresses_skipHeader rest h.short h.whole, List.length_drop]
      have hfits := h.carries.fits
      rw [h.carries.data] at hfits
      exact Nat.sub_add_cancel hfits
    · intro i _ _
      rw [hkeep, hdata, hflat]
    · rw [hwritten, hdata]
      exact List.forall_mem_cons.mpr ⟨hr.high, List.forall_mem_singleton.mpr hr.low⟩

/-- Where the first piece holds the header and the eight bytes of UDP's, and no byte lies in two
places, only a checksum of all ones is lost. -/
theorem recomputes_iff_of_room (h : CarriesUdp mem pkt v rest)
    (hroom : headerLen mem v + 8 ≤ v.iovLen.toNat) (hnodup : (addresses (v :: rest)).Nodup) :
    Recomputes mem v rest ↔ ¬((flatten mem (datagram mem v rest))[6]? = some 0xff ∧
      (flatten mem (datagram mem v rest))[7]? = some 0xff) := by
  have hnodup' := nodup_skipHeader h.short h.whole hnodup
  have h6 := getElem?_skipHeader rest h.short hroom (k := 6) (by decide)
  have h7 := getElem?_skipHeader rest h.short hroom (k := 7) (by decide)
  have hw6 := weightAt_of_nodup hnodup' h6
  have hw7 := weightAt_of_nodup hnodup' h7
  have hx := (mem ((skipHeader mem v).iovBase + 6)).toNat_lt
  have hy := (mem ((skipHeader mem v).iovBase + 7)).toNat_lt
  have hones : (0xff : UInt8).toNat = 255 := rfl
  rw [getElem?_flatten, getElem?_flatten, datagram, h6, h7, Option.map_some, Option.map_some,
    Option.some.injEq, Option.some.injEq, ← UInt8.toNat_inj, ← UInt8.toNat_inj, hones]
  constructor
  · intro hr
    have hword := hr.word
    dsimp only [datagram] at hword
    rw [hw6, hw7] at hword
    simp only [Nat.reduceMod, if_true, Nat.reduceEqDiff, if_false] at hword
    omega
  · intro hne
    refine ⟨List.mem_of_getElem? h6, List.mem_of_getElem? h7, ?_⟩
    dsimp only [datagram]
    rw [hw6, hw7]
    simp only [Nat.reduceMod, if_true, Nat.reduceEqDiff, if_false]
    omega

end

/-- UDP comes through both components with a good checksum exactly where the bytes the checksum is
stored in belong to the datagram and hold what they count for. -/
theorem survives_iff_recomputes (lib : Library) (hlib : lib.Documented) (mem : Memory)
    (pkt : Ip6Packet) (v : Iov) (rest : List Iov) (h : CarriesUdp mem pkt v rest) :
    (∃ out, dumpHopHopApprove lib mem pkt = some out ∧
        (Survives mem pkt v out ↔ Recomputes mem v rest)) ∧
      ∀ pfx nextHop, turnedAway lib pfx pkt nextHop = false →
        ∃ out, rplBorderRouterApprove lib mem pfx pkt nextHop = some out ∧
          (Survives mem pkt v out ↔ Recomputes mem v rest) := by
  have hiff := survives_removeHeader hlib h
  constructor
  · exact ⟨_, dumpHopHopApprove_eq hlib h.carries, hiff⟩
  · intro pfx nextHop hpass
    exact ⟨_, rplBorderRouterApprove_eq hlib h.carries hpass, hiff⟩

def sampleUdpMem (udp : ℕ) (bytes : List UInt8) : Memory := fun p =>
  if p < 8 then [17, 0, 1, 4, 0, 0, 0, 0].getD p 0 else bytes.getD (p - udp) 0

/-- From port 1 to port 2, without data. -/
def sampleDatagram : List UInt8 := [0, 1, 0, 2, 0, 8, 0xe7, 0xc3]

/-- The same with a source port for which the checksum is computed as zero and sent as all ones. -/
def onesDatagram : List UInt8 := [0xe7, 0xc6, 0, 0, 0, 8, 0xff, 0xff]

theorem survives_iff_recomputes_room :
    ∃ out, dumpHopHopApprove sampleLibrary (sampleUdpMem 8 sampleDatagram) (samplePkt 16) =
        some out ∧
      Survives (sampleUdpMem 8 sampleDatagram) (samplePkt 16) ⟨0, 16⟩ out := by
  have hcarries : CarriesUdp (sampleUdpMem 8 sampleDatagram) (samplePkt 16) ⟨0, 16⟩ [] :=
    ⟨⟨rfl, rfl, by decide, by decide, by decide⟩, by decide, by decide, by decide, by decide,
      ⟨by decide, by decide +kernel⟩⟩
  obtain ⟨out, hout, hiff⟩ := (survives_iff_recomputes sampleLibrary sampleLibrary_documented
    (sampleUdpMem 8 sampleDatagram) (samplePkt 16) ⟨0, 16⟩ [] hcarries).1
  exact ⟨out, hout, hiff.mpr ⟨by decide, by decide, by decide +kernel⟩⟩

/-- A checksum of all ones comes out as zero. A datagram in a piece of its own keeps its checksum,
but two bytes behind the header's piece are written to. -/
theorem checksum_lost_or_stray :
    let ones := sampleUdpMem 8 onesDatagram
    let apart := sampleUdpMem 100 sampleDatagram
    let pkt : Ip6Packet := { samplePkt 16 with ip6Data := [⟨0, 8⟩, ⟨100, 8⟩] }
    (CarriesUdp ones (samplePkt 16) ⟨0, 16⟩ [] ∧
      ∃ out, dumpHopHopApprove sampleLibrary ones (samplePkt 16) = some out ∧
        flatten out.mem out.pkt.ip6Data = [0xe7, 0xc6, 0, 0, 0, 8, 0, 0] ∧
        ¬Survives ones (samplePkt 16) ⟨0, 16⟩ out) ∧
    CarriesUdp apart pkt ⟨0, 8⟩ [⟨100, 8⟩] ∧
      ∃ out, dumpHopHopApprove sampleLibrary apart pkt = some out ∧
        out.pkt.ip6Data = [⟨8, 0⟩, ⟨100, 8⟩] ∧ out.written = [14, 15] ∧
        ¬Survives apart pkt ⟨0, 8⟩ out := by
  intro ones apart pkt
  constructor
  · have hcarries : CarriesUdp ones (samplePkt 16) ⟨0, 16⟩ [] :=
      ⟨⟨rfl, rfl, by decide, by decide, by decide⟩, by decide, by decide, by decide, by decide,
        ⟨by decide, by decide +kernel⟩⟩
    refine ⟨hcarries, _, dumpHopHopApprove_eq sampleLibrary_documented hcarries.carries,
      by decide +kernel, ?_⟩
    intro hs
    exact hs.good.nonzero (by decide +kernel)
  · have hcarries : CarriesUdp apart pkt ⟨0, 8⟩ [⟨100, 8⟩] :=
      ⟨⟨rfl, rfl, by decide, by decide, by decide⟩, by decide, by decide, by decide, by decide,
        ⟨by decide, by decide +kernel⟩⟩
    refine ⟨hcarries, _, dumpHopHopApprove_eq sampleLibrary_documented hcarries.carries,
      by decide +kernel, by decide +kernel, ?_⟩
    intro hs
    exact absurd (hs.inside 14 (by decide +kernel)) (by decide +kernel)

end RpiCc2520.HopByHopUdp
