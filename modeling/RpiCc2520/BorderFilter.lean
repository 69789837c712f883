import RpiCc2520.HopByHop

/-! What the border lets out by the default route: the destinations that belong inside, and the
packets of theirs that get out all the same. -/
namespace RpiCc2520.BorderFilter
open IovChain Ip6Structs HopByHop

/-- The next hop of the default route. -/
def anyAddr : In6Addr := .replicate 16 0

/-- `fe80::/10`. -/
def LinkLocal (dst : In6Addr) : Prop := dst.get 0 = 0xfe ∧ dst.get 1 &&& 0xc0 = 0x80

/-- The /64 of the network. -/
def OwnNetwork (pfx dst : In6Addr) : Prop := dst.toList.take 8 = pfx.toList.take 8

/-- Where a packet is for that must not leave. -/
def Inside (pfx : Option In6Addr) (dst : In6Addr) : Prop :=
  LinkLocal dst ∨ ∃ p, pfx = some p ∧ OwnNetwork p dst

/-- A verdict that keeps inside what belongs there and lets everything else pass. -/
structure Filters (lib : Library) (pfx : Option In6Addr) (pkt : Ip6Packet) (nextHop : In6Addr)
    (verdict : Bool) : Prop where
  keeps : nextHop = anyAddr → Inside pfx pkt.ip6Hdr.ip6Dst → verdict = false
  passes : pkt.ip6Inputif ≠ lib.routeIfacePpp →
    nextHop ≠ anyAddr ∨ ¬Inside pfx pkt.ip6Hdr.ip6Dst → verdict = true

/-- A link-local packet for the default route while no prefix is known, or for an address of
`fe80::/10` that does not begin with `fe80`. -/
structure Leaks (lib : Library) (pfx : Option In6Addr) (pkt : Ip6Packet) (nextHop : In6Addr) :
    Prop where
  inputif : pkt.ip6Inputif ≠ lib.routeIfacePpp
  leaves : nextHop = anyAddr
  linkLocal : LinkLocal pkt.ip6Hdr.ip6Dst
  unseen : ∀ p, pfx = some p → ¬OwnNetwork p pkt.ip6Hdr.ip6Dst ∧ pkt.ip6Hdr.ip6Dst.get 1 ≠ 0x80

/-- A packet to be let through from which a header is to be taken out, without a payload that it
could stand in. -/
structure Stranded (lib : Library) (mem : Memory) (pfx : Option In6Addr) (pkt : Ip6Packet)
    (nextHop : In6Addr) : Prop where
  inputif : pkt.ip6Inputif ≠ lib.routeIfacePpp
  passes : nextHop ≠ anyAddr ∨ ¬Inside pfx pkt.ip6Hdr.ip6Dst
  data : pkt.ip6Data = []
  found : lib.findHeader mem [] pkt.ip6Hdr.ip6Nxt ipv6Hop = 0

variable {lib : Library} {mem : Memory} {pfx : Option In6Addr} {pkt : Ip6Packet}
  {nextHop : In6Addr}

theorem turnedAway_iff : turnedAway lib pfx pkt nextHop = true ↔
    pkt.ip6Inputif = lib.routeIfacePpp ∨ nextHop = anyAddr ∧ ∃ p, pfx = some p ∧
      (OwnNetwork p pkt.ip6Hdr.ip6Dst ∨
        pkt.ip6Hdr.ip6Dst.get 0 = 0xfe ∧ pkt.ip6Hdr.ip6Dst.get 1 = 0x80) := by
  unfold turnedAway
  by_cases hif : pkt.ip6Inputif = lib.routeIfacePpp
  · simp [hif]
  · rw [if_neg hif]
    cases pfx with
    | none => simp [hif]
    | some p => simp [hif, anyAddr, OwnNetwork, Vector.get_eq_getElem]

/-- The verdict is that of the filter; what follows it only rewrites the packet, if it can. -/
theorem verdict_approve (P : Bool → Prop) :
    (∃ out, rplBorderRouterApprove lib mem pfx pkt nextHop = some out ∧ P out.verdict) ↔
      P (!turnedAway lib pfx pkt nextHop) ∧ (turnedAway lib pfx pkt nextHop = false →
        pkt.ip6Data = [] → lib.findHeader mem [] pkt.ip6Hdr.ip6Nxt ipv6Hop ≠ 0) := by
  unfold rplBorderRouterApprove
  cases hturned : turnedAway lib pfx pkt nextHop with
  | true => simp
  | false =>
    rw [if_neg Bool.false_ne_true]
    dsimp only
    cases hdata : pkt.ip6Data with
    | nil =>
      split_ifs with hneg hzero
      · have hne : lib.findHeader mem [] pkt.ip6Hdr.ip6Nxt ipv6Hop ≠ 0 := hneg.ne
        simp [hne]
      · simp [hzero]
      · simp [hzero]
    | cons v rest =>
      have hverdict : (removeHeader lib mem pkt v rest).verdict = true := by
        unfold removeHeader
        dsimp only
        split <;> rfl
      split_ifs with hneg hzero
      · simp
      · simp [hverdict]
      · simp

theorem linkLocal_of_fe80 {dst : In6Addr} (h0 : dst.get 0 = 0xfe) (h1 : dst.get 1 = 0x80) :
    LinkLocal dst := by
  refine ⟨h0, ?_⟩
  rw [h1]
  rfl

theorem inside_of_turnedAway (hif : pkt.ip6Inputif ≠ lib.routeIfacePpp)
    (h : turnedAway lib pfx pkt nextHop = true) :
    nextHop = anyAddr ∧ Inside pfx pkt.ip6Hdr.ip6Dst := by
  obtain ⟨hhop, p, hp, hdst⟩ := (turnedAway_iff.mp h).resolve_left hif
  refine ⟨hhop, ?_⟩
  rcases hdst with hown | ⟨h0, h1⟩
  · exact .inr ⟨p, hp, hown⟩
  · exact .inl (linkLocal_of_fe80 h0 h1)

theorem leaks_iff : Leaks lib pfx pkt nextHop ↔ nextHop = anyAddr ∧
    Inside pfx pkt.ip6Hdr.ip6Dst ∧ turnedAway lib pfx pkt nextHop = false := by
  rw [← Bool.not_eq_true, turnedAway_iff, not_or]
  constructor
  · intro h
    refine ⟨h.leaves, .inl h.linkLocal, h.inputif, ?_⟩
    rintro ⟨-, p, hp, hown | ⟨-, h1⟩⟩
    · exact (h.unseen p hp).1 hown
    · exact (h.unseen p hp).2 h1
  · rintro ⟨hhop, hinside, hif, hpass⟩
    have hunseen (p : In6Addr) (hp : pfx = some p) : ¬OwnNetwork p pkt.ip6Hdr.ip6Dst :=
      fun hown => hpass ⟨hhop, p, hp, .inl hown⟩
    have hlocal : LinkLocal pkt.ip6Hdr.ip6Dst := by
      rcases hinside with hlocal | ⟨p, hp, hown⟩
      · exact hlocal
      · exact absurd hown (hunseen p hp)
    exact ⟨hif, hhop, hlocal, fun p hp =>
      ⟨hunseen p hp, fun h1 => hpass ⟨hhop, p, hp, .inr ⟨hlocal.1, h1⟩⟩⟩⟩

theorem filters_turnedAway_iff :
    Filters lib pfx pkt nextHop (!turnedAway lib pfx pkt nextHop) ↔
      ¬Leaks lib pfx pkt nextHop := by
  rw [leaks_iff]
  constructor
  · rintro h ⟨hhop, hinside, hpass⟩
    have hkept := h.keeps hhop hinside
    rw [hpass] at hkept
    cases hkept
  · intro hleak
    constructor
    · intro hhop hinside
      have hturned : turnedAway lib pfx pkt nextHop = true := by
        by_contra hpass
        exact hleak ⟨hhop, hinside, Bool.eq_false_iff.mpr hpass⟩
      rw [hturned]
      rfl
    · intro hif hout
      have hpass : turnedAway lib pfx pkt nextHop = false := by
        by_contra hturned
        obtain ⟨hhop, hinside⟩ := inside_of_turnedAway hif (Bool.eq_true_of_not_eq_false hturned)
        exact hout.elim (absurd hhop) (absurd hinside)
      rw [hpass]
      rfl

/-- The border filters as it should exactly where no link-local packet gets out and no header is to
be taken out of nothing. -/
theorem filters_iff (lib : Library) (mem : Memory) (pfx : Option In6Addr) (pkt : Ip6Packet)
    (nextHop : In6Addr) :
    (∃ out, rplBorderRouterApprove lib mem pfx pkt nextHop = some out ∧
      Filters lib pfx pkt nextHop out.verdict) ↔
    ¬Leaks lib pfx pkt nextHop ∧ ¬Stranded lib mem pfx pkt nextHop := by
  rw [verdict_approve, filters_turnedAway_iff]
  refine and_congr_right fun hleak => ?_
  constructor
  · intro hfound hstranded
    refine hfound ?_ hstranded.data hstranded.found
    by_contra hturned
    obtain ⟨hhop, hinside⟩ :=
      inside_of_turnedAway hstranded.inputif (Bool.eq_true_of_not_eq_false hturned)
    exact hstranded.passes.elim (absurd hhop) (absurd hinside)
  · intro hstranded hpass hdata hzero
    refine hstranded ⟨fun hif => ?_, ?_, hdata, hzero⟩
    · have hturned : turnedAway lib pfx pkt nextHop = true := turnedAway_iff.mpr (.inl hif)
      rw [hpass] at hturned
      cases hturned
    · by_contra hinside
      rw [not_or, not_not, not_not] at hinside
      exact hleak (leaks_iff.mpr ⟨hinside.1, hinside.2, hpass⟩)

def packetTo (dst : In6Addr) : Ip6Packet :=
  let pkt := samplePkt 12
  { pkt with ip6Hdr := { pkt.ip6Hdr with ip6Dst := dst } }

def linkLocalAddr : In6Addr := ⟨#[0xfe, 0x80, 0, 0, 0, 0, 0, 0, 0, 0, 0, 0, 0, 0, 0, 1], rfl⟩

/-- Before a prefix is known `fe80::1` is let out. -/
theorem linkLocal_leaves : ∃ out, rplBorderRouterApprove sampleLibrary (sampleMem 0) none
    (packetTo linkLocalAddr) anyAddr = some out ∧ out.verdict = true ∧
      ¬Filters sampleLibrary none (packetTo linkLocalAddr) anyAddr out.verdict := by
  refine ⟨_, rfl, rfl, ?_⟩
  intro h
  exact absurd (h.keeps rfl (.inl ⟨rfl, rfl⟩)) (by decide)

end RpiCc2520.BorderFilter
