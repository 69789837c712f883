import RpiCc2520.TunnelPrefixFile
import RpiCc2520.TunnelPrefixText

/-! The addresses of the tunnel's clients over the whole life of the server: clients connect again
and again, the server is restarted, and every client keeps the address it took from its first
reply. -/
namespace RpiCc2520.TunnelAddresses
open AddressBytes BytePipe Ip6Text JsonText TextWords TunnelHandshake TunnelPrefix TunnelPrefixText
open TunnelPrefixReply (Holds Stack emptyStack prefixLen recvLen)

/-- The server's library: `net.IP.String` as it is, and a JSON text of the assignments. -/
def library (marshal : Assignments → List UInt8) (unmarshal : List UInt8 → Option Assignments) :
    TunnelPrefix.Library := ⟨ipString, marshal, unmarshal⟩

/-- The server, running or not; the buffer `prefix` of each client, by its id; the replies sent so
far, newest first. -/
structure Tunnels where
  pm : PrefixManager
  running : Bool
  prefixbuf : String → ℕ → UInt8
  replies : List (String × String)

/-- A client connects and reads the whole reply, or the server is started again. -/
inductive Event
  | connect (id : String) (stack : Stack)
  | restart

/-- Without a prefix left the process ends. -/
def step (lib : TunnelPrefix.Library) (range : Cidr) (s : Tunnels) : Event → Option Tunnels
  | .connect id stack =>
      if s.running then
        (getPrefix lib id s.pm).map fun (answer, pm) =>
          match answer with
          | .error _ => { s with running := false }
          | .ok p => ⟨pm, true,
              Function.update s.prefixbuf id
                (readPrefix stack (recv recvLen (object "Prefix" p)) (s.prefixbuf id)).2,
              (id, p) :: s.replies⟩
      else none
  | .restart => some { s with pm := create lib s.pm.prefixfile range, running := true }

/-- A file without assignments that the text of some covers. -/
structure Fresh (lib : TunnelPrefix.Library) (file : List UInt8) : Prop where
  nothing : (lib.unmarshal (file.take assignbufLen)).getD ∅ = ∅
  short : ∀ m, m ≠ ∅ → file.length ≤ (lib.marshal m).length

/-- The first start, before any client has connected. -/
def Booted (lib : TunnelPrefix.Library) (range : Cidr) (s : Tunnels) : Prop :=
  ∃ file, Fresh lib file ∧ s = ⟨create lib file range, true, fun _ _ => 0, []⟩

def machine (lib : TunnelPrefix.Library) (range : Cidr) : Machine Tunnels Event :=
  ⟨Booted lib range, step lib range⟩

/-- The server is restarted while the text of the assignments fits the buffer it is read into. -/
def FileFits (lib : TunnelPrefix.Library) (s : Tunnels) : Event → Prop
  | .restart => (lib.marshal s.pm.prefixes).length ≤ assignbufLen
  | .connect _ _ => True

def clientAddress (cmdbuf prefixbuf : ℕ → UInt8) : Option (List UInt8) :=
  ((words blank (cString (addCommand cmdbuf prefixbuf) cmdbufLen))[4]?).bind parseIP

/-- A client is told one prefix only. Its address is in the range and in the network the server
routes for it, and in no network routed for another. -/
structure Addressed (range : Cidr) (s : Tunnels) : Prop where
  one : ∀ id p p', (id, p) ∈ s.replies → (id, p') ∈ s.replies → p = p'
  address : ∀ id p, (id, p) ∈ s.replies → ∃ addr,
    (∀ cmdbuf, clientAddress cmdbuf (s.prefixbuf id) = some addr) ∧
      (network range.ip range.prefixlen).contains addr = true ∧
      ∀ id' p', (id', p') ∈ s.replies → ∃ net, routed (utf8 p') = some net ∧
        (net.contains addr = true ↔ id' = id)

def dotted (p4 : List UInt8) : String := ".".intercalate (p4.map fun b => toString b.toNat)

theorem toList_toString (n : ℕ) : (toString n).toList = Nat.toDigits 10 n := Nat.toList_repr

theorem toList_toString_injective {m n : ℕ} (h : (toString m).toList = (toString n).toList) :
    m = n := by
  rw [toList_toString, toList_toString] at h
  have hdigits := congrArg (fun cs => Nat.ofDigitChars 10 cs 0) h
  simpa [Nat.ofDigitChars_ten_toDigits] using hdigits

theorem splitOn_dotted {p4 : List UInt8} (h : p4 ≠ []) :
    (dotted p4).toList.splitOn '.' = p4.map fun b => (toString b.toNat).toList := by
  have hdot : ∀ l ∈ p4.map (fun b => (toString b.toNat).toList), '.' ∉ l := by
    intro l hl hmem
    obtain ⟨b, -, rfl⟩ := List.mem_map.mp hl
    rw [toList_toString] at hmem
    exact absurd (Nat.isDigit_of_mem_toDigits (by decide) (by decide) hmem) (by decide)
  rw [dotted, String.toList_intercalate, List.map_map]
  exact List.splitOn_intercalate _ hdot (by simpa using h)

theorem dotted_injective {p q : List UInt8} (hp : p ≠ []) (hq : q ≠ [])
    (h : dotted p = dotted q) : p = q := by
  have hmap : (dotted p).toList.splitOn '.' = (dotted q).toList.splitOn '.' := by rw [h]
  rw [splitOn_dotted hp, splitOn_dotted hq] at hmap
  apply List.map_injective_iff.mpr _ hmap
  intro a b hab
  exact UInt8.toNat_inj.mp (toList_toString_injective hab)

theorem ipString_of_to4_none {ip : List UInt8} (h : to4 ip = none) :
    ipString ip = .ofList ((text (groups ip)).map fun b => .ofNat b.toNat) := by
  rw [ipString, h]

theorem text_injective {a b : List UInt8} (ha : a.length = 16) (hb : b.length = 16)
    (h : text (groups a) = text (groups b)) : a = b := by
  have hparse {ip : List UInt8} (hip : ip.length = 16) : parse (text (groups ip)) =
      some (groups ip) := by
    refine parse_text ?_ fun _ => lt_of_mem_groups
    rw [length_groups, hip]
  have hgroups : groups a = groups b := by
    have heq := (hparse ha).symm.trans ((congrArg parse h).trans (hparse hb))
    exact Option.some.inj heq
  rw [← @bytes_groups a (by rw [ha]; decide), hgroups,
    bytes_groups (by rw [hb]; decide)]

/-- Dotted numbers have a dot in them, groups have none. -/
theorem dotted_ne_text {p4 ip : List UInt8} (h : 2 ≤ p4.length) :
    dotted p4 ≠ .ofList ((text (groups ip)).map fun b => .ofNat b.toNat) := by
  intro heq
  have hne : p4 ≠ [] := by
    rintro rfl
    cases h
  have hdot : '.' ∉ ((text (groups ip)).map fun b => Char.ofNat b.toNat) := by
    intro hmem
    obtain ⟨b, hb, hc⟩ := List.mem_map.mp hmem
    rcases addressChar_of_mem_text hb with rfl | ⟨d, hd, rfl⟩
    · exact absurd hc (by decide)
    · interval_cases d <;> exact absurd hc (by decide)
  have hsplit := splitOn_dotted hne
  rw [heq, String.toList_ofList, List.splitOn_eq_singleton hdot] at hsplit
  have hlength := congrArg List.length hsplit
  rw [List.length_singleton, List.length_map] at hlength
  omega

theorem of_to4 {ip p4 : List UInt8} (hip : ip.length = 16) (h : to4 ip = some p4) :
    ipString ip = dotted p4 ∧ ip = .replicate 10 0 ++ [0xFF, 0xFF] ++ p4 ∧ p4.length = 4 := by
  refine ⟨by rw [ipString, h, dotted], ?_⟩
  unfold to4 at h
  split_ifs at h with htake
  cases h
  rw [← htake, List.take_append_drop, List.length_drop, hip]
  exact ⟨rfl, rfl⟩

theorem textInjective (marshal : Assignments → List UInt8)
    (unmarshal : List UInt8 → Option Assignments) : (library marshal unmarshal).TextInjective := by
  intro a b ha hb h
  change ipString a = ipString b at h
  cases hat : to4 a with
  | some p =>
    obtain ⟨hpa, hea, hla⟩ := of_to4 ha hat
    cases hbt : to4 b with
    | some q =>
      obtain ⟨hpb, heb, hlb⟩ := of_to4 hb hbt
      rw [hpa, hpb] at h
      have hne {p4 : List UInt8} (hl : p4.length = 4) : p4 ≠ [] := by
        rintro rfl
        cases hl
      rw [hea, heb, dotted_injective (hne hla) (hne hlb) h]
    | none =>
      rw [hpa, ipString_of_to4_none hbt] at h
      exact absurd h (dotted_ne_text (by omega))
  | none =>
    cases hbt : to4 b with
    | some q =>
      obtain ⟨hpb, -, hlb⟩ := of_to4 hb hbt
      rw [hpb, ipString_of_to4_none hat] at h
      exact absurd h.symm (dotted_ne_text (by omega))
    | none =>
      rw [ipString_of_to4_none hat, ipString_of_to4_none hbt, String.ofList_inj] at h
      exact text_injective ha hb
        (List.map_injective_iff.mpr (fun _ _ => char_ofNat_injective) h)

variable {marshal : Assignments → List UInt8} {unmarshal : List UInt8 → Option Assignments}
  {range : Cidr} {s t : Tunnels}

/-- The manager of a server that is running or was, its file, what its clients were told and what
they hold. -/
structure Sound (marshal : Assignments → List UInt8)
    (unmarshal : List UInt8 → Option Assignments) (range : Cidr) (s : Tunnels) : Prop where
  consistent : Consistent s.pm
  cidr : s.pm.prefixcidr = network range.ip range.prefixlen
  file : s.pm.prefixfile = marshal s.pm.prefixes ∨
    s.pm.prefixes = ∅ ∧ Fresh (library marshal unmarshal) s.pm.prefixfile
  texts : ∀ id p, s.pm.prefixes.lookup id = some p →
    ∃ i, p = prefixText (library marshal unmarshal) i ∧
      (network range.ip range.prefixlen).contains (networkAddress i) = true
  kept : ∀ id p, (id, p) ∈ s.replies → s.pm.prefixes.lookup id = some p
  held : ∀ id p, (id, p) ∈ s.replies → Holds (s.prefixbuf id) (utf8 p)
  empty : ∀ id, (∀ p, (id, p) ∉ s.replies) → s.prefixbuf id = fun _ => 0

/-- A restart finds what was written, or nothing when nothing was. -/
theorem prefixes_create (json : (library marshal unmarshal).JsonRoundTrips)
    (h : Sound marshal unmarshal range s)
    (fits : (marshal s.pm.prefixes).length ≤ assignbufLen) :
    (create (library marshal unmarshal) s.pm.prefixfile range).prefixes = s.pm.prefixes := by
  change (unmarshal (s.pm.prefixfile.take assignbufLen)).getD ∅ = s.pm.prefixes
  rcases h.file with hfile | ⟨hnone, hfresh⟩
  · have hload := json.loads s.pm.prefixes [] (List.forall_mem_nil _)
    rw [List.append_nil] at hload
    rw [hfile, List.take_of_length_le fits]
    exact congrArg (·.getD ∅) hload
  · rw [hnone]
    exact hfresh.nothing

theorem sound_booted (h : Booted (library marshal unmarshal) range s) :
    Sound marshal unmarshal range s := by
  obtain ⟨file, hfresh, rfl⟩ := h
  have hnone : (create (library marshal unmarshal) file range).prefixes = ∅ := hfresh.nothing
  constructor
  · apply consistent_createFrom
    intro id id' p hl
    rw [hfresh.nothing, Finmap.lookup_empty] at hl
    cases hl
  · rfl
  · exact .inr ⟨hnone, hfresh⟩
  · intro id p hl
    rw [hnone, Finmap.lookup_empty] at hl
    cases hl
  · intro id p hp
    cases hp
  · intro id p hp
    cases hp
  · intro id _
    rfl

theorem sound_restart (json : (library marshal unmarshal).JsonRoundTrips)
    (h : Sound marshal unmarshal range s)
    (fits : (marshal s.pm.prefixes).length ≤ assignbufLen) :
    Sound marshal unmarshal range { s with
      pm := create (library marshal unmarshal) s.pm.prefixfile range, running := true } := by
  have hsame := prefixes_create json h fits
  constructor
  · apply consistent_createFrom
    intro id id' p hl hl'
    change ((library marshal unmarshal).unmarshal _).getD ∅ = _ at hsame
    rw [hsame] at hl hl'
    exact h.consistent.unique id id' p hl hl'
  · rfl
  · dsimp only
    rw [hsame]
    exact h.file
  · intro id p hl
    dsimp only at hl
    rw [hsame] at hl
    exact h.texts id p hl
  · intro id p hp
    dsimp only
    rw [hsame]
    exact h.kept id p hp
  · exact h.held
  · exact h.empty

theorem file_writeFile (json : (library marshal unmarshal).JsonRoundTrips)
    (h : Sound marshal unmarshal range s) {id p : String} {pm : PrefixManager}
    (a : Answered (library marshal unmarshal) id s.pm (.ok p) pm) :
    pm.prefixfile = marshal pm.prefixes := by
  have hne : pm.prefixes ≠ ∅ := by
    intro hnone
    have hl := lookup_of_answered_ok a
    rw [hnone, Finmap.lookup_empty] at hl
    cases hl
  have hgrows : (marshal s.pm.prefixes).length ≤ (marshal pm.prefixes).length := by
    cases a with
    | known => exact le_rfl
    | assigned new => exact json.grows _ _ _ new
  have hcovers : s.pm.prefixfile.length ≤ (marshal pm.prefixes).length := by
    rcases h.file with hfile | ⟨-, hfresh⟩
    · rw [hfile]
      exact hgrows
    · exact hfresh.short pm.prefixes hne
  have hwritten : pm.prefixfile =
      marshal pm.prefixes ++ s.pm.prefixfile.drop (marshal pm.prefixes).length := by
    cases a <;> rfl
  rw [hwritten, List.drop_of_length_le hcovers, List.append_nil]

theorem texts_answered (h : Sound marshal unmarshal range s) {id : String}
    {answer : Except String String} {pm : PrefixManager}
    (a : Answered (library marshal unmarshal) id s.pm answer pm) (id' p : String)
    (hl : pm.prefixes.lookup id' = some p) : ∃ i, p = prefixText (library marshal unmarshal) i ∧
      (network range.ip range.prefixlen).contains (networkAddress i) = true := by
  cases a with
  | known => exact h.texts id' p hl
  | refused => exact h.texts id' p hl
  | @assigned i new contained =>
    rcases lookup_insert_eq_some.mp hl with ⟨-, rfl⟩ | ⟨-, hold⟩
    · rw [h.cidr] at contained
      exact ⟨i, rfl, contained⟩
    · exact h.texts id' p hold

/-- The client's buffer is a string again: what it held before was the same text, or nothing. -/
theorem holds_connect (h : Sound marshal unmarshal range s) {id p : String} {pm : PrefixManager}
    (a : Answered (library marshal unmarshal) id s.pm (.ok p) pm) (stack : Stack) :
    Holds (readPrefix stack (recv recvLen (object "Prefix" p)) (s.prefixbuf id)).2 (utf8 p) := by
  have hl := lookup_of_answered_ok a
  obtain ⟨i, htext, -⟩ := texts_answered h a id p hl
  have hsend : PrefixText p := by
    rw [htext]
    exact sendable_prefixText marshal unmarshal i
  have hlen : (object "Prefix" p).length ≤ recvLen := length_reply_le hsend
  have hbytes := (bytes_recv le_rfl _).trans (List.take_of_length_le hlen)
  rw [readPrefix_reply hsend hbytes, holds_store]
  by_cases hold : ∃ p', (id, p') ∈ s.replies
  · obtain ⟨p', hp'⟩ := hold
    have hlater := lookup_answered a (h.kept id p' hp')
    rw [hl] at hlater
    rw [Option.some.inj hlater]
    exact (h.held id p' hp').2
  · rw [h.empty id (fun p' hp' => hold ⟨p', hp'⟩)]

theorem sound_connect (json : (library marshal unmarshal).JsonRoundTrips)
    (h : Sound marshal unmarshal range s) {id p : String} {pm : PrefixManager}
    (a : Answered (library marshal unmarshal) id s.pm (.ok p) pm) (stack : Stack) :
    Sound marshal unmarshal range ⟨pm, true, Function.update s.prefixbuf id
      (readPrefix stack (recv recvLen (object "Prefix" p)) (s.prefixbuf id)).2,
      (id, p) :: s.replies⟩ := by
  constructor
  · exact consistent_answered h.consistent a
  · exact (cidr_answered a).trans h.cidr
  · exact .inl (file_writeFile json h a)
  · exact texts_answered h a
  · intro id' p' hp
    rcases List.mem_cons.mp hp with hp | hp
    · cases hp
      exact lookup_of_answered_ok a
    · exact lookup_answered a (h.kept id' p' hp)
  · intro id' p' hp
    dsimp only at hp ⊢
    by_cases hid : id' = id
    · subst hid
      rw [Function.update_self]
      have hp' : p' = p := by
        rcases List.mem_cons.mp hp with hp | hp
        · exact (Prod.mk.inj hp).2
        · have hlater := lookup_answered a (h.kept id' p' hp)
          rw [lookup_of_answered_ok a] at hlater
          exact (Option.some.inj hlater).symm
      rw [hp']
      exact holds_connect h a stack
    · rw [Function.update_of_ne hid]
      rcases List.mem_cons.mp hp with hp | hp
      · exact absurd (Prod.mk.inj hp).1 hid
      · exact h.held id' p' hp
  · intro id' hno
    have hid : id' ≠ id := by
      rintro rfl
      exact hno p List.mem_cons_self
    dsimp only
    rw [Function.update_of_ne hid]
    exact h.empty id' fun p' hp => hno p' (List.mem_cons_of_mem _ hp)

theorem sound_step (json : (library marshal unmarshal).JsonRoundTrips)
    (h : Sound marshal unmarshal range s) {e : Event}
    (fits : FileFits (library marshal unmarshal) s e)
    (hst : step (library marshal unmarshal) range s e = some t) :
    Sound marshal unmarshal range t := by
  cases e with
  | restart =>
    cases hst
    exact sound_restart json h fits
  | connect id stack =>
    rw [step] at hst
    split_ifs at hst
    obtain ⟨⟨answer, pm⟩, hg, rfl⟩ := Option.map_eq_some_iff.mp hst
    have ha := answered_of_getPrefix hg
    cases answer with
    | error _ => exact ⟨h.consistent, h.cidr, h.file, h.texts, h.kept, h.held, h.empty⟩
    | ok p => exact sound_connect json h ha stack

theorem clientAddress_of_holds {prefixbuf : ℕ → UInt8} {i : UInt64}
    (h : Holds prefixbuf (utf8 (prefixText (library marshal unmarshal) i))) (cmdbuf : ℕ → UInt8) :
    clientAddress cmdbuf prefixbuf = some (putUint64 i ++ putUint64 1) := by
  have hpfx : utf8 (prefixText (library marshal unmarshal) i) =
      baseText i ++ [slash, 0x36, 0x34] := utf8_prefixText marshal unmarshal i
  rw [hpfx] at h
  obtain ⟨cmd, addr, hcmd, -, -, hword, haddr⟩ := @client_of_holds cmdbuf prefixbuf i h
  rw [clientAddress, hcmd, hword, Option.bind_some, haddr]

theorem routed_prefixText (i : UInt64) :
    routed (utf8 (prefixText (library marshal unmarshal) i)) =
      some (network (networkAddress i) 64) := by
  have hpfx : utf8 (prefixText (library marshal unmarshal) i) =
      baseText i ++ [slash, 0x36, 0x34] := utf8_prefixText marshal unmarshal i
  rw [hpfx, routed_baseText]

/-- A client's address is in the /64 with the same upper half, and in no other. -/
theorem contains_clientAddress (i j : UInt64) :
    (network (networkAddress j) 64).contains (putUint64 i ++ putUint64 1) = true ↔ i = j := by
  have hlength : (putUint64 i ++ putUint64 1).length = 16 := by
    rw [List.length_append, putUint64_length, putUint64_length]
  rw [network_contains_iff le_rfl (networkAddress_length j) hlength, networkAddress,
    uint64_putUint64, uint64_putUint64, Nat.sub_self, pow_zero, Nat.div_one, Nat.div_one]
  exact UInt64.toNat_inj

/-- Whatever clients connect and however often the server is restarted, as long as the file fits
its buffer: every client keeps one address, in a network of the range that is routed to it alone. -/
theorem addressed_of_fileFits (marshal : Assignments → List UInt8)
    (unmarshal : List UInt8 → Option Assignments)
    (json : (library marshal unmarshal).JsonRoundTrips) (range : Cidr) (s : Tunnels)
    (h : (machine (library marshal unmarshal) range).Reachable
      (FileFits (library marshal unmarshal)) s) : Addressed range s := by
  have hs : Sound marshal unmarshal range s := by
    apply h.invariant (I := Sound marshal unmarshal range)
    · intro u hu
      exact sound_booted hu
    · intro u e v hu ok hst
      exact sound_step json hu ok hst
  constructor
  · intro id p p' hp hp'
    have hl := hs.kept id p hp
    rw [hs.kept id p' hp'] at hl
    exact (Option.some.inj hl).symm
  · intro id p hp
    obtain ⟨i, rfl, hin⟩ := hs.texts id p (hs.kept id p hp)
    have hlength : (putUint64 i ++ putUint64 1).length = 16 := by
      rw [List.length_append, putUint64_length, putUint64_length]
    refine ⟨putUint64 i ++ putUint64 1, clientAddress_of_holds (hs.held id _ hp), ?_, ?_⟩
    · rw [network_contains_congr range.le_64 hlength (networkAddress_length i)
        ((List.take_left' (putUint64_length i)).trans (networkAddress_take i).symm)]
      exact hin
    · intro id' p' hp'
      obtain ⟨j, rfl, -⟩ := hs.texts id' p' (hs.kept id' p' hp')
      refine ⟨_, routed_prefixText j, ?_⟩
      rw [contains_clientAddress]
      constructor
      · rintro rfl
        exact hs.consistent.unique _ _ _ (hs.kept _ _ hp') (hs.kept _ _ hp)
      · rintro rfl
        have hsame := hs.kept id' _ hp
        rw [hs.kept id' _ hp'] at hsame
        exact (prefixText_injective (textInjective marshal unmarshal) (Option.some.inj hsame)).symm

instance (lib : TunnelPrefix.Library) (s : Tunnels) : (e : Event) → Decidable (FileFits lib s e)
  | .restart => inferInstanceAs (Decidable ((lib.marshal s.pm.prefixes).length ≤ assignbufLen))
  | .connect _ _ => isTrue trivial

theorem jsonRoundTrips : (library JsonText.marshal JsonText.unmarshal).JsonRoundTrips :=
  ⟨fun m _ => unmarshal_marshal m, fun m _ => unmarshal_trailing m,
    fun m _ => unmarshal_truncated m, fun _ _ _ => marshal_grows⟩

/-- A client connects, the server is restarted, and the client connects again after another. -/
theorem addressed_of_fileFits_restart :
    ∃ s, s.replies = [("a", "2001:db8::/64"), ("b", "2001:db8:0:1::/64"), ("a", "2001:db8::/64")] ∧
      Addressed sampleRange s := by
  let lib := library JsonText.marshal JsonText.unmarshal
  let boot : Tunnels := ⟨create lib [] sampleRange, true, fun _ _ => 0, []⟩
  have hfresh : Fresh lib [] := ⟨rfl, fun _ _ => Nat.zero_le _⟩
  have hrun : ((machine lib sampleRange).runMeeting (FileFits lib) boot
      [.connect "a" emptyStack, .restart, .connect "b" emptyStack, .connect "a" emptyStack]).map
        Tunnels.replies =
      some [("a", "2001:db8::/64"), ("b", "2001:db8:0:1::/64"), ("a", "2001:db8::/64")] := by
    decide +kernel
  obtain ⟨s, hs, he⟩ := Option.map_eq_some_iff.mp hrun
  have hreach := (Machine.Reachable.start (M := machine lib sampleRange)
    ⟨[], hfresh, rfl⟩).runMeeting _ hs
  exact ⟨s, he, addressed_of_fileFits JsonText.marshal JsonText.unmarshal jsonRoundTrips
    sampleRange s hreach⟩

end RpiCc2520.TunnelAddresses
