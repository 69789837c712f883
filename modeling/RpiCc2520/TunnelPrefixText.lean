import RpiCc2520.Ip6Text
import RpiCc2520.TextWords
import RpiCc2520.TunnelHandshake
import RpiCc2520.TunnelPrefix

/-! What both ends of the tunnel make of the text of a prefix: the client an address for its
interface, by writing over the length, the server the address of a packet to itself. -/
namespace RpiCc2520.TunnelPrefixText
open AddressBytes BytePipe Ip6Text JsonText TextWords TunnelHandshake TunnelPrefix
open TunnelPrefixReply (Holds prefixLen)

def slash : UInt8 := 0x2F
def blank : UInt8 := 0x20
def percent : UInt8 := 0x25
def leftBracket : UInt8 := 0x5B
def rightBracket : UInt8 := 0x5D

/-- The four bytes of an IPv4 address in IPv6 form. -/
def to4 (ip : List UInt8) : Option (List UInt8) :=
  if ip.take 12 = .replicate 10 0 ++ [0xFF, 0xFF] then some (ip.drop 12) else none

def ipString (ip : List UInt8) : String :=
  match to4 ip with
  | some p4 => ".".intercalate (p4.map fun b => toString b.toNat)
  | none => .ofList ((text (groups ip)).map fun b => .ofNat b.toNat)

/-- An address from its text, as `net.ParseIP` and `inet_pton` read it, without the form that ends
in dotted numbers. -/
def parseIP (cs : List UInt8) : Option (List UInt8) := (parse cs).map bytes

def parseDecimal (cs : List UInt8) : Option ℕ :=
  if cs = [] then none
  else cs.foldlM (fun n c =>
    if 0x30 ≤ c ∧ c ≤ 0x39 then some (10 * n + (c - 0x30).toNat) else none) 0

/-- The network `ip -6 route add` routes. -/
def routed (pfx : List UInt8) : Option IPNet :=
  match pfx.splitOn slash with
  | [addr, len] =>
      (parseIP addr).bind fun ip => (parseDecimal len).bind fun ones =>
        if ones ≤ 128 then some (network ip ones) else none
  | _ => none

def ifrName : String := "ipv6-umich"
def cmdbufLen : ℕ := 4096
def cmdLen : ℕ := 128

def cString (buf : ℕ → UInt8) (size : ℕ) : List UInt8 := (load buf 0 size).takeWhile (· ≠ 0)

def snprintf (buf : ℕ → UInt8) (size : ℕ) (printed : List UInt8) : ℕ → UInt8 :=
  store buf 0 (printed.take (size - 1) ++ [0])

/-- The length of the prefix becomes the end of an address and two blanks. -/
def overwriteLength (cmdbuf : ℕ → UInt8) : ℕ → UInt8 :=
  match (List.range 4094).find? fun i => cmdbuf i = slash with
  | some i => store cmdbuf i [0x31, blank, blank]
  | none => cmdbuf

/-- `cmdbuf` with the command that gives the interface its address. -/
def addCommand (cmdbuf prefixbuf : ℕ → UInt8) : ℕ → UInt8 :=
  overwriteLength (snprintf cmdbuf cmdbufLen
    (utf8 "ifconfig " ++ utf8 ifrName ++ utf8 " inet6 add " ++ cString prefixbuf prefixLen))

/-- What `ssystem` runs. A format with directives would need arguments. -/
def ssystem (fmt : List UInt8) : Option (List UInt8) :=
  if percent ∈ fmt then none else some (fmt.take (cmdLen - 1))

/-- Where the server sends the packet that wakes its reader of the device. -/
def wakeAddr (pfx : List UInt8) : List UInt8 :=
  let prefixbase := pfx.splitOn slash
  leftBracket :: (prefixbase.headD [] ++ utf8 "3]:8765")

/-- Host and port of an address with brackets. -/
def splitHostPort : List UInt8 → Option (List UInt8 × List UInt8)
  | [] => none
  | c :: cs =>
      let host := cs.takeWhile (· ≠ rightBracket)
      if c = leftBracket ∧ cs[host.length + 1]? = some Ip6Text.colon then
        some (host, cs.drop (host.length + 2))
      else none

/-- Both ends take addresses of the network the server routes from the text of its prefix. -/
structure Agrees (pfx : List UInt8) (i : UInt64) : Prop where
  fits : pfx.length + 1 ≤ prefixLen
  routed : routed pfx = some (network (networkAddress i) 64)
  client : ∀ cmdbuf prefixbuf, Holds prefixbuf pfx → ∃ cmd addr,
    cString (addCommand cmdbuf prefixbuf) cmdbufLen = cmd ∧ cmd.length + 1 ≤ cmdLen ∧
      ssystem cmd = some cmd ∧ (words blank cmd)[4]? = some addr ∧
      parseIP addr = some (putUint64 i ++ putUint64 1)
  server : ∃ host, splitHostPort (wakeAddr pfx) = some (host, utf8 "8765") ∧
    parseIP host = some (putUint64 i ++ putUint64 3)
  inside : ∀ low ∈ [1, 3], (network (networkAddress i) 64).contains (putUint64 i ++ putUint64 low)

theorem utf8EncodeChar_addressChar {b : UInt8} (h : AddressChar b) :
    String.utf8EncodeChar (.ofNat b.toNat) = [b] := by
  obtain rfl | ⟨d, hd, rfl⟩ := h
  · rfl
  · interval_cases d <;> rfl

theorem utf8_ofList {bs : List UInt8} (h : ∀ b ∈ bs, AddressChar b) :
    utf8 (.ofList (bs.map fun b => .ofNat b.toNat)) = bs := by
  rw [utf8, String.toByteArray_ofList]
  induction bs with
  | nil => rfl
  | cons b bs ih =>
    have hrest := ih fun c hc => h c (List.mem_cons_of_mem b hc)
    rw [List.map_cons, List.utf8Encode_cons, List.utf8Encode_singleton,
      utf8EncodeChar_addressChar (h b List.mem_cons_self)]
    simpa using hrest

def baseText (i : UInt64) : List UInt8 := text (groups (networkAddress i))

theorem even_length_putUint64 (i : UInt64) : Even (putUint64 i).length := by
  rw [putUint64_length]
  decide

theorem groups_networkAddress (i : UInt64) :
    groups (networkAddress i) = groups (putUint64 i) ++ .replicate 4 0 := by
  rw [networkAddress, groups_append (even_length_putUint64 i)]
  rfl

theorem upper_putUint64 (i : UInt64) : Upper (groups (putUint64 i)) :=
  upper (by rw [length_groups, putUint64_length]) fun _ => lt_of_mem_groups

theorem addressChar_baseText {i : UInt64} {b : UInt8} (h : b ∈ baseText i) : AddressChar b := by
  rw [baseText, groups_networkAddress] at h
  exact (upper_putUint64 i).chars b h

theorem length_baseText (i : UInt64) : (baseText i).length ≤ 22 := by
  rw [baseText, groups_networkAddress]
  exact (upper_putUint64 i).length

theorem parseIP_baseText (i : UInt64) (ws : List ℕ) (hws : ws.length < 4)
    (hlt : ∀ g ∈ ws, g < 65536) : parseIP (baseText i ++ join ws) =
      some (putUint64 i ++ bytes (.replicate (4 - ws.length) 0 ++ ws)) := by
  have hparse := (upper_putUint64 i).parse ws hws hlt
  rw [baseText, groups_networkAddress, parseIP, hparse, Option.map_some, List.append_assoc,
    bytes_append, bytes_groups (even_length_putUint64 i)]

/-- The lower half is zero, so the address is not an IPv4 one. -/
theorem to4_networkAddress (i : UInt64) : to4 (networkAddress i) = none := by
  refine if_neg fun h => ?_
  have hbyte := congrArg (·[10]?) h
  have hlow : ((networkAddress i).take 12)[10]? = some 0 := by
    rw [networkAddress, List.getElem?_take_of_lt (by decide),
      List.getElem?_append_right (by rw [putUint64_length]; decide), putUint64_length]
    rfl
  rw [hlow] at hbyte
  cases hbyte

theorem utf8_prefixText (marshal : Assignments → List UInt8)
    (unmarshal : List UInt8 → Option Assignments) (i : UInt64) :
    utf8 (prefixText ⟨ipString, marshal, unmarshal⟩ i) = baseText i ++ [slash, 0x36, 0x34] := by
  have hlength : utf8 "/64" = [slash, 0x36, 0x34] := by decide
  have hbase : ipString (networkAddress i) =
      .ofList ((baseText i).map fun b => .ofNat b.toNat) := by
    rw [ipString, to4_networkAddress, baseText]
  rw [prefixText, utf8_append, hlength]
  dsimp only
  rw [hbase, utf8_ofList fun _ => addressChar_baseText]

/-- The handshake carries every such text. -/
theorem sendable_prefixText (marshal : Assignments → List UInt8)
    (unmarshal : List UInt8 → Option Assignments) (i : UInt64) :
    PrefixText (prefixText ⟨ipString, marshal, unmarshal⟩ i) := by
  have hdigit : ∀ d < 16, digit d ∈ prefixBytes := by decide
  have hchar : ∀ b, AddressChar b → b ∈ prefixBytes := by
    rintro b (rfl | ⟨d, hd, rfl⟩)
    · decide
    · exact hdigit d hd
  have hbase := length_baseText i
  rw [PrefixText, utf8_prefixText]
  refine ⟨by simp, ?_, fun b hb => ?_⟩
  · simp only [List.length_append, List.length_cons, List.length_nil, prefixLen]
    omega
  · rcases List.mem_append.mp hb with hb | hb
    · exact hchar b (addressChar_baseText hb)
    · have hcases : b = slash ∨ b = 0x36 ∨ b = 0x34 := by simpa using hb
      rcases hcases with rfl | rfl | rfl
      · decide
      · exact hdigit 6 (by decide)
      · exact hdigit 4 (by decide)

theorem cString_of_holds {buf : ℕ → UInt8} {s : List UInt8} {size : ℕ} (h : Holds buf s)
    (hnul : 0 ∉ s) (hlt : s.length < size) : cString buf size = s := by
  obtain ⟨m, rfl⟩ := Nat.exists_eq_add_of_lt hlt
  obtain ⟨hload, hend⟩ := h
  have hall : ∀ b ∈ s, decide (b ≠ 0) = true := fun b hb =>
    decide_eq_true fun hzero => hnul (hzero ▸ hb)
  rw [cString, Nat.add_assoc, load_add, hload, load_succ, Nat.zero_add, hend,
    List.takeWhile_append_of_pos hall]
  simp

theorem overwriteLength_eq {buf : ℕ → UInt8} {i : ℕ} (hlt : i < 4094) (hi : buf i = slash)
    (hfirst : ∀ j < i, buf j ≠ slash) :
    overwriteLength buf = store buf i [0x31, blank, blank] := by
  have hfind : (List.range 4094).find? (fun i => buf i = slash) = some i :=
    List.find?_range_eq_some.mpr ⟨decide_eq_true hi, List.mem_range.mpr hlt, fun j hj => by
      simpa using hfirst j hj⟩
  unfold overwriteLength
  rw [hfind]

theorem holds_overwriteLength (cmdbuf : ℕ → UInt8) {front : List UInt8} (c d : UInt8)
    (hslash : slash ∉ front) (hlength : front.length < 4000) :
    Holds (overwriteLength (snprintf cmdbuf cmdbufLen (front ++ [slash, c, d])))
      (front ++ [0x31, blank, blank]) := by
  have hroom : (front ++ [slash, c, d]).length ≤ cmdbufLen - 1 := by
    simp only [List.length_append, List.length_cons, List.length_nil, cmdbufLen]
    omega
  have hprinted : snprintf cmdbuf cmdbufLen (front ++ [slash, c, d]) =
      store cmdbuf 0 (front ++ [slash, c, d, 0]) := by
    rw [snprintf, List.take_of_length_le hroom, List.append_assoc]
    rfl
  have hover : overwriteLength (snprintf cmdbuf cmdbufLen (front ++ [slash, c, d])) =
      store (store cmdbuf 0 (front ++ [slash, c, d, 0])) front.length [0x31, blank, blank] := by
    rw [hprinted]
    apply overwriteLength_eq (by omega)
    · rw [store_getElem _ (by simp)]
      simp
    · intro j hj
      rw [store_getElem _ (by rw [List.length_append]; omega), List.getElem_append_left hj]
      exact fun h => hslash (h ▸ List.getElem_mem hj)
  rw [hover]
  have hfront : load (store cmdbuf 0 (front ++ [slash, c, d, 0])) 0 front.length = front := by
    have hall := load_store cmdbuf 0 (front ++ [slash, c, d, 0])
    rw [← load_take _ _ (List.length_append ▸ Nat.le_add_right _ _), hall, List.take_left]
  constructor
  · rw [List.length_append, load_add, load_store_of_disjoint _ _ (.inl (by rw [Nat.zero_add])),
      hfront, Nat.zero_add, load_store]
  · rw [store_of_length_le _ _ (by simp), store_getElem _ (by simp)]
    simp

theorem not_mem_baseText {i : UInt64} {c : UInt8} (h : ¬AddressChar c) : c ∉ baseText i :=
  fun hmem => h (addressChar_baseText hmem)

def addFront : List UInt8 := utf8 "ifconfig " ++ utf8 ifrName ++ utf8 " inet6 add "

theorem words_command {addr : List UInt8} (hne : addr ≠ []) (hblank : blank ∉ addr) :
    words blank (addFront ++ (addr ++ [blank, blank])) =
      [utf8 "ifconfig", utf8 ifrName, utf8 "inet6", utf8 "add", addr] := by
  have hfront : addFront ++ (addr ++ [blank, blank]) =
      utf8 "ifconfig" ++ blank :: (utf8 ifrName ++ blank :: (utf8 "inet6" ++ blank ::
        (utf8 "add" ++ blank :: (addr ++ blank :: [blank])))) := by
    have hclosed : addFront = utf8 "ifconfig" ++ blank :: (utf8 ifrName ++ blank ::
        (utf8 "inet6" ++ blank :: (utf8 "add" ++ [blank]))) := by decide
    rw [hclosed]
    simp
  have hend : words blank [blank] = [] := by rw [words_sep_cons, words_nil]
  rw [hfront, words_append_sep, words_append_sep, words_append_sep, words_append_sep,
    words_append_sep, words_of_not_mem (by decide) (by decide),
    words_of_not_mem (by decide) (by decide), words_of_not_mem (by decide) (by decide),
    words_of_not_mem (by decide) (by decide), words_of_not_mem hblank hne, hend]
  rfl

theorem splitOn_baseText (i : UInt64) :
    (baseText i ++ [slash, 0x36, 0x34]).splitOn slash = [baseText i, [0x36, 0x34]] := by
  rw [List.splitOn_append_cons_self_of_not_mem (not_mem_baseText (by decide)),
    List.splitOn_eq_singleton (by decide)]

theorem routed_baseText (i : UInt64) :
    routed (baseText i ++ [slash, 0x36, 0x34]) = some (network (networkAddress i) 64) := by
  have hparse : parseIP (baseText i) = some (networkAddress i) := by
    have h := parseIP_baseText i [] (by decide) nofun
    rwa [show join [] = [] from rfl, List.append_nil] at h
  have hlen : parseDecimal [0x36, 0x34] = some 64 := by decide
  simp only [routed, splitOn_baseText, hparse, hlen, Option.bind_some]
  exact if_pos (by decide)

theorem parseIP_baseText_digit (i : UInt64) {d : ℕ} (h : d < 16) :
    parseIP (baseText i ++ hex d) = some (putUint64 i ++ putUint64 (.ofNat d)) := by
  have hparse := parseIP_baseText i [d] (by simp) fun g hg => by
    rw [List.mem_singleton.mp hg]
    omega
  have hbytes : bytes (.replicate 3 0 ++ [d]) = putUint64 (.ofNat d) := by
    interval_cases d <;> decide
  rw [join, List.map_singleton, List.intercalate_singleton, List.length_singleton, hbytes] at hparse
  exact hparse

theorem cString_addCommand {cmdbuf prefixbuf : ℕ → UInt8} {i : UInt64}
    (h : Holds prefixbuf (baseText i ++ [slash, 0x36, 0x34])) :
    cString (addCommand cmdbuf prefixbuf) cmdbufLen =
      addFront ++ (baseText i ++ hex 1 ++ [blank, blank]) := by
  have hbase := length_baseText i
  have hfront : addFront.length = 30 := by decide
  have hpfx : cString prefixbuf prefixLen = baseText i ++ [slash, 0x36, 0x34] := by
    apply cString_of_holds h
    · simp [not_mem_baseText (show ¬AddressChar 0 by decide), slash]
    · simp only [List.length_append, List.length_cons, List.length_nil, prefixLen]
      omega
  have hslash : slash ∉ addFront ++ baseText i := by
    rw [List.mem_append, not_or]
    exact ⟨by decide, not_mem_baseText (by decide)⟩
  have hholds := holds_overwriteLength cmdbuf 0x36 0x34 hslash
    (by rw [List.length_append]; omega)
  rw [addCommand, hpfx, ← addFront, ← List.append_assoc, cString_of_holds hholds]
  · simp [show hex 1 = [0x31] from rfl]
  · rw [List.mem_append, List.mem_append, not_or, not_or]
    exact ⟨⟨by decide, not_mem_baseText (by decide)⟩, by decide⟩
  · simp only [List.length_append, hfront, List.length_cons, List.length_nil, cmdbufLen]
    omega

/-- The command is short, is no format, and names the address. -/
theorem client_of_holds {cmdbuf prefixbuf : ℕ → UInt8} {i : UInt64}
    (h : Holds prefixbuf (baseText i ++ [slash, 0x36, 0x34])) : ∃ cmd addr,
      cString (addCommand cmdbuf prefixbuf) cmdbufLen = cmd ∧ cmd.length + 1 ≤ cmdLen ∧
        ssystem cmd = some cmd ∧ (words blank cmd)[4]? = some addr ∧
        parseIP addr = some (putUint64 i ++ putUint64 1) := by
  have hbase := length_baseText i
  have hfront : addFront.length = 30 := by decide
  have hhex : hex 1 = [0x31] := rfl
  have hlength : (addFront ++ (baseText i ++ hex 1 ++ [blank, blank])).length + 1 ≤ cmdLen := by
    simp only [List.length_append, hfront, hhex, List.length_cons, List.length_nil, cmdLen]
    omega
  have hpercent : percent ∉ addFront ++ (baseText i ++ hex 1 ++ [blank, blank]) := by
    simp only [List.mem_append, not_or]
    exact ⟨by decide, ⟨not_mem_baseText (by decide), by decide⟩, by decide⟩
  have hblank : blank ∉ baseText i ++ hex 1 := by
    rw [List.mem_append, not_or]
    exact ⟨not_mem_baseText (by decide), by decide⟩
  refine ⟨_, baseText i ++ hex 1, cString_addCommand h, hlength, ?_, ?_,
    parseIP_baseText_digit i (by decide)⟩
  · rw [ssystem, if_neg hpercent, List.take_of_length_le (by omega)]
  · rw [words_command (by simp [hhex]) hblank]
    rfl

/-- The server's packet goes to the address that ends in 3. -/
theorem server_baseText (i : UInt64) : ∃ host,
    splitHostPort (wakeAddr (baseText i ++ [slash, 0x36, 0x34])) = some (host, utf8 "8765") ∧
      parseIP host = some (putUint64 i ++ putUint64 3) := by
  have hclosed : utf8 "3]:8765" = hex 3 ++ rightBracket :: Ip6Text.colon :: utf8 "8765" := by decide
  have hbracket : ∀ b ∈ baseText i ++ hex 3, decide (b ≠ rightBracket) = true := by
    intro b hb
    apply decide_eq_true
    rcases List.mem_append.mp hb with hb | hb
    · rintro rfl
      exact not_mem_baseText (by decide) hb
    · rintro rfl
      exact absurd hb (by decide)
  have hhost : (baseText i ++ hex 3 ++ rightBracket :: Ip6Text.colon :: utf8 "8765").takeWhile
      (· ≠ rightBracket) = baseText i ++ hex 3 := by
    rw [List.takeWhile_append_of_pos hbracket]
    simp
  refine ⟨baseText i ++ hex 3, ?_, parseIP_baseText_digit i (by decide)⟩
  rw [wakeAddr, splitOn_baseText, List.headD_cons, hclosed, ← List.append_assoc, splitHostPort]
  simp only [hhost]
  rw [if_pos, List.drop_append, List.drop_of_length_le (by omega)]
  · simp
  · refine ⟨trivial, ?_⟩
    rw [List.getElem?_append_right (by omega), Nat.add_sub_cancel_left]
    rfl

/-- Both ends agree on the text of every prefix. -/
theorem agrees_prefixText (marshal : Assignments → List UInt8)
    (unmarshal : List UInt8 → Option Assignments) (i : UInt64) :
    Agrees (utf8 (prefixText ⟨ipString, marshal, unmarshal⟩ i)) i := by
  rw [utf8_prefixText]
  constructor
  · have hsend := (sendable_prefixText marshal unmarshal i).2.1
    rwa [utf8_prefixText] at hsend
  · exact routed_baseText i
  · exact fun _ _ => client_of_holds
  · exact server_baseText i
  · intro low _
    have hlength (low : UInt64) : (putUint64 i ++ putUint64 low).length = 16 := by
      rw [List.length_append, putUint64_length, putUint64_length]
    rw [networkAddress, network_contains_iff le_rfl (hlength 0) (hlength low), uint64_putUint64,
      uint64_putUint64]

end RpiCc2520.TunnelPrefixText
