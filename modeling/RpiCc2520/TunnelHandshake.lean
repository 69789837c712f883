import RpiCc2520.TunnelPrefixReply

/-! The handshake of a tunnel: the client sends its id as JSON text, the server answers with the
client's prefix, and both go on with packets on the same connection. -/
namespace RpiCc2520.TunnelHandshake
open BytePipe JsonText JsmnTree TunnelPrefixReply
open JsmnGrammar (jsmnParse_member jsmnParse_unclosed)

/-- The JSON text of a structure with one string field. -/
def object (key value : String) : List UInt8 := leftBrace :: (member (key, value) ++ [rightBrace])

/-- The bytes of a MAC address, and of an IPv6 prefix. -/
def idBytes : List UInt8 := utf8 "0123456789abcdefABCDEF:"
def prefixBytes : List UInt8 := utf8 "0123456789abcdef:./"

def macLen : ℕ := 17

def IdText (id : String) : Prop := (utf8 id).length = macLen ∧ ∀ b ∈ utf8 id, b ∈ idBytes

/-- The text of an IPv6 prefix, short enough for the client's buffer. -/
def PrefixText (p : String) : Prop :=
  utf8 p ≠ [] ∧ (utf8 p).length < prefixLen ∧ ∀ b ∈ utf8 p, b ∈ prefixBytes

instance (id : String) : Decidable (IdText id) :=
  inferInstanceAs (Decidable ((utf8 id).length = macLen ∧ ∀ b ∈ utf8 id, b ∈ idBytes))

instance (p : String) : Decidable (PrefixText p) :=
  inferInstanceAs (Decidable
    (utf8 p ≠ [] ∧ (utf8 p).length < prefixLen ∧ ∀ b ∈ utf8 p, b ∈ prefixBytes))

/-- `encoding/json`: the id a text gives a `ClientIdentifier`, and the text of a
`ClientPrefix`. -/
structure Library where
  unmarshal : List UInt8 → Option String
  marshal : String → List UInt8

/-- Both know the form with one field; only an object or `null` goes into a structure. -/
structure Library.Json (lib : Library) : Prop where
  unmarshal : ∀ id, IdText id → lib.unmarshal (object "Id" id) = some id
  marshal : ∀ p, PrefixText p → lib.marshal p = object "Prefix" p
  accepts : ∀ text id, lib.unmarshal text = some id →
    (leftBrace ∈ text ∧ rightBrace ∈ text) ∨ 0x6E ∈ text

def jsonId : List UInt8 := utf8 "\x7b\"Id\":\"00:11:22:33:44:55\"\x7d"

def memcpy (dst : List UInt8) (off : ℕ) (src : List UInt8) : List UInt8 :=
  dst.take off ++ src ++ dst.drop (off + src.length)

/-- What `get_prefix` sends; `macbuf` begins with the id. -/
def hello (macbuf : List UInt8) : List UInt8 := memcpy jsonId 7 (macbuf.take macLen)

/-- What `recv` gives of the bytes that have arrived, when it takes at most `n`. -/
def recv (n : ℕ) (arrived : List UInt8) : Reply :=
  ⟨arrived.take (min n recvLen), (List.length_take_le _ _).trans (min_le_right _ _)⟩

/-- `get_prefix` behind `recv`: whether it succeeds, and the buffer `prefix`. -/
def readPrefix (stack : Stack) (reply : Reply) (prefixbuf : ℕ → UInt8) : Bool × (ℕ → UInt8) :=
  let out := getPrefix jsonId.length (some reply) stack prefixbuf
  (out.ret == 0, out.prefixbuf)

inductive ClientPc
  | connected
  | waiting
  | running
  | failed
  deriving DecidableEq

/-- Both ends of a connection with the bytes under way; `newclient` is the id the server has got,
`replied` the prefix it has answered with. The rest are the bytes of packets. -/
structure Link where
  client : ClientPc
  prefixbuf : ℕ → UInt8
  newclient : Option String
  replied : Option String
  toServer : List UInt8
  toClient : List UInt8
  upSent : List UInt8
  upReceived : List UInt8
  downSent : List UInt8
  downReceived : List UInt8

/-- A read takes at most `n` of the bytes that have arrived. `sendPacket` and `readPacket` go up
to the server, `writePacket` and `recvPacket` down to the client. -/
inductive Event
  | sendId
  | readHello (n : ℕ)
  | writePrefix (p : String)
  | recvPrefix (n : ℕ) (stack : Stack)
  | sendPacket (pkt : List UInt8)
  | readPacket (n : ℕ)
  | writePacket (pkt : List UInt8)
  | recvPacket (n : ℕ)

/-- The server's buffer and the client's. -/
def bufLen : ℕ := 4096

/-- The server goes on reading after an error of `Unmarshal`; the client gives the connection
up. -/
def step (lib : Library) (id : String) (s : Link) : Event → Option Link
  | .sendId =>
      if s.client = .connected then
        some { s with client := .waiting, toServer := s.toServer ++ hello (utf8 id) }
      else none
  | .readHello n =>
      if s.newclient = none ∧ s.toServer ≠ [] ∧ 0 < n ∧ n ≤ bufLen then
        some { s with
          newclient := lib.unmarshal (s.toServer.take n)
          toServer := s.toServer.drop n }
      else none
  | .writePrefix p =>
      if s.newclient.isSome ∧ s.replied = none ∧ PrefixText p then
        some { s with replied := some p, toClient := s.toClient ++ lib.marshal p }
      else none
  | .recvPrefix n stack =>
      if s.client = .waiting ∧ s.toClient ≠ [] ∧ 0 < n ∧ n ≤ recvLen then
        let (ok, prefixbuf) := readPrefix stack (recv n s.toClient) s.prefixbuf
        some { s with
          client := if ok then .running else .failed
          prefixbuf := prefixbuf
          toClient := s.toClient.drop n }
      else none
  | .sendPacket pkt =>
      if s.client = .running then
        some { s with toServer := s.toServer ++ pkt, upSent := s.upSent ++ pkt }
      else none
  | .readPacket n =>
      if s.replied.isSome ∧ s.toServer ≠ [] ∧ 0 < n ∧ n ≤ bufLen then
        some { s with
          upReceived := s.upReceived ++ s.toServer.take n
          toServer := s.toServer.drop n }
      else none
  | .writePacket pkt =>
      if s.replied.isSome then
        some { s with toClient := s.toClient ++ pkt, downSent := s.downSent ++ pkt }
      else none
  | .recvPacket n =>
      if s.client = .running ∧ s.toClient ≠ [] ∧ 0 < n ∧ n ≤ bufLen then
        some { s with
          downReceived := s.downReceived ++ s.toClient.take n
          toClient := s.toClient.drop n }
      else none

/-- A new connection. The buffer `prefix` may be left from an earlier one. -/
def opened (prefixbuf : ℕ → UInt8) : Link :=
  ⟨.connected, prefixbuf, none, none, [], [], [], [], [], []⟩

def machine (lib : Library) (id : String) : Machine Link Event :=
  ⟨fun s => ∃ prefixbuf, s = opened prefixbuf, step lib id⟩

/-- The handshake can still be brought to its end. -/
def Completes (lib : Library) (id : String) (s : Link) : Prop :=
  ∃ es t, (machine lib id).run s es = some t ∧ t.newclient.isSome ∧ t.client = .running

/-- The server gets the id, the client the prefix, and all bytes of packets come through. -/
structure HandshakeKept (lib : Library) (id : String) (s : Link) : Prop where
  idKept : ∀ id', s.newclient = some id' → id' = id
  prefixKept : s.client = .running → ∃ p, s.replied = some p ∧ Holds s.prefixbuf (utf8 p)
  upKept : s.newclient.isSome → s.upReceived ++ s.toServer = s.upSent
  downKept : s.client = .running → s.downReceived ++ s.toClient = s.downSent
  completes : Completes lib id s

/-- The server reads the whole hello at once, and the client the whole reply and no more, into a
buffer that has a NUL where the prefix ends. -/
def WholeMessages (lib : Library) (id : String) (s : Link) : Event → Prop
  | .readHello n => s.toServer.take n = hello (utf8 id)
  | .recvPrefix n _ => ∃ p, s.replied = some p ∧ s.toClient.take n = lib.marshal p ∧
      s.prefixbuf (utf8 p).length = 0
  | _ => True

/-- A byte with no meaning of its own, in JSON text or in the word `null`. -/
def Plain (b : UInt8) : Prop :=
  b ∉ [0, quotationMark, backslash, leftBrace, rightBrace, rightBracket, 0x6E]

instance : DecidablePred Plain := fun b => inferInstanceAs (Decidable (b ∉ _))

theorem Plain.literal {b : UInt8} (h : Plain b) : Literal b := by
  simp only [Plain, List.mem_cons, not_or] at h
  exact ⟨h.1, h.2.1, h.2.2.1⟩

theorem plain_id {id : String} (h : IdText id) : ∀ b ∈ utf8 id, Plain b := by
  have hall : ∀ b ∈ idBytes, Plain b := by decide +kernel
  intro b hb
  exact hall b (h.2 b hb)

theorem plain_prefixText {p : String} (h : PrefixText p) : ∀ b ∈ utf8 p, Plain b := by
  have hall : ∀ b ∈ prefixBytes, Plain b := by decide +kernel
  intro b hb
  exact hall b (h.2.2 b hb)

theorem plain_idKey : ∀ b ∈ utf8 "Id", Plain b := by decide +kernel

theorem plain_prefixKey : ∀ b ∈ utf8 "Prefix", Plain b := by decide +kernel

theorem length_idKey : (utf8 "Id").length = 2 := by decide +kernel

theorem length_prefixKey : (utf8 "Prefix").length = 6 := by decide +kernel

theorem escape_plain {bs : List UInt8} (h : ∀ b ∈ bs, Plain b) : escape bs = bs := by
  induction bs with
  | nil => rfl
  | cons b bs ih =>
    have hb := (h b List.mem_cons_self).literal
    rw [escape, if_neg (not_or.mpr ⟨hb.2.1, hb.2.2⟩),
      ih fun c hc => h c (List.mem_cons_of_mem b hc)]

theorem take_object {key value : String} {n : ℕ} (h0 : 0 < n) (hn : n < (object key value).length) :
    ∃ js, (object key value).take n = leftBrace :: js ∧ ∀ b ∈ js, b ∈ member (key, value) := by
  obtain ⟨m, rfl⟩ := Nat.exists_eq_succ_of_ne_zero h0.ne'
  simp only [object, List.length_cons, List.length_append, List.length_nil] at hn
  refine ⟨(member (key, value)).take m, ?_, fun b hb => List.mem_of_mem_take hb⟩
  rw [object, List.take_succ_cons, List.take_append_of_le_length (by omega)]

section
variable {key value : String} (hk : ∀ b ∈ utf8 key, Plain b) (hv : ∀ b ∈ utf8 value, Plain b)
include hk hv

theorem member_plain : member (key, value) = quotationMark :: (utf8 key ++ quotationMark ::
    colon :: quotationMark :: (utf8 value ++ [quotationMark])) := by
  simp [member, quote, escape_plain hk, escape_plain hv]

theorem length_object :
    (object key value).length = (utf8 key).length + (utf8 value).length + 7 := by
  simp [object, member_plain hk hv]
  omega

theorem inner_member {b : UInt8} (h : b ∈ member (key, value)) :
    b ≠ leftBrace ∧ b ≠ rightBrace ∧ b ≠ rightBracket ∧ b ≠ 0x6E := by
  have hplain {c : UInt8} (hc : Plain c) :
      c ≠ leftBrace ∧ c ≠ rightBrace ∧ c ≠ rightBracket ∧ c ≠ 0x6E := by
    simp only [Plain, List.mem_cons, not_or] at hc
    exact ⟨hc.2.2.2.1, hc.2.2.2.2.1, hc.2.2.2.2.2.1, hc.2.2.2.2.2.2.1⟩
  rw [member_plain hk hv] at h
  simp only [List.mem_cons, List.mem_append, List.not_mem_nil, or_false] at h
  rcases h with rfl | h | rfl | rfl | rfl | h | rfl
  · decide
  · exact hplain (hk b h)
  · decide
  · decide
  · decide
  · exact hplain (hv b h)
  · decide

end

theorem hello_eq {id : String} (h : IdText id) : hello (utf8 id) = object "Id" id := by
  have htake : jsonId.take 7 = leftBrace :: quotationMark :: (utf8 "Id" ++
      [quotationMark, colon, quotationMark]) := by decide +kernel
  have hdrop : jsonId.drop (7 + macLen) = [quotationMark, rightBrace] := by decide +kernel
  have hid : (utf8 id).take macLen = utf8 id := List.take_of_length_le h.1.le
  rw [hello, memcpy, hid, h.1, htake, hdrop, object, member_plain plain_idKey (plain_id h)]
  simp

def replyTokens (p : String) : List SizedToken :=
  [⟨.object, 0, (13 + (utf8 p).length : ℕ), 2⟩, ⟨.string, 2, 8, 0⟩,
    ⟨.string, 11, (11 + (utf8 p).length : ℕ), 0⟩]

theorem jsmnParse_reply {p : String} (h : PrefixText p) :
    jsmnParse numTokens (object "Prefix" p) = .ok (replyTokens p) := by
  have hparse := jsmnParse_member (fun b hb => (plain_prefixKey b hb).literal)
    (fun b hb => (plain_prefixText h b hb).literal) (show 3 ≤ numTokens by decide)
  have htext : object "Prefix" p = leftBrace :: quotationMark :: (utf8 "Prefix" ++
      quotationMark :: colon :: quotationMark :: (utf8 p ++ [quotationMark, rightBrace])) := by
    simp [object, member_plain plain_prefixKey (plain_prefixText h)]
  have hlen : 6 + (utf8 p).length + 7 = 13 + (utf8 p).length := by omega
  rw [← htext, length_prefixKey, hlen] at hparse
  exact hparse

theorem tokenText_append (type : TokenType) (before xs after : List UInt8) {start stop : ℕ}
    (hstart : before.length = start) (hstop : start + xs.length = stop) :
    tokenText (before ++ (xs ++ after)) ⟨type, start, stop, 0⟩ = xs := by
  have hlen : ((stop : ℤ) - start).toNat = xs.length := by omega
  rw [tokenText, hlen, Int.toNat_natCast, List.drop_left' hstart, List.take_left' rfl]

section
variable {p : String} (h : PrefixText p)
include h

theorem tokenText_key : tokenText (object "Prefix" p) ⟨.string, 2, 8, 0⟩ = utf8 "Prefix" := by
  have happ : object "Prefix" p = [leftBrace, quotationMark] ++ (utf8 "Prefix" ++
      quotationMark :: colon :: quotationMark :: (utf8 p ++ [quotationMark, rightBrace])) := by
    simp [object, member_plain plain_prefixKey (plain_prefixText h)]
  rw [happ]
  exact tokenText_append .string _ _ _ rfl (by simp [length_prefixKey])

theorem tokenText_value :
    tokenText (object "Prefix" p) ⟨.string, 11, (11 + (utf8 p).length : ℕ), 0⟩ = utf8 p := by
  have happ : object "Prefix" p = (leftBrace :: quotationMark :: (utf8 "Prefix" ++
      [quotationMark, colon, quotationMark])) ++ (utf8 p ++ [quotationMark, rightBrace]) := by
    simp [object, member_plain plain_prefixKey (plain_prefixText h)]
  rw [happ]
  exact tokenText_append .string _ _ _ (by simp [length_prefixKey]) rfl

theorem firstKey_reply : FirstKey (object "Prefix" p) (replyTokens p) 1 := by
  refine ⟨⟨_, rfl, tokenText_key h⟩, ?_⟩
  intro j hj t ht htext
  obtain rfl : j = 0 := by omega
  obtain rfl : (⟨.object, 0, (13 + (utf8 p).length : ℕ), 2⟩ : SizedToken) = t :=
    Option.some.inj ht
  have hlen := congrArg List.length htext
  rw [length_prefixKey, tokenText, List.length_take, List.length_drop,
    length_object plain_prefixKey (plain_prefixText h), length_prefixKey] at hlen
  simp only [sub_zero, Int.toNat_natCast, Int.toNat_zero] at hlen
  omega

end

theorem sent_jsonId : (jsonId.length : ℤ) ≠ -1 := by omega

theorem readPrefix_reply {p : String} (h : PrefixText p) {reply : Reply}
    (hbytes : reply.bytes = object "Prefix" p) (stack : Stack) (prefixbuf : ℕ → UInt8) :
    readPrefix stack reply prefixbuf = (true, store prefixbuf 0 (utf8 p)) := by
  obtain ⟨b, bs, hb⟩ := List.exists_cons_of_ne_nil h.1
  have hb0 : b ≠ 0 := (plain_prefixText h b (hb ▸ List.mem_cons_self)).literal.1
  have hfirst : store prefixbuf 0 (utf8 p) 0 = b := by
    rw [store, hb]
    rfl
  have parse : jsmnParse numTokens reply.bytes = .ok (replyTokens p) := by
    rw [hbytes]
    exact jsmnParse_reply h
  have hkey : FirstKey reply.bytes (replyTokens p) 1 := by
    rw [hbytes]
    exact firstKey_reply h
  have hfind := find_of_firstKey stack parse hkey (by decide)
  rw [readPrefix, getPrefix_found stack prefixbuf sent_jsonId parse hfind rfl, hbytes,
    tokenText_value h, if_neg (by rw [hfirst]; exact hb0)]
  rfl

theorem readPrefix_part {p : String} (h : PrefixText p) (stack : Stack)
    (prefixbuf : ℕ → UInt8) {n : ℕ} (h0 : 0 < n) (hn : n < (object "Prefix" p).length)
    {reply : Reply} (hbytes : reply.bytes = (object "Prefix" p).take n) :
    readPrefix stack reply prefixbuf = (false, prefixbuf) := by
  obtain ⟨js, htake, hjs⟩ := take_object h0 hn
  have hopen : ∀ b ∈ js, ¬Closing b := by
    intro b hb hc
    obtain ⟨-, hbrace, hbracket, -⟩ :=
      inner_member plain_prefixKey (plain_prefixText h) (hjs b hb)
    rcases hc with hc | hc
    · exact hbrace hc
    · exact hbracket hc
  cases parse : jsmnParse numTokens reply.bytes with
  | error e =>
    rw [readPrefix, getPrefix_refused stack prefixbuf sent_jsonId parse]
    rfl
  | ok tokens =>
    rw [hbytes, htake] at parse
    exact absurd parse (jsmnParse_unclosed hopen tokens)

theorem length_reply_le {p : String} (h : PrefixText p) :
    (object "Prefix" p).length ≤ recvLen := by
  have hp := h.2.1
  rw [length_object plain_prefixKey (plain_prefixText h), length_prefixKey]
  simp only [prefixLen, recvLen] at hp ⊢
  omega

theorem bytes_recv {n : ℕ} (h : n ≤ recvLen) (arrived : List UInt8) :
    (recv n arrived).bytes = arrived.take n := by
  change arrived.take (min n recvLen) = _
  rw [min_eq_left h]

/-- No packet has been read, and none sent up. -/
structure Quiet (s : Link) : Prop where
  upSent : s.upSent = []
  upReceived : s.upReceived = []
  downReceived : s.downReceived = []

/-- How far a connection is on which every message was read whole. -/
inductive Phase (id : String) (s : Link) : Prop
  | connected (client : s.client = .connected) (newclient : s.newclient = none)
      (replied : s.replied = none) (toServer : s.toServer = []) (toClient : s.toClient = [])
      (downSent : s.downSent = []) (quiet : Quiet s)
  | asking (client : s.client = .waiting) (newclient : s.newclient = none)
      (replied : s.replied = none) (toServer : s.toServer = object "Id" id)
      (toClient : s.toClient = []) (downSent : s.downSent = []) (quiet : Quiet s)
  | known (client : s.client = .waiting) (newclient : s.newclient = some id)
      (replied : s.replied = none) (toServer : s.toServer = []) (toClient : s.toClient = [])
      (downSent : s.downSent = []) (quiet : Quiet s)
  | answered {p : String} (text : PrefixText p) (client : s.client = .waiting)
      (newclient : s.newclient = some id) (replied : s.replied = some p)
      (toServer : s.toServer = []) (toClient : s.toClient = object "Prefix" p ++ s.downSent)
      (quiet : Quiet s)
  | running {p : String} (client : s.client = .running) (newclient : s.newclient = some id)
      (replied : s.replied = some p) (holds : Holds s.prefixbuf (utf8 p))
      (up : s.upReceived ++ s.toServer = s.upSent)
      (down : s.downReceived ++ s.toClient = s.downSent)

/-- The server has read the beginning of the hello and waits for the id, the client for the
prefix. -/
structure Stuck (s : Link) : Prop where
  client : s.client = .waiting
  newclient : s.newclient = none
  replied : s.replied = none
  toClient : s.toClient = []
  rest : ∀ b ∈ s.toServer, b ≠ leftBrace ∧ b ≠ 0x6E

/-- What cannot be made good again: the hello cut in pieces, a reply that was not understood,
bytes of packets read with the reply, a prefix that ends behind its text. -/
inductive Broken (s : Link) : Prop
  | stuck (stuck : Stuck s)
  | failed (client : s.client = .failed)
  | lost {p : String} (client : s.client = .running) (replied : s.replied = some p)
      (fewer : s.downReceived.length + s.toClient.length < s.downSent.length)
  | garbled {p : String} (client : s.client = .running) (replied : s.replied = some p)
      (garbled : ¬Holds s.prefixbuf (utf8 p))

variable {lib : Library} {id : String} {s t : Link}

/-- Everything a step can do, with the guards. -/
inductive Moved (lib : Library) (id : String) (s : Link) : Event → Link → Prop
  | sendId (client : s.client = .connected) : Moved lib id s .sendId
      { s with client := .waiting, toServer := s.toServer ++ hello (utf8 id) }
  | readHello {n : ℕ} (newclient : s.newclient = none) (arrived : s.toServer ≠ [])
      (pos : 0 < n) : Moved lib id s (.readHello n) { s with
        newclient := lib.unmarshal (s.toServer.take n)
        toServer := s.toServer.drop n }
  | writePrefix {p : String} (newclient : s.newclient.isSome) (replied : s.replied = none)
      (text : PrefixText p) : Moved lib id s (.writePrefix p)
        { s with replied := some p, toClient := s.toClient ++ lib.marshal p }
  | recvPrefix {n : ℕ} {stack : Stack} (client : s.client = .waiting) (arrived : s.toClient ≠ [])
      (pos : 0 < n) (fits : n ≤ recvLen) : Moved lib id s (.recvPrefix n stack) { s with
        client := if (readPrefix stack (recv n s.toClient) s.prefixbuf).1 then .running else .failed
        prefixbuf := (readPrefix stack (recv n s.toClient) s.prefixbuf).2
        toClient := s.toClient.drop n }
  | sendPacket {pkt : List UInt8} (client : s.client = .running) : Moved lib id s (.sendPacket pkt)
      { s with toServer := s.toServer ++ pkt, upSent := s.upSent ++ pkt }
  | readPacket {n : ℕ} (replied : s.replied.isSome) (arrived : s.toServer ≠ []) :
      Moved lib id s (.readPacket n) { s with
        upReceived := s.upReceived ++ s.toServer.take n
        toServer := s.toServer.drop n }
  | writePacket {pkt : List UInt8} (replied : s.replied.isSome) :
      Moved lib id s (.writePacket pkt)
        { s with toClient := s.toClient ++ pkt, downSent := s.downSent ++ pkt }
  | recvPacket {n : ℕ} (client : s.client = .running) (arrived : s.toClient ≠ []) :
      Moved lib id s (.recvPacket n) { s with
        downReceived := s.downReceived ++ s.toClient.take n
        toClient := s.toClient.drop n }

theorem moved_of_step {e : Event} (hst : step lib id s e = some t) : Moved lib id s e t := by
  cases e with
  | sendId =>
    simp only [step, Option.ite_none_right_eq_some, Option.some.injEq] at hst
    obtain ⟨client, rfl⟩ := hst
    exact .sendId client
  | readHello n =>
    simp only [step, Option.ite_none_right_eq_some, Option.some.injEq] at hst
    obtain ⟨⟨newclient, arrived, pos, -⟩, rfl⟩ := hst
    exact .readHello newclient arrived pos
  | writePrefix p =>
    simp only [step, Option.ite_none_right_eq_some, Option.some.injEq] at hst
    obtain ⟨⟨newclient, replied, text⟩, rfl⟩ := hst
    exact .writePrefix newclient replied text
  | recvPrefix n stack =>
    simp only [step, Option.ite_none_right_eq_some, Option.some.injEq] at hst
    obtain ⟨⟨client, arrived, pos, fits⟩, rfl⟩ := hst
    exact .recvPrefix client arrived pos fits
  | sendPacket pkt =>
    simp only [step, Option.ite_none_right_eq_some, Option.some.injEq] at hst
    obtain ⟨client, rfl⟩ := hst
    exact .sendPacket client
  | readPacket n =>
    simp only [step, Option.ite_none_right_eq_some, Option.some.injEq] at hst
    obtain ⟨⟨replied, arrived, -⟩, rfl⟩ := hst
    exact .readPacket replied arrived
  | writePacket pkt =>
    simp only [step, Option.ite_none_right_eq_some, Option.some.injEq] at hst
    obtain ⟨replied, rfl⟩ := hst
    exact .writePacket replied
  | recvPacket n =>
    simp only [step, Option.ite_none_right_eq_some, Option.some.injEq] at hst
    obtain ⟨⟨client, arrived, -⟩, rfl⟩ := hst
    exact .recvPacket client arrived

theorem phase_opened (prefixbuf : ℕ → UInt8) : Phase id (opened prefixbuf) :=
  .connected rfl rfl rfl rfl rfl rfl ⟨rfl, rfl, rfl⟩

theorem unmarshal_part (json : lib.Json) {text : List UInt8} (hn : ∀ b ∈ text, b ≠ 0x6E)
    (hbrace : leftBrace ∈ text → rightBrace ∈ text → False) : lib.unmarshal text = none := by
  rw [Option.eq_none_iff_forall_ne_some]
  intro id' hid
  rcases json.accepts text id' hid with ⟨hl, hr⟩ | hnull
  · exact hbrace hl hr
  · exact hn _ hnull rfl

theorem unmarshal_hello_part (json : lib.Json) (hid : IdText id) {n : ℕ} (h0 : 0 < n)
    (hn : n < (object "Id" id).length) : lib.unmarshal ((object "Id" id).take n) = none := by
  obtain ⟨js, htake, hjs⟩ := take_object h0 hn
  have hinner {b : UInt8} (hb : b ∈ js) := inner_member plain_idKey (plain_id hid) (hjs b hb)
  rw [htake]
  apply unmarshal_part json
  · intro b hb
    rcases List.mem_cons.mp hb with rfl | hb
    · decide
    · exact (hinner hb).2.2.2
  · intro _ hr
    rcases List.mem_cons.mp hr with hr | hr
    · exact absurd hr (by decide)
    · exact (hinner hr).2.1 rfl

theorem rest_hello (hid : IdText id) {n : ℕ} (h0 : 0 < n) :
    ∀ b ∈ (object "Id" id).drop n, b ≠ leftBrace ∧ b ≠ 0x6E := by
  obtain ⟨m, rfl⟩ := Nat.exists_eq_succ_of_ne_zero h0.ne'
  intro b hb
  have hmem := List.mem_of_mem_drop (show b ∈ (member ("Id", id) ++ [rightBrace]).drop m from hb)
  rcases List.mem_append.mp hmem with hb | hb
  · have hinner := inner_member plain_idKey (plain_id hid) hb
    exact ⟨hinner.1, hinner.2.2.2⟩
  · rw [List.mem_singleton.mp hb]
    decide

theorem holds_store (buf : ℕ → UInt8) (text : List UInt8) :
    Holds (store buf 0 text) text ↔ buf text.length = 0 := by
  have hbehind : store buf 0 text text.length = buf text.length := by simp [store]
  rw [Holds, load_store, hbehind]
  simp

theorem phase_recvPrefix (json : lib.Json) {n : ℕ} {stack : Stack} (h : Phase id s)
    (hc : s.client = .waiting) (fits : n ≤ recvLen)
    (ok : WholeMessages lib id s (.recvPrefix n stack)) :
    Phase id { s with
      client := if (readPrefix stack (recv n s.toClient) s.prefixbuf).1 then .running else .failed
      prefixbuf := (readPrefix stack (recv n s.toClient) s.prefixbuf).2
      toClient := s.toClient.drop n } := by
  obtain ⟨p', hrep, htake, hnul⟩ := ok
  cases h with
  | @answered p text client newclient replied toServer toClient quiet =>
    obtain rfl : p' = p := Option.some.inj (hrep.symm.trans replied)
    rw [json.marshal p' text] at htake
    have hrest : object "Prefix" p' ++ s.toClient.drop n = object "Prefix" p' ++ s.downSent := by
      rw [← toClient, ← htake, List.take_append_drop]
    have hrest := List.append_cancel_left hrest
    have hread := readPrefix_reply text ((bytes_recv fits s.toClient).trans htake) stack s.prefixbuf
    refine .running (p := p') ?_ newclient replied ?_ ?_ ?_
    · simp only [hread, if_true]
    · simp only [hread]
      exact (holds_store s.prefixbuf (utf8 p')).mpr hnul
    · simp only [quiet.upReceived, toServer, quiet.upSent, List.append_nil]
    · simp only [hrest, quiet.downReceived, List.nil_append]
  | _ => simp_all

theorem phase_step {e : Event} (json : lib.Json) (hid : IdText id) (h : Phase id s)
    (ok : WholeMessages lib id s e) (hst : step lib id s e = some t) : Phase id t := by
  cases moved_of_step hst with
  | sendId =>
    cases h with
    | connected client newclient replied toServer toClient downSent quiet =>
      refine .asking rfl newclient replied ?_ toClient downSent ⟨quiet.1, quiet.2, quiet.3⟩
      rw [toServer, hello_eq hid, List.nil_append]
    | _ => simp_all
  | @readHello n =>
    cases h with
    | asking client newclient replied toServer toClient downSent quiet =>
      have htake : s.toServer.take n = object "Id" id := ok.trans (hello_eq hid)
      refine .known client ?_ replied ?_ toClient downSent ⟨quiet.1, quiet.2, quiet.3⟩
      · simp only [htake, json.unmarshal id hid]
      · rw [toServer, List.take_eq_self_iff] at htake
        simp only [toServer, List.drop_eq_nil_of_le htake]
    | _ => simp_all
  | @writePrefix p _ _ text =>
    cases h with
    | known client newclient replied toServer toClient downSent quiet =>
      refine .answered text client newclient rfl toServer ?_ ⟨quiet.1, quiet.2, quiet.3⟩
      simp only [toClient, json.marshal p text, downSent, List.nil_append, List.append_nil]
    | _ => simp_all
  | recvPrefix client _ _ fits => exact phase_recvPrefix json h client fits ok
  | sendPacket =>
    cases h with
    | running client newclient replied holds up down =>
      refine .running client newclient replied holds ?_ down
      rw [← List.append_assoc, up]
    | _ => simp_all
  | readPacket =>
    cases h with
    | running client newclient replied holds up down =>
      refine .running client newclient replied holds ?_ down
      rw [List.append_assoc, List.take_append_drop, up]
    | _ => simp_all
  | writePacket =>
    cases h with
    | answered text client newclient replied toServer toClient quiet =>
      refine .answered text client newclient replied toServer ?_ ⟨quiet.1, quiet.2, quiet.3⟩
      rw [toClient, List.append_assoc]
    | running client newclient replied holds up down =>
      refine .running client newclient replied holds up ?_
      rw [← List.append_assoc, down]
    | _ => simp_all
  | recvPacket =>
    cases h with
    | running client newclient replied holds up down =>
      refine .running client newclient replied holds up ?_
      rw [List.append_assoc, List.take_append_drop, down]
    | _ => simp_all

/-- A hello cut in pieces leaves the server without an id. -/
theorem broken_readHello (json : lib.Json) (hid : IdText id) {n : ℕ} (h : Phase id s)
    (bad : s.toServer.take n ≠ hello (utf8 id)) (hst : step lib id s (.readHello n) = some t) :
    Broken t := by
  cases moved_of_step hst with | readHello _ _ h0 =>
  cases h with
  | asking client newclient replied toServer toClient downSent quiet =>
    rw [toServer, hello_eq hid] at bad
    have hlt : n < (object "Id" id).length := by
      by_contra hge
      exact bad (List.take_of_length_le (by omega))
    refine .stuck ⟨client, ?_, replied, toClient, ?_⟩
    · simp only [toServer, unmarshal_hello_part json hid h0 hlt]
    · simp only [toServer]
      exact rest_hello hid h0
  | _ => simp_all

theorem longer_of_take_ne {text rest : List UInt8} {n : ℕ} (hle : text.length ≤ n)
    (hne : (text ++ rest).take n ≠ text) : text.length < n ∧ rest ≠ [] := by
  constructor
  · apply lt_of_le_of_ne hle
    rintro rfl
    exact hne (List.take_left' rfl)
  · rintro rfl
    rw [List.append_nil] at hne
    exact hne (List.take_of_length_le hle)

/-- A reply cut in pieces is given up; with more than the reply bytes of packets are gone. -/
theorem broken_recvPrefix (json : lib.Json) {n : ℕ} {stack : Stack} (h : Phase id s)
    (bad : ¬WholeMessages lib id s (.recvPrefix n stack))
    (hst : step lib id s (.recvPrefix n stack) = some t) : Broken t := by
  cases moved_of_step hst with | recvPrefix _ _ h0 fits =>
  have hbytes := bytes_recv fits s.toClient
  cases h with
  | @answered p text client newclient replied toServer toClient quiet =>
    by_cases hlt : n < (object "Prefix" p).length
    · -- a part of the reply
      rw [toClient, List.take_append_of_le_length hlt.le] at hbytes
      refine .failed ?_
      simp only [toClient, readPrefix_part text stack s.prefixbuf h0 hlt hbytes]
      rfl
    · by_cases hok : (readPrefix stack (recv n s.toClient) s.prefixbuf).1 = true
      · by_cases htake : s.toClient.take n = object "Prefix" p
        · -- the reply, over the end of an older prefix
          have hread := readPrefix_reply text (hbytes.trans htake) stack s.prefixbuf
          refine .garbled (p := p) ?_ replied ?_
          · simp only [hok, if_true]
          · simp only [hread, holds_store]
            intro hnul
            exact bad ⟨p, replied, by rw [json.marshal p text, htake], hnul⟩
        · -- more than the reply
          have hmore : (object "Prefix" p).length < n ∧ s.downSent ≠ [] :=
            longer_of_take_ne (by omega) (toClient ▸ htake)
          refine .lost (p := p) ?_ replied ?_
          · simp only [hok, if_true]
          · have hpos := List.length_pos_iff.mpr hmore.2
            simp only [quiet.downReceived, toClient, List.length_nil, List.length_drop,
              List.length_append]
            omega
      · refine .failed ?_
        simp only [hok]
        rfl
  | _ => simp_all

theorem broken_of_not_whole {e : Event} (json : lib.Json) (hid : IdText id) (h : Phase id s)
    (bad : ¬WholeMessages lib id s e) (hst : step lib id s e = some t) : Broken t := by
  cases e with
  | readHello n => exact broken_readHello json hid h bad hst
  | recvPrefix n stack => exact broken_recvPrefix json h bad hst
  | _ => exact absurd trivial bad

theorem stuck_step {e : Event} (json : lib.Json) (h : Stuck s)
    (hst : step lib id s e = some t) : Stuck t := by
  obtain ⟨client, newclient, replied, toClient, rest⟩ := h
  cases moved_of_step hst with
  | readHello =>
    refine ⟨client, ?_, replied, toClient, fun b hb => rest b (List.mem_of_mem_drop hb)⟩
    apply unmarshal_part json
    · intro b hb
      exact (rest b (List.mem_of_mem_take hb)).2
    · intro hl _
      exact (rest _ (List.mem_of_mem_take hl)).1 rfl
  | _ => simp_all

theorem failed_step {e : Event} (hc : s.client = .failed) (hst : step lib id s e = some t) :
    t.client = .failed := by
  cases moved_of_step hst with
  | readHello | writePrefix | readPacket | writePacket => exact hc
  | _ => simp_all

/-- Once the client has its prefix the handshake is over, and the bytes under way and received
grow with those sent. -/
theorem running_step {e : Event} {p : String} (hc : s.client = .running)
    (hr : s.replied = some p) (hst : step lib id s e = some t) :
    t.client = .running ∧ t.replied = some p ∧ t.prefixbuf = s.prefixbuf ∧
      t.downReceived.length + t.toClient.length + s.downSent.length =
        s.downReceived.length + s.toClient.length + t.downSent.length := by
  cases moved_of_step hst with
  | readHello | sendPacket | readPacket => exact ⟨hc, hr, rfl, rfl⟩
  | writePacket =>
    refine ⟨hc, hr, rfl, ?_⟩
    simp only [List.length_append]
    omega
  | recvPacket =>
    refine ⟨hc, hr, rfl, ?_⟩
    simp only [List.length_append, List.length_take, List.length_drop]
    omega
  | _ => simp_all

theorem broken_step {e : Event} (json : lib.Json) (h : Broken s)
    (hst : step lib id s e = some t) : Broken t := by
  cases h with
  | stuck h => exact .stuck (stuck_step json h hst)
  | failed client => exact .failed (failed_step client hst)
  | lost client replied fewer =>
    obtain ⟨hc, hr, -, hlen⟩ := running_step client replied hst
    exact .lost hc hr (by omega)
  | garbled client replied garbled =>
    obtain ⟨hc, hr, hb, -⟩ := running_step client replied hst
    exact .garbled hc hr (hb ▸ garbled)

/-- From a broken connection no run gets on with the handshake kept. -/
theorem not_kept_of_broken (json : lib.Json) (h : Broken s) : ¬HandshakeKept lib id s := by
  intro hk
  obtain ⟨es, t, hrun, hnew, hc⟩ := hk.completes
  cases h with
  | stuck h =>
    have ht := Machine.run_keeps (I := Stuck) (M := machine lib id)
      (fun _ e _ h hst => stuck_step (e := e) json h hst) h es hrun
    rw [ht.newclient] at hnew
    cases hnew
  | failed client =>
    have ht := Machine.run_keeps (I := fun s => s.client = .failed) (M := machine lib id)
      (fun _ e _ h hst => failed_step (e := e) h hst) client es hrun
    exact absurd (ht.symm.trans hc) nofun
  | lost client replied fewer =>
    have hlen := congrArg List.length (hk.downKept client)
    rw [List.length_append] at hlen
    omega
  | garbled client replied garbled =>
    obtain ⟨p, hr, hold⟩ := hk.prefixKept client
    rw [replied] at hr
    cases hr
    exact garbled hold

theorem completes_of_step {e : Event} (hst : step lib id s e = some t)
    (h : Completes lib id t) : Completes lib id s := by
  obtain ⟨es, u, hrun, hu⟩ := h
  refine ⟨e :: es, u, ?_, hu⟩
  rw [Machine.run_cons]
  exact (congrArg (Option.bind · fun t => (machine lib id).run t es) hst).trans hrun

theorem completes_running (newclient : s.newclient = some id) (client : s.client = .running) :
    Completes lib id s := ⟨[], s, rfl, by rw [newclient]; rfl, client⟩

theorem completes_answered {p : String} (text : PrefixText p) (client : s.client = .waiting)
    (newclient : s.newclient = some id)
    (toClient : s.toClient = object "Prefix" p ++ s.downSent) : Completes lib id s := by
  have htake : s.toClient.take (object "Prefix" p).length = object "Prefix" p := by
    rw [toClient, List.take_left' rfl]
  have hne : s.toClient ≠ [] := by simp [toClient, object]
  have hlen := length_reply_le text
  have hread := readPrefix_reply text ((bytes_recv hlen s.toClient).trans htake) emptyStack
  apply completes_of_step (e := .recvPrefix (object "Prefix" p).length emptyStack)
  · rw [step, if_pos ⟨client, hne, by simp [object], hlen⟩, hread]
  · exact completes_running newclient rfl

theorem completes_known (json : lib.Json) (client : s.client = .waiting)
    (newclient : s.newclient = some id) (replied : s.replied = none)
    (toClient : s.toClient = []) (downSent : s.downSent = []) : Completes lib id s := by
  have text : PrefixText "::/64" := by decide +kernel
  apply completes_of_step (e := .writePrefix "::/64")
  · rw [step, if_pos ⟨by rw [newclient]; rfl, replied, text⟩]
  · refine completes_answered text client newclient ?_
    simp [toClient, downSent, json.marshal _ text]

theorem completes_asking (json : lib.Json) (hid : IdText id) (client : s.client = .waiting)
    (newclient : s.newclient = none) (replied : s.replied = none)
    (toServer : s.toServer = object "Id" id) (toClient : s.toClient = [])
    (downSent : s.downSent = []) : Completes lib id s := by
  have hne : s.toServer ≠ [] := by simp [toServer, object]
  have hlen : (object "Id" id).length ≤ bufLen := by
    rw [length_object plain_idKey (plain_id hid), length_idKey, hid.1]
    decide
  have htake : s.toServer.take (object "Id" id).length = object "Id" id := by
    rw [toServer, List.take_length]
  apply completes_of_step (e := .readHello (object "Id" id).length)
  · rw [step, if_pos ⟨newclient, hne, by simp [object], hlen⟩, htake]
  · exact completes_known json client (json.unmarshal id hid) replied toClient downSent

theorem completes_of_phase (json : lib.Json) (hid : IdText id) (h : Phase id s) :
    Completes lib id s := by
  cases h with
  | connected client newclient replied toServer toClient downSent quiet =>
    apply completes_of_step (e := .sendId)
    · rw [step, if_pos client]
    · refine completes_asking json hid rfl newclient replied ?_ toClient downSent
      rw [toServer, hello_eq hid, List.nil_append]
  | asking client newclient replied toServer toClient downSent quiet =>
    exact completes_asking json hid client newclient replied toServer toClient downSent
  | known client newclient replied toServer toClient downSent quiet =>
    exact completes_known json client newclient replied toClient downSent
  | answered text client newclient replied toServer toClient quiet =>
    exact completes_answered text client newclient toClient
  | running client newclient replied holds up down => exact completes_running newclient client

theorem kept_of_phase (json : lib.Json) (hid : IdText id) (h : Phase id s) :
    HandshakeKept lib id s := by
  have hcompletes := completes_of_phase json hid h
  cases h with
  | connected client newclient replied toServer toClient downSent quiet =>
    constructor <;> simp_all
  | asking client newclient replied toServer toClient downSent quiet =>
    constructor <;> simp_all
  | known client newclient replied toServer toClient downSent quiet =>
    constructor <;> simp_all [quiet.upSent, quiet.upReceived]
  | answered text client newclient replied toServer toClient quiet =>
    constructor <;> simp_all [quiet.upSent, quiet.upReceived]
  | @running p client newclient replied holds up down =>
    constructor
    · intro id' hid'
      exact Option.some.inj (hid'.symm.trans newclient)
    · intro _
      exact ⟨p, replied, holds⟩
    · intro _
      exact up
    · intro _
      exact down
    · exact hcompletes

/-- On every way the bytes are cut and joined: the handshake is kept just when every message is
read whole. -/
theorem handshakeKept_iff_wholeMessages (lib : Library) (json : lib.Json) (id : String)
    (hid : IdText id) (s : Link) (h : (machine lib id).Reachable Machine.Any s) :
    HandshakeKept lib id s ↔ (machine lib id).Reachable (WholeMessages lib id) s := by
  have hphase {u : Link} (hr : (machine lib id).Reachable (WholeMessages lib id) u) :
      Phase id u := by
    apply hr.invariant
    · rintro u ⟨prefixbuf, rfl⟩
      exact phase_opened prefixbuf
    · intro u e v
      exact phase_step json hid
  constructor
  · intro hk
    have hor : (machine lib id).Reachable (WholeMessages lib id) s ∨ Broken s := h.ok_or_broken
      (fun _ _ _ hr bad hst => broken_of_not_whole json hid (hphase hr) bad hst)
      (fun _ _ _ hb hst => broken_step json hb hst)
    exact hor.resolve_right fun hb => not_kept_of_broken json hb hk
  · intro hr
    exact kept_of_phase json hid (hphase hr)

/-- The parser of JSON objects of strings; a missing id is empty. -/
def sampleLibrary : Library :=
  ⟨fun text => (JsonText.unmarshal text).map fun m => (m.lookup "Id").getD "", object "Prefix"⟩

theorem unmarshal_object (key value : String) :
    JsonText.unmarshal (object key value) = some (Finmap.insert key value ∅) := by
  rw [unmarshal_eq_some]
  -- the first key is read the same way as any other
  calc scanner.run .start (object key value)
      = scanner.run (.next ∅) (member (key, value) ++ [rightBrace]) := rfl
    _ = scanner.run (.after (Finmap.insert key value ∅)) [rightBrace] := scan_member _ _
    _ = some (.done (Finmap.insert key value ∅)) := rfl

theorem sampleLibrary_json : sampleLibrary.Json := by
  constructor
  · intro id _
    simp [sampleLibrary, unmarshal_object]
  · intro p _
    rfl
  · intro text id h
    obtain ⟨m, hm, -⟩ := Option.map_eq_some_iff.mp h
    rw [unmarshal_eq_some] at hm
    exact .inl ⟨leftBrace_of_scan hm nofun, rightBrace_of_scan hm nofun⟩

def sampleId : String := "b8:27:eb:00:00:01"

theorem opened_reachable (lib : Library) (id : String) :
    (machine lib id).Reachable Machine.Any (opened fun _ => 0) := .start ⟨_, rfl⟩

/-- The reply and a packet right behind it are read one after the other. -/
theorem handshakeKept_iff_wholeMessages_apart :
    ∃ s, s.downReceived = [0x60, 0] ∧ (HandshakeKept sampleLibrary sampleId s ↔
      (machine sampleLibrary sampleId).Reachable (WholeMessages sampleLibrary sampleId) s) := by
  have hrun : ((machine sampleLibrary sampleId).run (opened fun _ => 0) [.sendId,
      .readHello 4096, .writePrefix "2001:db8::/64", .writePacket [0x60, 0],
      .recvPrefix 26 emptyStack, .recvPacket 4096]).map Link.downReceived =
        some [0x60, 0] := by decide +kernel
  obtain ⟨s, hs, hd⟩ := Option.map_eq_some_iff.mp hrun
  exact ⟨s, hd, handshakeKept_iff_wholeMessages sampleLibrary sampleLibrary_json sampleId
    (by decide +kernel) s ((opened_reachable _ _).run _ hs)⟩

/-- The client reads the packet with the reply: it is gone. -/
theorem joined_packet_lost :
    ∃ s, (machine sampleLibrary sampleId).Reachable Machine.Any s ∧ s.downSent = [0x60, 0] ∧
      s.toClient = [] ∧ s.downReceived = [] ∧ ¬HandshakeKept sampleLibrary sampleId s := by
  have hrun : ((machine sampleLibrary sampleId).run (opened fun _ => 0) [.sendId,
      .readHello 4096, .writePrefix "2001:db8::/64", .writePacket [0x60, 0],
      .recvPrefix 4095 emptyStack]).map
        (fun s => (s.client, s.downSent, s.toClient, s.downReceived)) =
          some (.running, [0x60, 0], [], []) := by decide +kernel
  obtain ⟨s, hs, he⟩ := Option.map_eq_some_iff.mp hrun
  obtain ⟨hc, he⟩ := Prod.mk.inj he
  obtain ⟨hsent, he⟩ := Prod.mk.inj he
  obtain ⟨hto, hrec⟩ := Prod.mk.inj he
  refine ⟨s, (opened_reachable _ _).run _ hs, hsent, hto, hrec, ?_⟩
  intro hk
  have hdown := hk.downKept hc
  rw [hsent, hto, hrec] at hdown
  cases hdown

end RpiCc2520.TunnelHandshake
