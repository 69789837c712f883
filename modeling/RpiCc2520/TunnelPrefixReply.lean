import RpiCc2520.BytePipe
import RpiCc2520.JsmnGrammar

/-! What the client takes from a reply: which tokens `get_prefix` looks at, what it writes to the
buffer `prefix` and what it reports, for any reply, any earlier content of the buffer and anything
the stack may hold. -/
namespace RpiCc2520.TunnelPrefixReply
open BytePipe JsonText JsmnTree JsmnGrammar

/-- What `recv` is asked for at most; a byte of the buffer is left for the NUL. -/
def recvLen : ℕ := 4095

structure Reply where
  bytes : List UInt8
  short : bytes.length ≤ recvLen

/-- The stack when `get_prefix` begins: the bytes around the start of `buf`, and the entries of
`tok`. -/
structure Stack where
  buf : ℤ → UInt8
  tok : ℕ → SizedToken

def emptyStack : Stack := ⟨fun _ => 0, fun _ => ⟨.primitive, 0, 0, 0⟩⟩

/-- `buf` with the reply and a NUL behind it; the rest is as it was. -/
def received (stack : ℤ → UInt8) (reply : List UInt8) : ℤ → UInt8 :=
  fun a => if 0 ≤ a then (reply ++ [0]).getD a.toNat (stack a) else stack a

/-- The length of a token, as a `size_t`. -/
def len (t : SizedToken) : ℕ := ((t.stop - t.start) % 2 ^ 32).toNat

/-- The bytes of a token, wherever it points to. -/
def slice (buf : ℤ → UInt8) (t : SizedToken) : List UInt8 :=
  (List.range (len t)).map fun (i : ℕ) => buf (t.start + i)

def tokenString (buf : ℤ → UInt8) (t : SizedToken) (s : String) : Bool :=
  (utf8 s).length == len t && slice buf t == utf8 s

/-- What `get_prefix` returns, the buffer `prefix` after it, the indices of the tokens it looked
at and the number of bytes it asked `memcpy` to copy. -/
structure Outcome where
  ret : ℤ
  prefixbuf : ℕ → UInt8
  looked : List ℕ
  copied : ℕ

def prefixLen : ℕ := 48

def numTokens : ℕ := 10

/-- `get_prefix`: `sentLen` is what `send` returns and `reply` what `recv` gives, if it does. The
entries of `tok` that the parser has not filled are what the stack held. -/
def getPrefix (sentLen : ℤ) (reply : Option Reply) (stack : Stack) (prefixbuf : ℕ → UInt8) :
    Outcome :=
  if sentLen = -1 then ⟨-1, prefixbuf, [], 0⟩ else
  match reply with
  | none => ⟨-1, prefixbuf, [], 0⟩
  | some reply =>
      let buf := received stack.buf reply.bytes
      match jsmnParse numTokens reply.bytes with
      | .error _ => ⟨-1, prefixbuf, [], 0⟩
      | .ok tokens =>
          let tok (i : ℕ) := tokens.getD i (stack.tok i)
          match (List.range 9).find? fun i => tokenString buf (tok i) "Prefix" with
          | some i =>
              let prefixbuf := store prefixbuf 0 (slice buf (tok (i + 1)))
              ⟨if prefixbuf 0 = 0 then -1 else 0, prefixbuf, List.range (i + 1) ++ [i + 1],
                len (tok (i + 1))⟩
          | none => ⟨if prefixbuf 0 = 0 then -1 else 0, prefixbuf, List.range 9, 0⟩

/-- A buffer that holds a text up to its NUL. -/
def Holds (buf : ℕ → UInt8) (text : List UInt8) : Prop :=
  load buf 0 text.length = text ∧ buf text.length = 0

/-- The array `prefix` holds this text as a string. -/
structure StringIs (prefixbuf : ℕ → UInt8) (s : List UInt8) : Prop where
  short : s.length < prefixLen
  noNul : 0 ∉ s
  holds : Holds prefixbuf s

def tokenText (reply : List UInt8) (t : SizedToken) : List UInt8 :=
  (reply.drop t.start.toNat).take (t.stop - t.start).toNat

/-- Token `i` of a reply is the first whose text is `Prefix`. -/
def FirstKey (reply : List UInt8) (tokens : List SizedToken) (i : ℕ) : Prop :=
  (∃ key, tokens[i]? = some key ∧ tokenText reply key = utf8 "Prefix") ∧
    ∀ j < i, ∀ t, tokens[j]? = some t → tokenText reply t ≠ utf8 "Prefix"

/-- The text that follows the first token `Prefix`. -/
def NamedPrefix (reply : List UInt8) (tokens : List SizedToken) (s : List UInt8) : Prop :=
  ∃ i value, FirstKey reply tokens i ∧ tokens[i + 1]? = some value ∧ tokenText reply value = s

def parsed : Option Reply → List UInt8 × List SizedToken
  | none => ([], [])
  | some reply => (reply.bytes, (jsmnParse numTokens reply.bytes).toOption.getD [])

/-- `get_prefix` fails, or has taken the prefix from this reply; it looks at tokens of this reply
only, and does not write behind the buffer. -/
structure Believes (reply : Option Reply) (out : Outcome) : Prop where
  ret : out.ret = -1 ∨ (out.ret = 0 ∧
    ∃ s, NamedPrefix (parsed reply).1 (parsed reply).2 s ∧ StringIs out.prefixbuf s)
  looked : ∀ i ∈ out.looked, i < (parsed reply).2.length
  copied : out.copied ≤ prefixLen

/-- A reply that `get_prefix` gets right: one that is refused, one that names a prefix of at most 47
bytes where the buffer has a NUL at its end, or one with at least nine tokens and no name among
these, when the buffer is empty. -/
inductive Understood (prefixbuf : ℕ → UInt8) (reply : List UInt8) : Prop
  | refused {e : JsmnError} (parse : jsmnParse numTokens reply = .error e)
  | named {tokens : List SizedToken} {i : ℕ} {value : SizedToken}
      (parse : jsmnParse numTokens reply = .ok tokens) (early : i < 9)
      (key : FirstKey reply tokens i) (next : tokens[i + 1]? = some value)
      (short : (tokenText reply value).length < prefixLen)
      (ends : prefixbuf (tokenText reply value).length = 0)
  | unnamed {tokens : List SizedToken} (parse : jsmnParse numTokens reply = .ok tokens)
      (many : 9 ≤ tokens.length)
      (key : ∀ i < 9, ∀ t, tokens[i]? = some t → tokenText reply t ≠ utf8 "Prefix")
      (empty : prefixbuf 0 = 0)

theorem received_of_lt (stack : ℤ → UInt8) {reply : List UInt8} {a : ℕ} (h : a < reply.length) :
    received stack reply a = reply[a] := by
  rw [received, if_pos (Int.natCast_nonneg a), Int.toNat_natCast,
    List.getD_append _ _ _ _ h, List.getD_eq_getElem _ _ h]

section
variable {reply : Reply} {t : SizedToken} (stack : ℤ → UInt8)

theorem length_text_le (js : List UInt8) : (text js).length ≤ js.length :=
  (List.takeWhile_prefix _).length_le

theorem toNat_len (h : InText reply.bytes t) : (len t : ℤ) = t.stop - t.start := by
  obtain ⟨hstart, hle, hstop⟩ := h
  have hshort := reply.short
  have htext := length_text_le reply.bytes
  unfold recvLen at hshort
  unfold len
  omega

theorem length_tokenText (h : InText reply.bytes t) : (tokenText reply.bytes t).length = len t := by
  have hlen := toNat_len h
  obtain ⟨hstart, hle, hstop⟩ := h
  have htext := length_text_le reply.bytes
  rw [tokenText, List.length_take, List.length_drop]
  omega

/-- Of a token of the reply the buffer has just what the reply has. -/
theorem slice_received (h : InText reply.bytes t) :
    slice (received stack reply.bytes) t = tokenText reply.bytes t := by
  have hlen := length_tokenText h
  have hcast := toNat_len h
  obtain ⟨hstart, hle, hstop⟩ := h
  have htext := length_text_le reply.bytes
  apply List.ext_getElem
  · rw [slice, List.length_map, List.length_range, hlen]
  · intro i hi hi'
    rw [hlen] at hi'
    have hplace : t.start + i = ((t.start.toNat + i : ℕ) : ℤ) := by omega
    simp only [slice, tokenText, List.getElem_map, List.getElem_range, List.getElem_take,
      List.getElem_drop]
    rw [hplace, received_of_lt stack (by omega)]

theorem tokenString_received (h : InText reply.bytes t) (s : String) :
    tokenString (received stack reply.bytes) t s = true ↔ tokenText reply.bytes t = utf8 s := by
  have hlen := length_tokenText h
  unfold tokenString
  rw [slice_received stack h, Bool.and_eq_true, beq_iff_eq, beq_iff_eq]
  constructor
  · exact And.right
  · intro hs
    exact ⟨by rw [← hlen, hs], hs⟩

theorem noNul_tokenText (h : InText reply.bytes t) : 0 ∉ tokenText reply.bytes t := by
  obtain ⟨hstart, hle, hstop⟩ := h
  have htext : reply.bytes = text reply.bytes ++ reply.bytes.dropWhile (· ≠ 0) :=
    List.takeWhile_append_dropWhile.symm
  have hslice : tokenText reply.bytes t =
      ((text reply.bytes).drop t.start.toNat).take (t.stop - t.start).toNat := by
    conv_lhs => rw [tokenText, htext]
    rw [List.drop_append_of_le_length (by omega), List.take_append_of_le_length]
    rw [List.length_drop]
    omega
  rw [hslice]
  intro h0
  have hne := List.mem_takeWhile_imp (List.mem_of_mem_drop (List.mem_of_mem_take h0))
  simp at hne

end

section
variable {reply : Reply} {tokens : List SizedToken} (stack : Stack) (prefixbuf : ℕ → UInt8)

theorem getD_of_getElem? {i : ℕ} {t : SizedToken} (h : tokens[i]? = some t) :
    tokens.getD i (stack.tok i) = t := by
  rw [List.getD_eq_getElem?_getD, h]
  rfl

theorem getElem?_of_lt {i : ℕ} (h : i < tokens.length) :
    tokens[i]? = some (tokens.getD i (stack.tok i)) := by
  rw [List.getD_eq_getElem _ _ h, List.getElem?_eq_getElem h]

def matchesKey (reply : Reply) (stack : Stack) (tokens : List SizedToken) (i : ℕ) : Bool :=
  tokenString (received stack.buf reply.bytes) (tokens.getD i (stack.tok i)) "Prefix"

theorem matchesKey_iff (parse : jsmnParse numTokens reply.bytes = .ok tokens) {i : ℕ}
    {t : SizedToken} (ht : tokens[i]? = some t) :
    matchesKey reply stack tokens i = true ↔ tokenText reply.bytes t = utf8 "Prefix" := by
  rw [matchesKey, getD_of_getElem? stack ht]
  exact tokenString_received stack.buf
    ((found_of_jsmnParse parse).1 t (List.mem_of_getElem? ht)) "Prefix"

theorem find_of_firstKey (parse : jsmnParse numTokens reply.bytes = .ok tokens) {i : ℕ}
    (h : FirstKey reply.bytes tokens i) (early : i < 9) :
    (List.range 9).find? (matchesKey reply stack tokens) = some i := by
  obtain ⟨⟨key, hkey, hi⟩, hbefore⟩ := h
  have hlen := (List.getElem?_eq_some_iff.mp hkey).1
  rw [List.find?_range_eq_some]
  refine ⟨(matchesKey_iff stack parse hkey).mpr hi, List.mem_range.mpr early, fun j hj => ?_⟩
  have hj' := getElem?_of_lt stack (hj.trans hlen)
  have hne := mt (matchesKey_iff stack parse hj').mp (hbefore j hj _ hj')
  simpa using hne

theorem firstKey_of_find (parse : jsmnParse numTokens reply.bytes = .ok tokens) {i : ℕ}
    (hlen : i < tokens.length)
    (h : (List.range 9).find? (matchesKey reply stack tokens) = some i) :
    FirstKey reply.bytes tokens i := by
  rw [List.find?_range_eq_some] at h
  obtain ⟨hi, -, hbefore⟩ := h
  have hkey := getElem?_of_lt stack hlen
  refine ⟨⟨_, hkey, (matchesKey_iff stack parse hkey).mp hi⟩, ?_⟩
  intro j hj t ht htext
  have hfalse := hbefore j hj
  rw [(matchesKey_iff stack parse ht).mpr htext] at hfalse
  exact absurd hfalse (by decide)

theorem FirstKey.unique {bytes : List UInt8} {i j : ℕ} (hi : FirstKey bytes tokens i)
    (hj : FirstKey bytes tokens j) : i = j := by
  have hle {i j : ℕ} (hi : FirstKey bytes tokens i) (hj : FirstKey bytes tokens j) : i ≤ j := by
    by_contra hlt
    obtain ⟨key, hkey, htrue⟩ := hj.1
    exact hi.2 j (not_le.mp hlt) key hkey htrue
  exact le_antisymm (hle hi hj) (hle hj hi)

theorem getPrefix_refused {sentLen : ℤ} {e : JsmnError} (hsent : sentLen ≠ -1)
    (parse : jsmnParse numTokens reply.bytes = .error e) :
    getPrefix sentLen (some reply) stack prefixbuf = ⟨-1, prefixbuf, [], 0⟩ := by
  unfold getPrefix
  rw [if_neg hsent]
  simp only [parse]

theorem getPrefix_found {sentLen : ℤ} {i : ℕ} {value : SizedToken} (hsent : sentLen ≠ -1)
    (parse : jsmnParse numTokens reply.bytes = .ok tokens)
    (hfind : (List.range 9).find? (matchesKey reply stack tokens) = some i)
    (next : tokens[i + 1]? = some value) :
    getPrefix sentLen (some reply) stack prefixbuf =
      ⟨if store prefixbuf 0 (tokenText reply.bytes value) 0 = 0 then -1 else 0,
        store prefixbuf 0 (tokenText reply.bytes value),
        List.range (i + 1) ++ [i + 1], (tokenText reply.bytes value).length⟩ := by
  have hvalue := (found_of_jsmnParse parse).1 value (List.mem_of_getElem? next)
  rw [← slice_received stack.buf hvalue, slice_received stack.buf hvalue,
    length_tokenText hvalue, ← slice_received stack.buf hvalue]
  unfold matchesKey at hfind
  unfold getPrefix
  rw [if_neg hsent]
  simp only [parse, hfind, getD_of_getElem? stack next]

theorem looked_getPrefix {sentLen : ℤ} (hsent : sentLen ≠ -1)
    (parse : jsmnParse numTokens reply.bytes = .ok tokens) :
    (getPrefix sentLen (some reply) stack prefixbuf).looked =
      match (List.range 9).find? (matchesKey reply stack tokens) with
      | some i => List.range (i + 1) ++ [i + 1]
      | none => List.range 9 := by
  unfold matchesKey getPrefix
  rw [if_neg hsent]
  simp only [parse]
  split <;> simp only [*]

theorem getPrefix_unnamed {sentLen : ℤ} (hsent : sentLen ≠ -1)
    (parse : jsmnParse numTokens reply.bytes = .ok tokens)
    (hfind : (List.range 9).find? (matchesKey reply stack tokens) = none) :
    getPrefix sentLen (some reply) stack prefixbuf =
      ⟨if prefixbuf 0 = 0 then -1 else 0, prefixbuf, List.range 9, 0⟩ := by
  unfold matchesKey at hfind
  unfold getPrefix
  rw [if_neg hsent]
  simp only [parse, hfind]

theorem parsed_ok (parse : jsmnParse numTokens reply.bytes = .ok tokens) :
    parsed (some reply) = (reply.bytes, tokens) := by
  rw [parsed, parse]
  rfl

/-- The value is in the buffer as a string just when the buffer had a NUL where it ends, and the
buffer begins with a NUL only then if the value is empty. -/
theorem store_string (prefixbuf : ℕ → UInt8) {s : List UInt8} (hnul : 0 ∉ s) :
    (StringIs (store prefixbuf 0 s) s ↔ s.length < prefixLen ∧ prefixbuf s.length = 0) ∧
      (store prefixbuf 0 s 0 = 0 ↔ s = [] ∧ prefixbuf 0 = 0) := by
  have hend : store prefixbuf 0 s s.length = prefixbuf s.length :=
    store_of_length_le _ _ (Nat.zero_add _).le
  constructor
  · constructor
    · intro hs
      exact ⟨hs.short, hend ▸ hs.holds.2⟩
    · rintro ⟨hshort, hends⟩
      exact ⟨hshort, hnul, load_store _ 0 _, hend.trans hends⟩
  · cases s with
    | nil => exact (and_iff_right rfl).symm
    | cons b bs =>
      refine iff_of_false ?_ (fun h => List.cons_ne_nil b bs h.1)
      rintro rfl
      exact hnul List.mem_cons_self

/-- With the name early enough and a token behind it, success is what the buffer's old content
allows. -/
theorem believes_named {i : ℕ} {value : SizedToken} {sentLen : ℤ} (hsent : sentLen ≠ -1)
    (parse : jsmnParse numTokens reply.bytes = .ok tokens) (early : i < 9)
    (key : FirstKey reply.bytes tokens i) (next : tokens[i + 1]? = some value) :
    Believes (some reply) (getPrefix sentLen (some reply) stack prefixbuf) ↔
      (tokenText reply.bytes value).length < prefixLen ∧
        prefixbuf (tokenText reply.bytes value).length = 0 := by
  have hvalue := (found_of_jsmnParse parse).1 value (List.mem_of_getElem? next)
  obtain ⟨hstring, hempty⟩ := store_string prefixbuf (noNul_tokenText hvalue)
  have hnext := (List.getElem?_eq_some_iff.mp next).1
  rw [getPrefix_found stack prefixbuf hsent parse (find_of_firstKey stack parse key early) next]
  constructor
  · intro h
    by_cases h0 : store prefixbuf 0 (tokenText reply.bytes value) 0 = 0
    · obtain ⟨hnil, hold⟩ := hempty.mp h0
      rw [hnil]
      exact ⟨by decide, hold⟩
    · have hret := h.ret
      rw [parsed_ok parse] at hret
      rcases hret with hret | ⟨-, s, ⟨j, value', hj, hnext', rfl⟩, hs⟩
      · exact absurd hret (by simp [h0])
      · obtain rfl := key.unique hj
        rw [next, Option.some.injEq] at hnext'
        exact hstring.mp (hnext' ▸ hs)
  · intro hroom
    have hs := hstring.mpr hroom
    constructor
    · by_cases h0 : store prefixbuf 0 (tokenText reply.bytes value) 0 = 0
      · exact .inl (if_pos h0)
      · rw [parsed_ok parse]
        exact .inr ⟨if_neg h0, _, ⟨i, value, key, next, rfl⟩, hs⟩
    · intro j hj
      rw [parsed_ok parse]
      rw [List.mem_append, List.mem_range, List.mem_singleton] at hj
      change j < tokens.length
      omega
    · exact hroom.1.le

/-- Without the name in the first nine tokens the buffer is left as it was. -/
theorem believes_unnamed {sentLen : ℤ} (hsent : sentLen ≠ -1)
    (parse : jsmnParse numTokens reply.bytes = .ok tokens) (many : 9 ≤ tokens.length)
    (key : ∀ i < 9, ∀ t, tokens[i]? = some t → tokenText reply.bytes t ≠ utf8 "Prefix") :
    Believes (some reply) (getPrefix sentLen (some reply) stack prefixbuf) ↔
      prefixbuf 0 = 0 := by
  obtain ⟨-, hten⟩ := found_of_jsmnParse parse
  have hfind : (List.range 9).find? (matchesKey reply stack tokens) = none := by
    rw [List.find?_range_eq_none]
    intro i hi
    have hget := getElem?_of_lt stack (hi.trans_le many)
    have hne := mt (matchesKey_iff stack parse hget).mp (key i hi _ hget)
    simpa using hne
  rw [getPrefix_unnamed stack prefixbuf hsent parse hfind]
  constructor
  · intro h
    have hret := h.ret
    rw [parsed_ok parse] at hret
    rcases hret with hret | ⟨-, s, ⟨i, value, hi, hnext, -⟩, -⟩
    · by_contra h0
      exact absurd hret (by simp [h0])
    · -- a name with a token behind it would stand among the first nine
      obtain ⟨t, ht, htrue⟩ := hi.1
      have hlen : i + 1 < tokens.length := (List.getElem?_eq_some_iff.mp hnext).1
      unfold numTokens at hten
      exact absurd htrue (key i (by omega) t ht)
  · intro h0
    refine ⟨.inl (if_pos h0), ?_, Nat.zero_le _⟩
    intro i hi
    rw [parsed_ok parse]
    exact (List.mem_range.mp hi).trans_le many

theorem believes_iff_understood {sentLen : ℤ} (hsent : sentLen ≠ -1) :
    Believes (some reply) (getPrefix sentLen (some reply) stack prefixbuf) ↔
      Understood prefixbuf reply.bytes := by
  cases parse : jsmnParse numTokens reply.bytes with
  | error e =>
    rw [getPrefix_refused stack prefixbuf hsent parse]
    exact iff_of_true ⟨.inl rfl, List.forall_mem_nil _, Nat.zero_le _⟩ (.refused parse)
  | ok tokens =>
    constructor
    · intro h
      have hlooked := h.looked
      rw [looked_getPrefix stack prefixbuf hsent parse, parsed_ok parse] at hlooked
      cases hfind : (List.range 9).find? (matchesKey reply stack tokens) with
      | some i =>
        simp only [hfind] at hlooked
        have hnext : i + 1 < tokens.length :=
          hlooked (i + 1) (List.mem_append_right _ (List.mem_singleton_self _))
        have hkey := firstKey_of_find stack parse ((Nat.lt_succ_self i).trans hnext) hfind
        have hearly := List.mem_range.mp (List.find?_range_eq_some.mp hfind).2.1
        have hvalue := getElem?_of_lt stack hnext
        obtain ⟨hshort, hends⟩ :=
          (believes_named stack prefixbuf hsent parse hearly hkey hvalue).mp h
        exact .named parse hearly hkey hvalue hshort hends
      | none =>
        simp only [hfind] at hlooked
        have hmany : 8 < tokens.length := hlooked 8 (List.mem_range.mpr (by decide))
        have hkey : ∀ i < 9, ∀ t, tokens[i]? = some t →
            tokenText reply.bytes t ≠ utf8 "Prefix" := by
          intro i hi t ht htext
          have hnone := List.find?_range_eq_none.mp hfind i hi
          rw [(matchesKey_iff stack parse ht).mpr htext] at hnone
          exact absurd hnone (by decide)
        exact .unnamed parse hmany hkey
          ((believes_unnamed stack prefixbuf hsent parse hmany hkey).mp h)
    · intro h
      cases h with
      | refused parse' => exact absurd (parse.symm.trans parse') (by simp)
      | named parse' early key next short ends =>
        cases parse.symm.trans parse'
        exact (believes_named stack prefixbuf hsent parse early key next).mpr ⟨short, ends⟩
      | unnamed parse' many key empty =>
        cases parse.symm.trans parse'
        exact (believes_unnamed stack prefixbuf hsent parse many key).mpr empty

end

/-- What `get_prefix` reports can be relied on exactly when nothing was received or the reply is one
it gets right, whatever the stack holds. -/
theorem believes_iff (sentLen : ℤ) (reply : Option Reply) (stack : Stack)
    (prefixbuf : ℕ → UInt8) : Believes reply (getPrefix sentLen reply stack prefixbuf) ↔
      sentLen = -1 ∨ ∀ r, reply = some r → Understood prefixbuf r.bytes := by
  have hfails {reply : Option Reply} : Believes reply ⟨-1, prefixbuf, [], 0⟩ :=
    ⟨.inl rfl, List.forall_mem_nil _, Nat.zero_le _⟩
  by_cases hsent : sentLen = -1
  · unfold getPrefix
    rw [if_pos hsent]
    exact iff_of_true hfails (.inl hsent)
  · cases reply with
    | none =>
      unfold getPrefix
      rw [if_neg hsent]
      exact iff_of_true hfails (.inr nofun)
    | some r =>
      rw [believes_iff_understood stack prefixbuf hsent, or_iff_right hsent]
      constructor
      · rintro h r' ⟨⟩
        exact h
      · intro h
        exact h r rfl

/-- The stack as an earlier call left it that got a prefix. -/
def leftOver : Stack where
  buf := received (fun _ => 0) (utf8 "\x7b\"Prefix\":\"2001:db8::/64\"\x7d")
  tok i := [⟨.object, 0, 26, 2⟩, ⟨.string, 2, 8, 0⟩, ⟨.string, 11, 24, 0⟩].getD i
    ⟨.primitive, 0, 0, 0⟩

/-- A reply without any text, after an earlier connection that got a prefix: `get_prefix` finds the
name and the prefix in what that one left on the stack and reports success. On another stack it
finds no name, and reports success with what `prefix` held. -/
theorem empty_reply_believed :
    let old := store (fun _ => 0) 0 (utf8 "2001:db8::/64")
    let reply : Reply := ⟨[], Nat.zero_le _⟩
    let out := getPrefix 26 (some reply) leftOver old
    let out' := getPrefix 26 (some reply) emptyStack old
    (out.ret = 0 ∧ out.looked = [0, 1, 2] ∧ out.copied = 13 ∧
        StringIs out.prefixbuf (utf8 "2001:db8::/64") ∧ ¬Believes (some reply) out) ∧
      out'.ret = 0 ∧ out'.copied = 0 ∧ StringIs out'.prefixbuf (utf8 "2001:db8::/64") ∧
        ¬Believes (some reply) out' := by
  intro old reply out out'
  have hlooked {o : Outcome} (h0 : 0 ∈ o.looked) : ¬Believes (some reply) o := by
    intro h
    exact absurd (h.looked 0 h0) (by decide +kernel)
  refine ⟨⟨by decide +kernel, by decide +kernel, by decide +kernel, ?_, ?_⟩, by decide +kernel,
    by decide +kernel, ?_, ?_⟩
  · exact ⟨by decide +kernel, by decide +kernel, by decide +kernel, by decide +kernel⟩
  · exact hlooked (by decide +kernel)
  · exact ⟨by decide +kernel, by decide +kernel, by decide +kernel, by decide +kernel⟩
  · exact hlooked (by decide +kernel)

end RpiCc2520.TunnelPrefixReply
