import RpiCc2520.JsmnTree

/-! What the parser accepts: a grammar of the texts and of their tokens, and that the parser
follows it in both directions. -/
namespace RpiCc2520.JsmnGrammar
open JsonText JsmnTree

def Separator (b : UInt8) : Prop := isSpace b = true ∨ b = colon ∨ b = comma

inductive StringBody : List UInt8 → Prop
  | nil : StringBody []
  | literal {b : UInt8} {s : List UInt8} : Literal b → StringBody s → StringBody (b :: s)
  | escape {c : UInt8} {s : List UInt8} : c ∈ escaped → StringBody s →
      StringBody (backslash :: c :: s)

def Plain (b : UInt8) : Prop := endsPrimitive b = false ∧ 32 ≤ b ∧ b < 127

/-- A primitive ends at the end of the text, or where one of the ending bytes stands. -/
def Ends (js : List UInt8) : Prop := ∀ b ∈ js.head?, b = 0 ∨ endsPrimitive b = true

inductive Bracket : TokenType → UInt8 → UInt8 → Prop
  | object : Bracket .object leftBrace rightBrace
  | array : Bracket .array leftBracket rightBracket

/-- What may be written: strings, primitives, objects and arrays with anything that ends a
primitive between them. `Items pos js n ts` reads `js` from `pos` as `n` items, whose tokens
are `ts`. -/
inductive Items : ℕ → List UInt8 → ℕ → List SizedToken → Prop
  | nil {pos : ℕ} : Items pos [] 0 []
  | separator {pos n : ℕ} {b : UInt8} {js : List UInt8} {ts : List SizedToken} :
      Separator b → Items (pos + 1) js n ts → Items pos (b :: js) n ts
  | string {pos n : ℕ} {s js : List UInt8} {ts : List SizedToken} :
      StringBody s → Items (pos + s.length + 2) js n ts →
      Items pos (quotationMark :: (s ++ quotationMark :: js)) (n + 1)
        (⟨.string, pos + 1, (pos + 1 + s.length : ℕ), 0⟩ :: ts)
  | primitive {pos n : ℕ} {b : UInt8} {s js : List UInt8} {ts : List SizedToken} :
      b ≠ leftBrace → b ≠ leftBracket → b ≠ quotationMark → (∀ c ∈ b :: s, Plain c) → Ends js →
      Items (pos + s.length + 1) js n ts →
      Items pos (b :: (s ++ js)) (n + 1)
        (⟨.primitive, pos, (pos + s.length + 1 : ℕ), 0⟩ :: ts)
  | bracket {pos k n : ℕ} {type : TokenType} {left right : UInt8} {inner js : List UInt8}
      {us ts : List SizedToken} :
      Bracket type left right → Items (pos + 1) inner k us →
      Items (pos + inner.length + 2) js n ts →
      Items pos (left :: (inner ++ right :: js)) (n + 1)
        (⟨type, pos, (pos + inner.length + 2 : ℕ), k⟩ :: (us ++ ts))

variable {numTokens n : ℕ}

theorem stringStop_append {s : List UInt8} (h : StringBody s) (rest : List UInt8) (pos : ℕ) :
    stringStop (s ++ quotationMark :: rest) pos = .ok (pos + s.length) := by
  induction h generalizing pos with
  | nil =>
    rw [List.nil_append]
    unfold stringStop
    rw [if_neg (by decide), if_pos rfl]
    rfl
  | @literal b s hb hs ih =>
    obtain ⟨h0, hq, hbs⟩ := hb
    rw [List.cons_append]
    unfold stringStop
    rw [if_neg h0, if_neg hq, if_neg hbs, ih, List.length_cons, Nat.add_assoc, Nat.add_comm 1]
  | @escape c s hc hs ih =>
    rw [List.cons_append, List.cons_append]
    unfold stringStop
    rw [if_neg (by decide), if_neg (by decide), if_pos rfl]
    simp only [if_pos hc, ih, List.length_cons]
    congr 1
    omega

theorem stringStop_ok {js : List UInt8} {pos stop : ℕ} (h : stringStop js pos = .ok stop) :
    ∃ s rest, js = s ++ quotationMark :: rest ∧ StringBody s ∧ stop = pos + s.length := by
  fun_induction stringStop js pos with
  | case1 => cases h
  | case2 => cases h
  | case3 js pos h0 =>
    cases h
    exact ⟨[], js, rfl, .nil, rfl⟩
  | case4 pos c js hc h0 hq ih =>
    obtain ⟨s, rest, rfl, hs, rfl⟩ := ih h
    refine ⟨backslash :: c :: s, rest, rfl, .escape hc hs, ?_⟩
    rw [List.length_cons, List.length_cons]
    omega
  | case5 => cases h
  | case6 => cases h
  | case7 b js pos h0 hq hb ih =>
    obtain ⟨s, rest, rfl, hs, rfl⟩ := ih h
    refine ⟨b :: s, rest, rfl, .literal ⟨h0, hq, hb⟩ hs, ?_⟩
    rw [List.length_cons]
    omega

theorem primitiveStop_append {s : List UInt8} (hs : ∀ b ∈ s, Plain b) {rest : List UInt8}
    (hrest : Ends rest) (pos : ℕ) : primitiveStop (s ++ rest) pos = .ok (pos + s.length) := by
  induction s generalizing pos with
  | nil =>
    cases rest with
    | nil => rfl
    | cons b rest =>
      rw [List.nil_append, primitiveStop, if_pos (hrest b rfl)]
      rfl
  | cons b s ih =>
    obtain ⟨⟨hend, hlow, hhigh⟩, hs⟩ := List.forall_mem_cons.mp hs
    have h0 : b ≠ 0 := by
      rintro rfl
      exact absurd hlow (by decide)
    rw [List.cons_append, primitiveStop, if_neg (by simp [h0, hend]),
      if_neg (by simp only [not_or, UInt8.not_lt, UInt8.not_le, ge_iff_le]; exact ⟨hlow, hhigh⟩),
      ih hs, List.length_cons]
    congr 1
    omega

theorem primitiveStop_ok {js : List UInt8} {pos stop : ℕ} (h : primitiveStop js pos = .ok stop) :
    ∃ s rest, js = s ++ rest ∧ (∀ b ∈ s, Plain b) ∧ Ends rest ∧ stop = pos + s.length := by
  fun_induction primitiveStop js pos with
  | case1 pos =>
    cases h
    exact ⟨[], [], rfl, List.forall_mem_nil _, fun b hb => (by cases hb), rfl⟩
  | case2 b js pos hb =>
    cases h
    refine ⟨[], b :: js, rfl, List.forall_mem_nil _, ?_, rfl⟩
    intro c hc
    cases hc
    exact hb
  | case3 => cases h
  | case4 b js pos hb hr ih =>
    obtain ⟨s, rest, rfl, hs, hrest, rfl⟩ := ih h
    simp only [not_or, UInt8.not_lt, ge_iff_le, UInt8.not_le] at hb hr
    refine ⟨b :: s, rest, rfl, List.forall_mem_cons.mpr ⟨⟨?_, hr⟩, hs⟩, hrest, ?_⟩
    · simpa using hb.2
    · rw [List.length_cons]
      omega

theorem closed_items {pos : ℕ} {js : List UInt8} {ts : List SizedToken}
    (h : Items pos js n ts) : Closed ts := by
  induction h with
  | nil => exact List.forall_mem_nil _
  | separator _ _ ih => exact ih
  | string _ _ ih => exact List.forall_mem_cons.mpr ⟨closed_of_stop _ _ _ _, ih⟩
  | primitive _ _ _ _ _ _ ih => exact List.forall_mem_cons.mpr ⟨closed_of_stop _ _ _ _, ih⟩
  | bracket _ _ _ ihu iht =>
    refine List.forall_mem_cons.mpr ⟨closed_of_stop _ _ _ _, ?_⟩
    exact List.forall_mem_append.mpr ⟨ihu, iht⟩

theorem parseLoop_separator {b : UInt8} (h : Separator b) (js : List UInt8) (pos : ℕ)
    (p : Parser) :
    parseLoop numTokens (b :: js) pos 0 p = parseLoop numTokens js (pos + 1) 0 p := by
  have hsep : b ≠ 0 ∧ ¬(b = leftBrace ∨ b = leftBracket) ∧ ¬(b = rightBrace ∨ b = rightBracket) ∧
      b ≠ quotationMark := by
    have hcases : b = 0x20 ∨ b = 0x09 ∨ b = 0x0A ∨ b = 0x0D ∨ b = colon ∨ b = comma := by
      simpa [Separator, isSpace, or_assoc] using h
    rcases hcases with rfl | rfl | rfl | rfl | rfl | rfl <;> decide
  obtain ⟨h0, hl, hr, hq⟩ := hsep
  rw [parseLoop, if_neg h0, if_neg hl, if_neg hr, if_neg hq]
  exact if_pos h

theorem parseLoop_string {s : List UInt8} (hs : StringBody s) {ts : List SizedToken}
    (room : ts.length < numTokens) (rest : List UInt8) (pos : ℕ) :
    parseLoop numTokens (quotationMark :: (s ++ quotationMark :: rest)) pos 0 (within ts) =
      parseLoop numTokens rest (pos + s.length + 2) 0
        (within (grow 1 ts ++ [⟨.string, pos + 1, (pos + 1 + s.length : ℕ), 0⟩])) := by
  have hstop := stringStop_append hs rest (pos + 1)
  have hlen : pos + 1 + s.length - pos = (s ++ [quotationMark]).length := by
    rw [List.length_append, List.length_singleton]
    omega
  have htext : s ++ quotationMark :: rest = s ++ [quotationMark] ++ rest := by simp
  rw [parseLoop, if_neg (by decide), if_neg (by decide), if_neg (by decide), if_pos rfl, hstop]
  simp only [alloc_within room, within_leaf (closed_of_stop _ _ _ _), bind, Except.bind]
  rw [hlen, htext, parseLoop_skip]
  congr 1
  rw [← hlen]
  omega

theorem parseLoop_primitive {b : UInt8} {s : List UInt8} (hleft : b ≠ leftBrace)
    (hleft' : b ≠ leftBracket) (hquote : b ≠ quotationMark) (hs : ∀ c ∈ b :: s, Plain c)
    {ts : List SizedToken} (room : ts.length < numTokens) {rest : List UInt8} (hrest : Ends rest)
    (pos : ℕ) : parseLoop numTokens (b :: (s ++ rest)) pos 0 (within ts) =
      parseLoop numTokens rest (pos + s.length + 1) 0
        (within (grow 1 ts ++ [⟨.primitive, pos, (pos + s.length + 1 : ℕ), 0⟩])) := by
  have hstop := primitiveStop_append hs hrest pos
  obtain ⟨hend, hlow, -⟩ := hs b List.mem_cons_self
  have h0 : b ≠ 0 := by
    rintro rfl
    exact absurd hlow (by decide)
  obtain ⟨hcolon, hspace, hcomma, hright', hright⟩ : b ≠ colon ∧ isSpace b = false ∧ b ≠ comma ∧
      b ≠ rightBracket ∧ b ≠ rightBrace := by
    simpa [endsPrimitive, and_assoc] using hend
  have hlen : pos + (s.length + 1) - 1 - pos = s.length := by omega
  have hnext : pos + (s.length + 1) = pos + s.length + 1 := by omega
  rw [List.cons_append, List.length_cons] at hstop
  rw [parseLoop, if_neg h0, if_neg (by simp [hleft, hleft']), if_neg (by simp [hright, hright']),
    if_neg hquote, if_neg (by simp [hspace, hcolon, hcomma]), hstop]
  simp only [alloc_within room, within_leaf (closed_of_stop _ _ _ _), bind, Except.bind]
  rw [hlen, parseLoop_skip, hnext]
  congr 1
  omega

theorem parseLoop_left {type : TokenType} {left right : UInt8} (h : Bracket type left right)
    {ts : List SizedToken} (room : ts.length < numTokens) (rest : List UInt8) (pos : ℕ) :
    parseLoop numTokens (left :: rest) pos 0 (within ts) =
      parseLoop numTokens rest (pos + 1) 0 (within (grow 1 ts ++ [⟨type, pos, -1, 0⟩])) := by
  have room' : (grow 1 ts).length < numTokens := (length_grow 1 ts).trans_lt room
  have hcount : countMember (within ts) = within (grow 1 ts) := by
    rw [within, countMember_top, within, top_grow]
  have hopen : within (grow 1 ts ++ [⟨type, pos, -1, 0⟩]) =
      ⟨some (grow 1 ts).length, grow 1 ts ++ [⟨type, pos, -1, 0⟩]⟩ := by
    rw [within, top_concat, if_pos (open_of_start type pos 0)]
  have hlast (t : SizedToken) : (grow 1 ts ++ [t]).length - 1 = (grow 1 ts).length := by simp
  rw [hopen]
  cases h with
  | object =>
    rw [parseLoop, if_neg (by decide), if_pos (.inl rfl), if_pos rfl, hcount]
    simp only [alloc_within room', bind, Except.bind, hlast]
  | array =>
    rw [parseLoop, if_neg (by decide), if_pos (.inr rfl), if_neg (by decide), hcount]
    simp only [alloc_within room', bind, Except.bind, hlast]

theorem parseLoop_right {type : TokenType} {left right : UInt8} (h : Bracket type left right)
    (start size : ℕ) (ts : List SizedToken) {us : List SizedToken} (hu : Closed us)
    (rest : List UInt8) (pos : ℕ) :
    parseLoop numTokens (right :: rest) pos 0 (within (ts ++ ⟨type, start, -1, size⟩ :: us)) =
      parseLoop numTokens rest (pos + 1) 0
        (within (ts ++ ⟨type, start, (pos + 1 : ℕ), size⟩ :: us)) := by
  have hclose := closeToken_open type start size (pos + 1) ts hu
    (top (ts ++ ⟨type, start, -1, size⟩ :: us))
  have hclosed : Closed (⟨type, start, (pos + 1 : ℕ), size⟩ :: us) :=
    List.forall_mem_cons.mpr ⟨closed_of_stop type start (pos + 1) size, hu⟩
  rw [← top_append hclosed ts, Nat.cast_add, Nat.cast_one] at hclose
  cases h with
  | object =>
    rw [parseLoop, if_neg (by decide), if_neg (by decide), if_pos (.inl rfl), if_pos rfl, within]
    simp only [hclose, bind, Except.bind]
    rfl
  | array =>
    rw [parseLoop, if_neg (by decide), if_neg (by decide), if_pos (.inr rfl),
      if_neg (by decide), within]
    simp only [hclose, bind, Except.bind]
    rfl

theorem ends_right {type : TokenType} {left right : UInt8} (h : Bracket type left right)
    (rest : List UInt8) : Ends (right :: rest) := by
  intro b hb
  cases hb
  cases h <;> exact .inr (by decide)

/-- Items that are followed by something that ends a primitive are parsed as written. -/
theorem parseLoop_items {pos : ℕ} {js : List UInt8} {us : List SizedToken}
    (h : Items pos js n us) {ts : List SizedToken} (room : ts.length + us.length ≤ numTokens)
    {rest : List UInt8} (hrest : Ends rest) :
    parseLoop numTokens (js ++ rest) pos 0 (within ts) =
      parseLoop numTokens rest (pos + js.length) 0 (within (grow n ts ++ us)) := by
  induction h generalizing ts rest with
  | nil => rw [grow_zero, List.append_nil, List.nil_append]; rfl
  | separator hb _ ih =>
    rw [List.cons_append, parseLoop_separator hb, ih room hrest, List.length_cons]
    congr 1
    omega
  | @string pos n s js us hs _ ih =>
    rw [List.length_cons] at room
    have hroom (t : SizedToken) : (grow 1 ts ++ [t]).length + us.length ≤ numTokens := by
      rw [length_grown, List.length_singleton]
      omega
    have hgrow := grow_member (List.forall_mem_singleton.mpr
      (closed_of_stop .string (pos + 1) (pos + 1 + s.length) 0)) n ts
    rw [List.cons_append, List.append_assoc, List.cons_append, parseLoop_string hs (by omega),
      ih (hroom _) hrest, hgrow, List.append_assoc, List.singleton_append]
    congr 1
    simp only [List.length_cons, List.length_append]
    omega
  | @primitive pos n b s js us hleft hleft' hquote hs hjs _ ih =>
    rw [List.length_cons] at room
    have hroom (t : SizedToken) : (grow 1 ts ++ [t]).length + us.length ≤ numTokens := by
      rw [length_grown, List.length_singleton]
      omega
    have hgrow := grow_member (List.forall_mem_singleton.mpr
      (closed_of_stop .primitive pos (pos + s.length + 1) 0)) n ts
    have hends : Ends (js ++ rest) := by
      cases js with
      | nil => exact hrest
      | cons c js => exact hjs
    rw [List.cons_append, List.append_assoc,
      parseLoop_primitive hleft hleft' hquote hs (by omega) hends, ih (hroom _) hrest, hgrow,
      List.append_assoc, List.singleton_append]
    congr 1
    simp only [List.length_cons, List.length_append]
    omega
  | @bracket pos k n type left right inner js us ts' hb hus _ ihu iht =>
    rw [List.length_cons, List.length_append] at room
    have hus := closed_items hus
    have hmember : Closed (⟨type, pos, (pos + inner.length + 2 : ℕ), k⟩ :: us) :=
      List.forall_mem_cons.mpr ⟨closed_of_stop type pos (pos + inner.length + 2) k, hus⟩
    have hopen : grow k (grow 1 ts ++ [⟨type, pos, -1, 0⟩]) ++ us =
        grow 1 ts ++ ⟨type, pos, -1, k⟩ :: us := by
      rw [grow_open (open_of_start type pos 0), List.append_assoc, Nat.zero_add]
      rfl
    have hpos : pos + 1 + inner.length + 1 = pos + inner.length + 2 := by omega
    have hinner (t : SizedToken) : (grow 1 ts ++ [t]).length + us.length ≤ numTokens := by
      rw [length_grown, List.length_singleton]
      omega
    have houter (t : SizedToken) : (grow 1 ts ++ t :: us).length + ts'.length ≤ numTokens := by
      rw [length_grown, List.length_cons]
      omega
    rw [List.cons_append, List.append_assoc, List.cons_append, parseLoop_left hb (by omega),
      ihu (hinner _) (ends_right hb _), hopen, parseLoop_right hb pos k _ hus, hpos,
      iht (houter _) hrest, grow_member hmember, List.append_assoc, List.cons_append]
    congr 1
    simp only [List.length_cons, List.length_append]
    omega

/-- A token past the first `m` is still open. -/
def LeftOpen (m : ℕ) (p : Parser) : Prop := ∃ t ∈ p.tokens.drop m, t.isOpen = true

theorem LeftOpen.mono {m m' : ℕ} {p : Parser} (h : LeftOpen m' p) (hle : m ≤ m') :
    LeftOpen m p := by
  obtain ⟨t, ht, hopen⟩ := h
  have hdrop : p.tokens.drop m' = (p.tokens.drop m).drop (m' - m) := by
    rw [List.drop_drop]
    congr 1
    omega
  rw [hdrop] at ht
  exact ⟨t, List.mem_of_mem_drop ht, hopen⟩

/-- Where a parse stops that has read items: at the end, or at a closing bracket. -/
def Stops (js : List UInt8) : Prop := ∀ b ∈ js.head?, b = 0 ∨ Closing b

/-- What a text was that was parsed to the end: items, and then the end of the text or a closing
bracket of what was open before. -/
structure Parsed (numTokens pos : ℕ) (js : List UInt8) (ts : List SizedToken)
    (out : Parser) (before rest : List UInt8) (n : ℕ) (us : List SizedToken) : Prop where
  split : js = before ++ rest
  items : Items pos before n us
  stops : Stops rest
  room : ts.length + us.length ≤ numTokens
  goesOn : parseLoop numTokens rest (pos + before.length) 0 (within (grow n ts ++ us)) = .ok out

theorem parsed_refl {js : List UInt8} {pos : ℕ} {ts : List SizedToken} {out : Parser}
    (hjs : Stops js) (room : ts.length ≤ numTokens)
    (h : parseLoop numTokens js pos 0 (within ts) = .ok out) :
    Parsed numTokens pos js ts out [] js 0 [] := by
  refine ⟨rfl, .nil, hjs, room, ?_⟩
  rw [grow_zero, List.append_nil]
  exact h

theorem Parsed.member {pos pos' : ℕ} {first js before rest : List UInt8}
    {ts us us' : List SizedToken} {out : Parser} (hu : Closed us)
    (hpos : pos' = pos + first.length)
    (hitems : Items pos' before n us' → Items pos (first ++ before) (n + 1) (us ++ us'))
    (h : Parsed numTokens pos' js (grow 1 ts ++ us) out before rest n us') :
    Parsed numTokens pos (first ++ js) ts out (first ++ before) rest (n + 1) (us ++ us') := by
  have hroom := h.room
  have hgo := h.goesOn
  rw [length_grown] at hroom
  rw [grow_member hu, List.append_assoc, hpos, Nat.add_assoc] at hgo
  refine ⟨?_, hitems h.items, h.stops, ?_, ?_⟩
  · rw [h.split, List.append_assoc]
  · rw [List.length_append]
    omega
  · rw [List.length_append]
    exact hgo

theorem alloc_room {t : SizedToken} {p p' : Parser} (h : allocToken numTokens t p = .ok p') :
    p.tokens.length < numTokens := by
  unfold allocToken at h
  split_ifs at h with hfull
  exact not_le.mp hfull

theorem left_ok {type : TokenType} {left right : UInt8} (hb : Bracket type left right)
    {js : List UInt8} {pos : ℕ} {ts : List SizedToken} {out : Parser}
    (h : parseLoop numTokens (left :: js) pos 0 (within ts) = .ok out) :
    ts.length < numTokens := by
  have hcount : (countMember (within ts)).tokens.length = ts.length := by
    rw [within, countMember_top]
    exact length_grow 1 ts
  rw [← hcount]
  cases hb with
  | object =>
    rw [parseLoop, if_neg (by decide), if_pos (.inl rfl), if_pos rfl] at h
    obtain ⟨p, ha, -⟩ := bind_eq_ok h
    exact alloc_room ha
  | array =>
    rw [parseLoop, if_neg (by decide), if_pos (.inr rfl), if_neg (by decide)] at h
    obtain ⟨p, ha, -⟩ := bind_eq_ok h
    exact alloc_room ha

theorem string_ok {js : List UInt8} {pos : ℕ} {ts : List SizedToken} {out : Parser}
    (h : parseLoop numTokens (quotationMark :: js) pos 0 (within ts) = .ok out) :
    ts.length < numTokens ∧ ∃ s rest, js = s ++ quotationMark :: rest ∧ StringBody s := by
  rw [parseLoop, if_neg (by decide), if_neg (by decide), if_neg (by decide), if_pos rfl] at h
  obtain ⟨stop, hs, h⟩ := bind_eq_ok h
  obtain ⟨p, ha, -⟩ := bind_eq_ok h
  obtain ⟨s, rest, hjs, hs, -⟩ := stringStop_ok hs
  exact ⟨alloc_room ha, s, rest, hjs, hs⟩

theorem primitive_ok {b : UInt8} {js : List UInt8} {pos : ℕ} {ts : List SizedToken}
    {out : Parser} (hstop : ¬(b = 0 ∨ Closing b)) (hleft : ¬(b = leftBrace ∨ b = leftBracket))
    (hquote : b ≠ quotationMark) (hsep : ¬Separator b)
    (h : parseLoop numTokens (b :: js) pos 0 (within ts) = .ok out) :
    ts.length < numTokens ∧ ∃ s rest, js = s ++ rest ∧ (∀ c ∈ b :: s, Plain c) ∧ Ends rest := by
  obtain ⟨h0, hright⟩ := not_or.mp hstop
  have hsep' : ¬(isSpace b = true ∨ b = colon ∨ b = comma) := hsep
  have hright' : ¬(b = rightBrace ∨ b = rightBracket) := hright
  rw [parseLoop, if_neg h0, if_neg hleft, if_neg hright', if_neg hquote, if_neg hsep'] at h
  obtain ⟨stop, hprim, h⟩ := bind_eq_ok h
  obtain ⟨p, ha, -⟩ := bind_eq_ok h
  obtain ⟨s, rest, hjs, hs, hrest, -⟩ := primitiveStop_ok hprim
  refine ⟨alloc_room ha, ?_⟩
  cases s with
  | nil =>
    rw [List.nil_append] at hjs
    rw [← hjs] at hrest
    have hend := (hrest b rfl).resolve_left h0
    simp only [not_or] at hright' hsep'
    simp [endsPrimitive, hright', hsep'] at hend
  | cons c s =>
    rw [List.cons_append, List.cons.injEq] at hjs
    obtain ⟨rfl, rfl⟩ := hjs
    exact ⟨s, rest, rfl, hs, hrest⟩

theorem bracket_of_left {b : UInt8} (h : b = leftBrace ∨ b = leftBracket) :
    ∃ type right, Bracket type b right := by
  rcases h with rfl | rfl
  · exact ⟨_, _, .object⟩
  · exact ⟨_, _, .array⟩

/-- Only its own kind of bracket closes the innermost open token. -/
theorem right_ok {type : TokenType} {left right c : UInt8} (hb : Bracket type left right)
    (hc : Closing c) (start size : ℕ) (ts : List SizedToken) {us : List SizedToken}
    (hu : Closed us) {js : List UInt8} {pos : ℕ} {out : Parser}
    (h : parseLoop numTokens (c :: js) pos 0 (within (ts ++ ⟨type, start, -1, size⟩ :: us)) =
      .ok out) : c = right := by
  have htop : lastOpen (ts ++ ⟨type, start, -1, size⟩ :: us)
      (ts ++ ⟨type, start, -1, size⟩ :: us).length = some ts.length :=
    top_open (open_of_start type start size) hu ts
  have hget : (ts ++ (⟨type, start, -1, size⟩ : SizedToken) :: us)[ts.length]? =
      some ⟨type, start, -1, size⟩ := by simp
  -- the other kind is an error
  have hother {type' : TokenType} {stop : ℤ} {p : Parser} (hne : type ≠ type')
      (hp : closeToken type' stop (within (ts ++ ⟨type, start, -1, size⟩ :: us)) = .ok p) :
      False := by
    unfold closeToken within at hp
    simp only [htop, hget] at hp
    rw [if_pos (by simpa using hne)] at hp
    cases hp
  rcases hc with rfl | rfl
  · rw [parseLoop, if_neg (by decide), if_neg (by decide), if_pos (.inl rfl), if_pos rfl] at h
    obtain ⟨p, hp, -⟩ := bind_eq_ok h
    cases hb with
    | object => rfl
    | array => exact (hother (by decide) hp).elim
  · rw [parseLoop, if_neg (by decide), if_neg (by decide), if_pos (.inr rfl),
      if_neg (by decide)] at h
    obtain ⟨p, hp, -⟩ := bind_eq_ok h
    cases hb with
    | object => exact (hother (by decide) hp).elim
    | array => rfl

theorem parseLoop_end {js : List UInt8} (h : ∀ b ∈ js.head?, b = 0) (pos : ℕ) (p : Parser) :
    parseLoop numTokens js pos 0 p = .ok p := by
  cases js with
  | nil => rfl
  | cons b js =>
    rw [parseLoop]
    exact if_pos (h b rfl)

theorem ends_of_append {js rest : List UInt8} (h : Ends (js ++ rest)) : Ends js := by
  cases js with
  | nil =>
    intro b hb
    cases hb
  | cons b js => exact h

/-- What a text comes to that is parsed to the end: a token is left open, or it was items. -/
def Accounted (numTokens pos : ℕ) (js : List UInt8) (ts : List SizedToken) (out : Parser) : Prop :=
  LeftOpen ts.length out ∨ ∃ before rest n us, Parsed numTokens pos js ts out before rest n us

theorem Accounted.member {pos : ℕ} {first js : List UInt8} {ts us : List SizedToken} {out : Parser}
    (hu : Closed us)
    (hitems : ∀ {before rest : List UInt8} {n : ℕ} {us' : List SizedToken}, js = before ++ rest →
      Items (pos + first.length) before n us' → Items pos (first ++ before) (n + 1) (us ++ us'))
    (h : Accounted numTokens (pos + first.length) js (grow 1 ts ++ us) out) :
    Accounted numTokens pos (first ++ js) ts out := by
  rcases h with hopen | ⟨before, rest, n, us', hp⟩
  · rw [length_grown] at hopen
    exact .inl (hopen.mono (Nat.le_add_right _ _))
  · exact .inr ⟨_, _, _, _, hp.member hu rfl (hitems hp.split)⟩

theorem Accounted.separator {b : UInt8} (hb : Separator b) {pos : ℕ} {js : List UInt8}
    {ts : List SizedToken} {out : Parser} (h : Accounted numTokens (pos + 1) js ts out) :
    Accounted numTokens pos (b :: js) ts out := by
  rcases h with hopen | ⟨before, rest, n, us, hp⟩
  · exact .inl hopen
  · refine .inr ⟨b :: before, rest, n, us, ?_, .separator hb hp.items, hp.stops, hp.room, ?_⟩
    · rw [hp.split, List.cons_append]
    · rw [← hp.goesOn, List.length_cons]
      congr 1
      omega

theorem eq_cons_of_not_end {rest : List UInt8} (h : ¬∀ c ∈ rest.head?, c = 0) :
    ∃ c rest', rest = c :: rest' ∧ c ≠ 0 := by
  cases rest with
  | nil => exact (h fun c hc => (by cases hc)).elim
  | cons c rest =>
    refine ⟨c, rest, rfl, fun h0 => h fun d hd => ?_⟩
    cases hd
    exact h0

/-- What stands behind a left bracket: the bracket is left open, or there are items up to the right
one, and the parse goes on behind it. -/
theorem Accounted.contents {type : TokenType} {left right : UInt8} (hb : Bracket type left right)
    {pos : ℕ} {js : List UInt8} {ts : List SizedToken} {out : Parser}
    (h : Accounted numTokens (pos + 1) js (grow 1 ts ++ [⟨type, pos, -1, 0⟩]) out) :
    LeftOpen ts.length out ∨ ∃ before rest k us, js = before ++ right :: rest ∧
      Items (pos + 1) before k us ∧ ts.length + us.length < numTokens ∧
      parseLoop numTokens rest (pos + before.length + 2) 0
        (within (grow 1 ts ++ ⟨type, pos, (pos + before.length + 2 : ℕ), k⟩ :: us)) = .ok out := by
  rcases h with hopen | ⟨before, rest, k, us, hp⟩
  · rw [length_grown] at hopen
    exact .inl (hopen.mono (Nat.le_add_right _ _))
  have hus := closed_items hp.items
  have hgo := hp.goesOn
  have hgrow : grow k (grow 1 ts ++ [⟨type, pos, -1, 0⟩]) ++ us =
      grow 1 ts ++ ⟨type, pos, -1, k⟩ :: us := by
    rw [grow_open (open_of_start type pos 0), List.append_assoc, Nat.zero_add]
    rfl
  rw [hgrow] at hgo
  by_cases hend : ∀ c ∈ rest.head?, c = 0
  · -- the bracket is never closed
    rw [parseLoop_end hend] at hgo
    cases hgo
    refine .inl ⟨⟨type, pos, -1, k⟩, ?_, open_of_start type pos k⟩
    have hdrop : (grow 1 ts ++ ⟨type, pos, -1, k⟩ :: us).drop ts.length =
        ⟨type, pos, -1, k⟩ :: us := List.drop_left' (length_grow 1 ts)
    rw [within, hdrop]
    exact List.mem_cons_self
  · obtain ⟨c, rest', rfl, h0⟩ := eq_cons_of_not_end hend
    obtain rfl := right_ok hb ((hp.stops c rfl).resolve_left h0) pos k (grow 1 ts) hus hgo
    have hpos : pos + 1 + before.length + 1 = pos + before.length + 2 := by omega
    have hroom := hp.room
    rw [length_grown, List.length_singleton] at hroom
    rw [parseLoop_right hb pos k (grow 1 ts) hus, hpos] at hgo
    exact .inr ⟨before, rest', k, us, hp.split, hp.items, by omega, hgo⟩

/-- By induction on how much is left: a bracket is left open, or what it holds is parsed first and
then what stands behind it. -/
theorem parsed_of_parseLoop {js : List UInt8} {pos : ℕ} {ts : List SizedToken} {out : Parser}
    (room : ts.length ≤ numTokens)
    (h : parseLoop numTokens js pos 0 (within ts) = .ok out) :
    Accounted numTokens pos js ts out := by
  induction hlen : js.length using Nat.strong_induction_on generalizing js pos ts with
  | _ len ih =>
  cases js with
  | nil => exact .inr ⟨_, _, _, _, parsed_refl (fun b hb => (by cases hb)) room h⟩
  | cons b js =>
    rw [List.length_cons] at hlen
    by_cases hstop : b = 0 ∨ Closing b
    · refine .inr ⟨_, _, _, _, parsed_refl ?_ room h⟩
      intro c hc
      cases hc
      exact hstop
    by_cases hleft : b = leftBrace ∨ b = leftBracket
    · obtain ⟨type, right, hb⟩ := bracket_of_left hleft
      have hroom := left_ok hb h
      rw [parseLoop_left hb hroom] at h
      have hroom' : (grow 1 ts ++ [(⟨type, pos, -1, 0⟩ : SizedToken)]).length ≤ numTokens := by
        rw [length_grown, List.length_singleton]
        exact hroom
      rcases (ih js.length (by omega) hroom' h rfl).contents hb with
        hopen | ⟨before, rest, k, us, rfl, hitems, hmore, hgo⟩
      · exact .inl hopen
      · have hfirst : (b :: (before ++ [right])).length = before.length + 2 := by simp
        have hrest : Accounted numTokens (pos + (b :: (before ++ [right])).length) rest
            (grow 1 ts ++ ⟨type, pos, (pos + before.length + 2 : ℕ), k⟩ :: us) out := by
          rw [hfirst]
          exact ih rest.length (by simp at hlen; omega)
            (by rw [length_grown, List.length_cons]; omega) hgo rfl
        have hsplit : b :: (before ++ right :: rest) = b :: (before ++ [right]) ++ rest := by simp
        rw [hsplit]
        refine hrest.member (List.forall_mem_cons.mpr
          ⟨closed_of_stop _ _ _ _, closed_items hitems⟩) ?_
        intro before' rest' n us' _ hitems'
        rw [hfirst, ← Nat.add_assoc] at hitems'
        have hbracket := Items.bracket hb hitems hitems'
        simpa using hbracket
    by_cases hquote : b = quotationMark
    · subst hquote
      obtain ⟨hroom, s, rest, rfl, hs⟩ := string_ok h
      rw [parseLoop_string hs hroom] at h
      have hfirst : (quotationMark :: (s ++ [quotationMark])).length = s.length + 2 := by simp
      have hrest := ih rest.length (by simp at hlen; omega)
        (by rw [length_grown, List.length_singleton]; exact hroom) h rfl
      rw [Nat.add_assoc, ← hfirst] at hrest
      have hsplit : quotationMark :: (s ++ quotationMark :: rest) =
          quotationMark :: (s ++ [quotationMark]) ++ rest := by simp
      rw [hsplit]
      refine hrest.member (List.forall_mem_singleton.mpr (closed_of_stop _ _ _ _)) ?_
      intro before rest' n us' _ hitems
      rw [hfirst, ← Nat.add_assoc] at hitems
      have hstring := Items.string hs hitems
      simpa using hstring
    by_cases hsep : Separator b
    · rw [parseLoop_separator hsep] at h
      exact (ih js.length (by omega) room h rfl).separator hsep
    · obtain ⟨hroom, s, rest, rfl, hs, hrest⟩ := primitive_ok hstop hleft hquote hsep h
      obtain ⟨hbrace, hbracket⟩ := not_or.mp hleft
      rw [parseLoop_primitive hbrace hbracket hquote hs hroom hrest] at h
      have hmore := ih rest.length (by simp at hlen; omega)
        (by rw [length_grown, List.length_singleton]; exact hroom) h rfl
      rw [← List.cons_append]
      refine Accounted.member (List.forall_mem_singleton.mpr (closed_of_stop _ _ _ _)) ?_ hmore
      rintro before rest' n us' rfl hitems
      exact .primitive hbrace hbracket hquote hs (ends_of_append hrest) hitems

theorem stringBody_ne_zero {s : List UInt8} (h : StringBody s) : ∀ b ∈ s, b ≠ 0 := by
  induction h with
  | nil => exact List.forall_mem_nil _
  | literal hb _ ih => exact List.forall_mem_cons.mpr ⟨hb.1, ih⟩
  | @escape c s hc _ ih =>
    have h0 : c ≠ 0 := by
      rintro rfl
      exact absurd hc (by decide)
    exact List.forall_mem_cons.mpr ⟨by decide, List.forall_mem_cons.mpr ⟨h0, ih⟩⟩

theorem separator_ne_zero {b : UInt8} (h : Separator b) : b ≠ 0 := by
  rintro rfl
  revert h
  unfold Separator
  decide

theorem plain_ne_zero {b : UInt8} (h : Plain b) : b ≠ 0 := by
  rintro rfl
  exact absurd h.2.1 (by decide)

theorem bracket_ne_zero {type : TokenType} {left right : UInt8} (h : Bracket type left right) :
    left ≠ 0 ∧ right ≠ 0 := by
  cases h <;> exact ⟨by decide, by decide⟩

theorem items_ne_zero {pos : ℕ} {js : List UInt8} {ts : List SizedToken}
    (h : Items pos js n ts) : ∀ b ∈ js, b ≠ 0 := by
  induction h with
  | nil => exact List.forall_mem_nil _
  | separator hb _ ih => exact List.forall_mem_cons.mpr ⟨separator_ne_zero hb, ih⟩
  | string hs _ ih =>
    refine List.forall_mem_cons.mpr ⟨by decide, List.forall_mem_append.mpr ?_⟩
    exact ⟨stringBody_ne_zero hs, List.forall_mem_cons.mpr ⟨by decide, ih⟩⟩
  | primitive _ _ _ hs _ _ ih =>
    obtain ⟨hb, hs⟩ := List.forall_mem_cons.mp hs
    refine List.forall_mem_cons.mpr ⟨plain_ne_zero hb, List.forall_mem_append.mpr ?_⟩
    exact ⟨fun c hc => plain_ne_zero (hs c hc), ih⟩
  | bracket hb _ _ ihu iht =>
    have hne := bracket_ne_zero hb
    refine List.forall_mem_cons.mpr ⟨hne.1, List.forall_mem_append.mpr ?_⟩
    exact ⟨ihu, List.forall_mem_cons.mpr ⟨hne.2, iht⟩⟩

theorem top_closed {us : List SizedToken} (h : Closed us) : top us = none :=
  top_append h []

/-- Without an open token a closing bracket is an error. -/
theorem parseLoop_unmatched {c : UInt8} (hc : Closing c) {us : List SizedToken} (h : Closed us)
    (js : List UInt8) (pos : ℕ) (out : Parser) :
    parseLoop numTokens (c :: js) pos 0 (within us) ≠ .ok out := by
  intro hp
  have hclose (type : TokenType) (stop : ℤ) :
      closeToken type stop (within us) = .error .inval := by
    unfold closeToken within
    rw [show lastOpen us us.length = none from top_closed h]
  rcases hc with rfl | rfl
  · rw [parseLoop, if_neg (by decide), if_neg (by decide), if_pos (.inl rfl), if_pos rfl] at hp
    simp only [hclose, bind, Except.bind] at hp
    cases hp
  · rw [parseLoop, if_neg (by decide), if_neg (by decide), if_pos (.inr rfl),
      if_neg (by decide)] at hp
    simp only [hclose, bind, Except.bind] at hp
    cases hp

theorem text_append {s rest : List UInt8} (hs : ∀ b ∈ s, b ≠ 0) (hrest : ∀ b ∈ rest.head?, b = 0) :
    text (s ++ rest) = s := by
  have htext : text rest = [] := by
    cases rest with
    | nil => rfl
    | cons b rest => exact List.takeWhile_cons_of_neg (by simp [hrest b rfl])
  unfold text at htext ⊢
  rw [List.takeWhile_append_of_pos (by simpa using hs), htext, List.append_nil]

theorem text_eq_self {s : List UInt8} (hs : ∀ b ∈ s, b ≠ 0) : text s = s :=
  List.takeWhile_eq_self_iff.mpr (by simpa using hs)

theorem any_open_eq_false {us : List SizedToken} :
    us.any SizedToken.isOpen = false ↔ Closed us := by
  rw [List.any_eq_false]
  exact forall₂_congr fun _ _ => iff_of_eq (Bool.not_eq_true _)

/-- What is parsed is a text of items, and the tokens are theirs. -/
theorem items_of_jsmnParse {js : List UInt8} {tokens : List SizedToken}
    (h : jsmnParse numTokens js = .ok tokens) :
    tokens.length ≤ numTokens ∧ ∃ n, Items 0 (text js) n tokens := by
  have hgrow (n : ℕ) : grow n [] = [] := rfl
  obtain ⟨out, hloop, h⟩ := bind_eq_ok h
  split_ifs at h with hany
  cases h
  have hwithin : parseLoop numTokens js 0 0 (within []) = .ok out := hloop
  rcases parsed_of_parseLoop (Nat.zero_le _) hwithin with
    ⟨t, ht, hopen⟩ | ⟨before, rest, n, us, hp⟩
  · exact absurd (List.any_eq_true.mpr ⟨t, ht, hopen⟩) hany
  · have hgo := hp.goesOn
    have hroom := hp.room
    rw [hgrow, List.nil_append] at hgo
    rw [List.length_nil, Nat.zero_add] at hroom
    have hend : ∀ b ∈ rest.head?, b = 0 := by
      cases rest with
      | nil => exact fun b hb => (by cases hb)
      | cons c rest =>
        intro b hb
        cases hb
        refine (hp.stops c rfl).resolve_right fun hc => ?_
        exact parseLoop_unmatched hc (closed_items hp.items) rest _ out hgo
    rw [parseLoop_end hend] at hgo
    cases hgo
    refine ⟨hroom, n, ?_⟩
    rw [hp.split, text_append (items_ne_zero hp.items) hend]
    exact hp.items

theorem jsmnParse_items {js : List UInt8} {tokens : List SizedToken} {n : ℕ}
    (hroom : tokens.length ≤ numTokens) (hitems : Items 0 (text js) n tokens) :
    jsmnParse numTokens js = .ok tokens := by
  have hgrow : grow n [] = [] := rfl
  have hend : ∀ b ∈ (js.dropWhile (· ≠ 0)).head?, b = 0 := by
    intro b hb
    have hhead := List.head?_dropWhile_not (fun b : UInt8 => decide (b ≠ 0)) js
    rw [hb] at hhead
    simpa using hhead
  have hroom' : ([] : List SizedToken).length + tokens.length ≤ numTokens := by
    rw [List.length_nil, Nat.zero_add]
    exact hroom
  have hitems' := parseLoop_items hitems hroom' fun b hb => .inl (hend b hb)
  rw [text, List.takeWhile_append_dropWhile, parseLoop_end hend, hgrow,
    List.nil_append] at hitems'
  have hclosed := any_open_eq_false.mpr (closed_items hitems)
  have hloop : parseLoop numTokens js 0 0 ⟨none, []⟩ = .ok (within tokens) := hitems'
  rw [jsmnParse, hloop]
  change (if tokens.any SizedToken.isOpen = true then _ else _) = _
  rw [hclosed]
  rfl

/-- The parser accepts the texts of items for which there is room, and its tokens are those of
the items: each object and array stands before its members, reaches from its left bracket to its
right one, and says how many members it has. -/
theorem jsmnParse_eq_ok_iff (numTokens : ℕ) (js : List UInt8) (tokens : List SizedToken) :
    jsmnParse numTokens js = .ok tokens ↔
      tokens.length ≤ numTokens ∧ ∃ n, Items 0 (text js) n tokens := by
  constructor
  · exact items_of_jsmnParse
  · rintro ⟨hroom, n, hitems⟩
    exact jsmnParse_items hroom hitems

/-- A token of a text, as a caller finds it after a success. -/
structure InText (js : List UInt8) (t : SizedToken) : Prop where
  start : 0 ≤ t.start
  ordered : t.start ≤ t.stop
  stop : t.stop ≤ (text js).length

theorem range_of_items {pos : ℕ} {js : List UInt8} {ts : List SizedToken}
    (h : Items pos js n ts) :
    ∀ t ∈ ts, (pos : ℤ) ≤ t.start ∧ t.start ≤ t.stop ∧ t.stop ≤ (pos + js.length : ℕ) := by
  have hwiden {lo lo' hi hi' : ℕ} {us : List SizedToken} (hlo : lo ≤ lo') (hhi : hi' ≤ hi)
      (ih : ∀ t ∈ us, (lo' : ℤ) ≤ t.start ∧ t.start ≤ t.stop ∧ t.stop ≤ hi') :
      ∀ t ∈ us, (lo : ℤ) ≤ t.start ∧ t.start ≤ t.stop ∧ t.stop ≤ hi := by
    intro t ht
    have hr := ih t ht
    omega
  induction h with
  | nil => exact List.forall_mem_nil _
  | separator _ _ ih => exact hwiden (by omega) (by rw [List.length_cons]; omega) ih
  | string _ _ ih =>
    refine List.forall_mem_cons.mpr ⟨?_, hwiden (by omega) ?_ ih⟩
    · simp only [List.length_cons, List.length_append]
      omega
    · simp only [List.length_cons, List.length_append]
      omega
  | primitive _ _ _ _ _ _ ih =>
    refine List.forall_mem_cons.mpr ⟨?_, hwiden (by omega) ?_ ih⟩
    · simp only [List.length_cons, List.length_append]
      omega
    · simp only [List.length_cons, List.length_append]
      omega
  | bracket _ _ _ ihu iht =>
    refine List.forall_mem_cons.mpr ⟨?_, List.forall_mem_append.mpr
      ⟨hwiden (by omega) ?_ ihu, hwiden (by omega) ?_ iht⟩⟩ <;>
    · simp only [List.length_cons, List.length_append]
      omega

theorem found_of_jsmnParse {js : List UInt8} {tokens : List SizedToken}
    (h : jsmnParse numTokens js = .ok tokens) :
    (∀ t ∈ tokens, InText js t) ∧ tokens.length ≤ numTokens := by
  obtain ⟨hroom, n, hitems⟩ := items_of_jsmnParse h
  refine ⟨fun t ht => ?_, hroom⟩
  obtain ⟨hstart, hle, hstop⟩ := range_of_items hitems t ht
  exact ⟨hstart, hle, by omega⟩

theorem jsmnParse_unclosed {js : List UInt8} (h : ∀ b ∈ js, ¬Closing b)
    (tokens : List SizedToken) : jsmnParse numTokens (leftBrace :: js) ≠ .ok tokens := by
  intro hp
  obtain ⟨-, n, hitems⟩ := items_of_jsmnParse hp
  have htext : text (leftBrace :: js) = leftBrace :: text js := rfl
  rw [htext] at hitems
  generalize hjs : leftBrace :: text js = s at hitems
  cases hitems with
  | nil => cases hjs
  | separator hb =>
    cases hjs
    exact absurd hb (by unfold Separator; decide)
  | string => exact absurd (List.cons.inj hjs).1 (by decide)
  | primitive hleft => exact hleft (List.cons.inj hjs).1.symm
  | @bracket _ _ _ type left right inner rest _ _ hb =>
    obtain ⟨rfl, hrest⟩ := List.cons.inj hjs
    have hright : right ∈ text js := by
      rw [hrest]
      exact List.mem_append_right _ List.mem_cons_self
    refine h right ((List.takeWhile_prefix _).subset hright) ?_
    cases hb
    exact .inl rfl

theorem stringBody_of_literal {s : List UInt8} (h : ∀ b ∈ s, Literal b) : StringBody s := by
  induction s with
  | nil => exact .nil
  | cons b s ih =>
    obtain ⟨hb, hs⟩ := List.forall_mem_cons.mp h
    exact .literal hb (ih hs)

theorem jsmnParse_member {key value : List UInt8} (hk : ∀ b ∈ key, Literal b)
    (hv : ∀ b ∈ value, Literal b) (room : 3 ≤ numTokens) :
    jsmnParse numTokens (leftBrace :: quotationMark :: (key ++ quotationMark :: colon ::
        quotationMark :: (value ++ [quotationMark, rightBrace]))) =
      .ok [⟨.object, 0, (key.length + value.length + 7 : ℕ), 2⟩,
        ⟨.string, 2, (2 + key.length : ℕ), 0⟩,
        ⟨.string, (key.length + 5 : ℕ), (key.length + 5 + value.length : ℕ), 0⟩] := by
  have hvalue : Items (key.length + 4) (quotationMark :: (value ++ [quotationMark])) 1
      [⟨.string, (key.length + 4 : ℕ) + 1, (key.length + 4 + 1 + value.length : ℕ), 0⟩] :=
    .string (stringBody_of_literal hv) .nil
  have hkey : Items 1 (quotationMark :: (key ++ quotationMark ::
      (colon :: quotationMark :: (value ++ [quotationMark])))) 2
      (⟨.string, (1 : ℕ) + 1, (1 + 1 + key.length : ℕ), 0⟩ ::
        [⟨.string, (key.length + 4 : ℕ) + 1, (key.length + 4 + 1 + value.length : ℕ), 0⟩]) := by
    have hpos : 1 + key.length + 2 + 1 = key.length + 4 := by omega
    refine .string (stringBody_of_literal hk) (.separator (.inr (.inl rfl)) ?_)
    rw [hpos]
    exact hvalue
  have hobject : Items 0 _ 1 _ := .bracket .object hkey .nil
  -- the texts and the places are the ones of the statement
  have hjs : leftBrace :: (quotationMark :: (key ++ quotationMark ::
      (colon :: quotationMark :: (value ++ [quotationMark]))) ++ [rightBrace]) =
      leftBrace :: quotationMark :: (key ++ quotationMark :: colon :: quotationMark ::
        (value ++ [quotationMark, rightBrace])) := by
    simp
  have hlen : 0 + (quotationMark :: (key ++ quotationMark :: (colon :: quotationMark ::
      (value ++ [quotationMark])))).length + 2 = key.length + value.length + 7 := by
    simp only [List.length_cons, List.length_append, List.length_nil]
    omega
  have hstart : ((key.length + 4 : ℕ) : ℤ) + 1 = (key.length + 5 : ℕ) := rfl
  rw [hjs, hlen, hstart, List.append_nil] at hobject
  rw [← text_eq_self (items_ne_zero hobject)] at hobject
  exact jsmnParse_items room hobject

end RpiCc2520.JsmnGrammar
