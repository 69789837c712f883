import RpiCc2520.JsonText

/-! The client's JSON parser: a text is cut into tokens, each with its type, where it starts and
stops, and how many tokens stand right under it; `toksuper` is the innermost one that is still open.
A text ends at its first NUL. -/
namespace RpiCc2520.JsmnTree
open JsonText

inductive TokenType
  | primitive
  | object
  | array
  | string
  deriving DecidableEq, Repr

inductive JsmnError
  | nomem
  | inval
  | part
  deriving DecidableEq, Repr

def leftBracket : UInt8 := 0x5B
def rightBracket : UInt8 := 0x5D

def endsPrimitive (b : UInt8) : Bool :=
  b == colon || isSpace b || b == comma || b == rightBracket || b == rightBrace

def primitiveStop : List UInt8 → ℕ → Except JsmnError ℕ
  | [], pos => .ok pos
  | b :: js, pos =>
      if b = 0 ∨ endsPrimitive b = true then .ok pos
      else if b < 32 ∨ b ≥ 127 then .error .inval
      else primitiveStop js (pos + 1)

/-- What may follow a backslash. -/
def escaped : List UInt8 :=
  [quotationMark, 0x2F, backslash, 0x62, 0x66, 0x72, 0x6E, 0x74, 0x75]

def stringStop : List UInt8 → ℕ → Except JsmnError ℕ
  | [], _ => .error .part
  | b :: js, pos =>
      if b = 0 then .error .part
      else if b = quotationMark then .ok pos
      else if b = backslash then
        match js with
        | c :: js => if c ∈ escaped then stringStop js (pos + 2) else .error .inval
        | [] => .error .inval
      else stringStop js (pos + 1)

structure SizedToken where
  type : TokenType
  start : ℤ
  stop : ℤ
  size : ℕ
  deriving DecidableEq, Repr

def SizedToken.isOpen (t : SizedToken) : Bool := t.start != -1 && t.stop == -1

/-- The tokens stand as in the array; `toknext` is how many there are. -/
structure Parser where
  toksuper : Option ℕ
  tokens : List SizedToken
  deriving DecidableEq, Repr

/-- `jsmn_alloc_token` and the filling of the token. -/
def allocToken (numTokens : ℕ) (t : SizedToken) (p : Parser) : Except JsmnError Parser :=
  if p.tokens.length ≥ numTokens then .error .nomem
  else .ok { p with tokens := p.tokens ++ [t] }

/-- `tokens[parser->toksuper].size++`, if there is a `toksuper`. -/
def countMember (p : Parser) : Parser :=
  match p.toksuper with
  | none => p
  | some i => { p with tokens := p.tokens.modify i fun t => { t with size := t.size + 1 } }

def lastOpen (tokens : List SizedToken) : ℕ → Option ℕ
  | 0 => none
  | i + 1 => if tokens[i]?.any SizedToken.isOpen then some i else lastOpen tokens i

/-- The two loops at a closing bracket; the second one goes on from where the first stopped. -/
def closeToken (type : TokenType) (stop : ℤ) (p : Parser) : Except JsmnError Parser :=
  match lastOpen p.tokens p.tokens.length with
  | none => .error .inval
  | some i =>
      if p.tokens[i]?.any (·.type != type) then .error .inval
      else
        let tokens := p.tokens.modify i fun t => { t with stop := stop }
        .ok ⟨lastOpen tokens (i + 1), tokens⟩

/-- The loop of `jsmn_parse`. The next `skip` bytes belong to the token just parsed. -/
def parseLoop (numTokens : ℕ) : List UInt8 → ℕ → ℕ → Parser → Except JsmnError Parser
  | [], _, _, p => .ok p
  | _ :: js, pos, skip + 1, p => parseLoop numTokens js (pos + 1) skip p
  | b :: js, pos, 0, p =>
      if b = 0 then .ok p
      else if b = leftBrace ∨ b = leftBracket then do
        let type := if b = leftBrace then .object else .array
        let p' ← allocToken numTokens ⟨type, pos, -1, 0⟩ (countMember p)
        parseLoop numTokens js (pos + 1) 0 { p' with toksuper := some (p'.tokens.length - 1) }
      else if b = rightBrace ∨ b = rightBracket then do
        let type := if b = rightBrace then .object else .array
        let p ← closeToken type (pos + 1) p
        parseLoop numTokens js (pos + 1) 0 p
      else if b = quotationMark then do
        let stop ← stringStop js (pos + 1)
        let p ← allocToken numTokens ⟨.string, pos + 1, stop, 0⟩ p
        parseLoop numTokens js (pos + 1) (stop - pos) (countMember p)
      else if isSpace b ∨ b = colon ∨ b = comma then parseLoop numTokens js (pos + 1) 0 p
      else do
        let stop ← primitiveStop (b :: js) pos
        let p ← allocToken numTokens ⟨.primitive, pos, stop, 0⟩ p
        parseLoop numTokens js (pos + 1) (stop - 1 - pos) (countMember p)

/-- `jsmn_parse` after `jsmn_init`. -/
def jsmnParse (numTokens : ℕ) (js : List UInt8) : Except JsmnError (List SizedToken) := do
  let p ← parseLoop numTokens js 0 0 ⟨none, []⟩
  if p.tokens.any SizedToken.isOpen then .error .part else .ok p.tokens

/-- A byte that stands for itself in a string. -/
def Literal (b : UInt8) : Prop := b ≠ 0 ∧ b ≠ quotationMark ∧ b ≠ backslash

def Closing (b : UInt8) : Prop := b = rightBrace ∨ b = rightBracket

theorem bind_eq_ok {α β : Type} {x : Except JsmnError α} {f : α → Except JsmnError β} {b : β}
    (h : x >>= f = .ok b) : ∃ a, x = .ok a ∧ f a = .ok b := by
  cases x with
  | error e => cases h
  | ok a => exact ⟨a, rfl, h⟩

/-- The text that a buffer holds up to its first NUL. -/
def text (js : List UInt8) : List UInt8 := js.takeWhile (· ≠ 0)

variable {numTokens n : ℕ}

def Closed (ts : List SizedToken) : Prop := ∀ t ∈ ts, t.isOpen = false

def top (ts : List SizedToken) : Option ℕ := lastOpen ts ts.length

/-- `n` members more in the innermost open token. -/
def grow (n : ℕ) (ts : List SizedToken) : List SizedToken :=
  match top ts with
  | none => ts
  | some i => ts.modify i fun t => { t with size := t.size + n }

theorem lastOpen_append {ts : List SizedToken} (us : List SizedToken)
    (h : n ≤ ts.length) : lastOpen (ts ++ us) n = lastOpen ts n := by
  induction n with
  | zero => rfl
  | succ n ih =>
    rw [lastOpen, lastOpen, List.getElem?_append_left h, ih (Nat.le_of_succ_le h)]

theorem top_concat (ts : List SizedToken) (t : SizedToken) :
    top (ts ++ [t]) = if t.isOpen then some ts.length else top ts := by
  have hlast := lastOpen_append [t] (le_refl ts.length)
  rw [top, List.length_append, List.length_singleton, lastOpen, hlast,
    List.getElem?_concat_length]
  rfl

theorem top_append {us : List SizedToken} (h : Closed us) (ts : List SizedToken) :
    top (ts ++ us) = top ts := by
  induction us generalizing ts with
  | nil => rw [List.append_nil]
  | cons u us ih =>
    have hu : u.isOpen = false := h u List.mem_cons_self
    rw [← List.singleton_append, ← List.append_assoc,
      ih (fun t ht => h t (List.mem_cons_of_mem u ht)), top_concat, hu]
    rfl

theorem lastOpen_lt {ts : List SizedToken} {i : ℕ} (h : lastOpen ts n = some i) : i < n := by
  induction n with
  | zero => cases h
  | succ n ih =>
    rw [lastOpen] at h
    split_ifs at h with hopen
    · cases h
      exact Nat.lt_succ_self _
    · exact (ih h).trans (Nat.lt_succ_self n)

theorem lastOpen_modify {f : SizedToken → SizedToken} (hf : ∀ t, (f t).isOpen = t.isOpen)
    (ts : List SizedToken) (i n : ℕ) : lastOpen (ts.modify i f) n = lastOpen ts n := by
  induction n with
  | zero => rfl
  | succ n ih =>
    have hopen : ((ts.modify i f)[n]?).any SizedToken.isOpen =
        (ts[n]?).any SizedToken.isOpen := by
      rw [List.getElem?_modify]
      cases ts[n]? with
      | none => rfl
      | some t =>
        change (if i = n then f t else t).isOpen = t.isOpen
        split
        · exact hf t
        · rfl
    rw [lastOpen, lastOpen, ih, hopen]

theorem modify_append_left (f : SizedToken → SizedToken) {ts : List SizedToken} {i : ℕ}
    (h : i < ts.length) (us : List SizedToken) :
    (ts ++ us).modify i f = ts.modify i f ++ us := by
  induction ts generalizing i with
  | nil => cases h
  | cons t ts ih =>
    cases i with
    | zero => rfl
    | succ i =>
      rw [List.cons_append, List.modify_succ_cons, List.modify_succ_cons,
        ih (Nat.lt_of_succ_lt_succ h), List.cons_append]

theorem modify_append_cons (f : SizedToken → SizedToken) (ts us : List SizedToken)
    (t : SizedToken) : (ts ++ t :: us).modify ts.length f = ts ++ f t :: us := by
  induction ts with
  | nil => rfl
  | cons u ts ih => rw [List.cons_append, List.length_cons, List.modify_succ_cons, ih]; rfl

theorem length_grow (n : ℕ) (ts : List SizedToken) : (grow n ts).length = ts.length := by
  unfold grow
  split
  · rfl
  · exact List.length_modify ..

theorem length_grown (n : ℕ) (ts us : List SizedToken) :
    (grow n ts ++ us).length = ts.length + us.length := by
  rw [List.length_append, length_grow]

theorem top_grow (n : ℕ) (ts : List SizedToken) : top (grow n ts) = top ts := by
  have hlen := length_grow n ts
  rw [top, hlen]
  unfold grow
  split
  · rfl
  · exact lastOpen_modify (by exact fun _ => rfl) ts _ _

theorem grow_zero (ts : List SizedToken) : grow 0 ts = ts := by
  unfold grow
  split
  · rfl
  · exact List.modify_id _ ts

theorem grow_grow (m n : ℕ) (ts : List SizedToken) : grow n (grow m ts) = grow (m + n) ts := by
  have htop := top_grow m ts
  unfold grow at htop ⊢
  cases h : top ts with
  | none => simp only [h]
  | some i =>
    simp only [h] at htop ⊢
    simp only [htop, List.modify_modify_eq]
    congr 1
    funext t
    simp only [Function.comp, Nat.add_assoc]

/-- What is closed behind the innermost open token is not counted. -/
theorem grow_append {us : List SizedToken} (h : Closed us) (n : ℕ) (ts : List SizedToken) :
    grow n (ts ++ us) = grow n ts ++ us := by
  unfold grow
  rw [top_append h]
  cases htop : top ts with
  | none => rfl
  | some i => exact modify_append_left _ (lastOpen_lt htop) us

theorem grow_open {t : SizedToken} (h : t.isOpen = true) (n : ℕ) (ts : List SizedToken) :
    grow n (ts ++ [t]) = ts ++ [{ t with size := t.size + n }] := by
  unfold grow
  rw [top_concat, if_pos h]
  exact modify_append_cons _ ts [] t

theorem countMember_top (ts : List SizedToken) :
    countMember ⟨top ts, ts⟩ = ⟨top ts, grow 1 ts⟩ := by
  unfold countMember grow
  cases top ts <;> rfl

theorem closed_of_stop (type : TokenType) (start : ℤ) (stop size : ℕ) :
    (⟨type, start, stop, size⟩ : SizedToken).isOpen = false := by
  have hne : (stop : ℤ) ≠ -1 := by omega
  simp [SizedToken.isOpen, hne]

theorem open_of_start (type : TokenType) (start size : ℕ) :
    (⟨type, start, -1, size⟩ : SizedToken).isOpen = true := by
  have hne : (start : ℤ) ≠ -1 := by omega
  simp [SizedToken.isOpen, hne]

theorem top_open {t : SizedToken} (ht : t.isOpen = true) {us : List SizedToken}
    (hu : Closed us) (ts : List SizedToken) : top (ts ++ t :: us) = some ts.length := by
  have happ := top_append hu (ts ++ [t])
  rw [List.append_assoc, List.singleton_append] at happ
  rw [happ, top_concat, if_pos ht]

/-- The innermost open token is closed, and the next one out takes its place. -/
theorem closeToken_open (type : TokenType) (start size stop : ℕ) (ts : List SizedToken)
    {us : List SizedToken} (hu : Closed us) (toksuper : Option ℕ) :
    closeToken type stop ⟨toksuper, ts ++ ⟨type, start, -1, size⟩ :: us⟩ =
      .ok ⟨top ts, ts ++ ⟨type, start, stop, size⟩ :: us⟩ := by
  have htop : lastOpen (ts ++ ⟨type, start, -1, size⟩ :: us)
      (ts ++ ⟨type, start, -1, size⟩ :: us).length = some ts.length :=
    top_open (open_of_start type start size) hu ts
  have hbelow : lastOpen (ts ++ ⟨type, start, stop, size⟩ :: us) (ts.length + 1) = top ts := by
    have hlast : top (ts ++ [⟨type, start, stop, size⟩]) = top ts :=
      top_append (List.forall_mem_singleton.mpr (closed_of_stop type start stop size)) ts
    have happ : lastOpen ((ts ++ [⟨type, start, stop, size⟩]) ++ us) (ts.length + 1) = _ :=
      lastOpen_append us (by simp)
    rw [List.append_assoc, List.singleton_append] at happ
    rw [happ, ← hlast, top, List.length_append, List.length_singleton]
  have hget : (ts ++ (⟨type, start, -1, size⟩ : SizedToken) :: us)[ts.length]? =
      some ⟨type, start, -1, size⟩ := by simp
  unfold closeToken
  simp only [htop, hget, modify_append_cons, hbelow]
  rw [if_neg (by simp)]

theorem parseLoop_skip (numTokens : ℕ) (xs rest : List UInt8) (pos : ℕ) (p : Parser) :
    parseLoop numTokens (xs ++ rest) pos xs.length p =
      parseLoop numTokens rest (pos + xs.length) 0 p := by
  induction xs generalizing pos with
  | nil => rfl
  | cons b xs ih =>
    rw [List.cons_append, List.length_cons, parseLoop, ih]
    congr 1
    omega

/-- The parser in the middle of a text: what it has found so far, and the innermost open token. -/
def within (ts : List SizedToken) : Parser := ⟨top ts, ts⟩

theorem alloc_within {ts : List SizedToken} (room : ts.length < numTokens) (t : SizedToken) :
    allocToken numTokens t (within ts) = .ok ⟨top ts, ts ++ [t]⟩ := by
  unfold allocToken
  exact if_neg (not_le.mpr room)

theorem within_leaf {t : SizedToken} (ht : t.isOpen = false) (ts : List SizedToken) :
    countMember ⟨top ts, ts ++ [t]⟩ = within (grow 1 ts ++ [t]) := by
  have hclosed : Closed [t] := List.forall_mem_singleton.mpr ht
  have hcount := countMember_top (ts ++ [t])
  rw [top_append hclosed, grow_append hclosed] at hcount
  rw [hcount, within, top_append hclosed, top_grow]

theorem grow_member {us : List SizedToken} (h : Closed us) (n : ℕ) (ts : List SizedToken) :
    grow n (grow 1 ts ++ us) = grow (n + 1) ts ++ us := by
  rw [grow_append h, grow_grow, Nat.add_comm]

end RpiCc2520.JsmnTree
