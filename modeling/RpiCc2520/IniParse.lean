import RpiCc2520.TextTrim

/-! inih: a configuration file is read line by line. A line is nothing, a section, a setting that a
handler is told, or an error, of which the first is remembered by its line number. -/
namespace RpiCc2520.IniParse
open TextTrim

def iniMaxLine : ℕ := 200
def maxSection : ℕ := 50
def maxName : ℕ := 50

def newline : UInt8 := 0x0A
def semicolon : UInt8 := 0x3B
def hash : UInt8 := 0x23
def equals : UInt8 := 0x3D
def colon : UInt8 := 0x3A
def leftBracket : UInt8 := 0x5B
def rightBracket : UInt8 := 0x5D

/-- The mark of a text in UTF-8. -/
def bom : List UInt8 := [0xEF, 0xBB, 0xBF]

def isspace (c : UInt8) : Bool := c == 0x20 || (0x09 ≤ c && c ≤ 0x0D)

def cString (buf : List UInt8) : List UInt8 := buf.takeWhile (· ≠ 0)

def rstrip (s : List UInt8) : List UInt8 := s.rdropWhile isspace

def lskip (s : List UInt8) : List UInt8 := s.dropWhile isspace

/-- The text before `c` or a comment, and the text from there on. The last byte looked at was white
space, or was not. -/
def findCharOrComment (c : UInt8) : Bool → List UInt8 → List UInt8 × List UInt8
  | _, [] => ([], [])
  | wasWhitespace, b :: s =>
      if b = c ∨ wasWhitespace = true ∧ b = semicolon then ([], b :: s)
      else
        let (before, after) := findCharOrComment c (isspace b) s
        (b :: before, after)

/-- What a string becomes in an array of `size` bytes. -/
def strncpy0 (src : List UInt8) (size : ℕ) : List UInt8 := src.take (size - 1)

/-- Up to `room` bytes, and none behind the end of a line. -/
def takeLine : ℕ → List UInt8 → List UInt8 × List UInt8
  | 0, file => ([], file)
  | _, [] => ([], [])
  | room + 1, b :: file =>
      if b = newline then ([b], file)
      else
        let (line, rest) := takeLine room file
        (b :: line, rest)

/-- A line and the rest of the file, `none` at its end. -/
def fgets (size : ℕ) (file : List UInt8) : Option (List UInt8 × List UInt8) :=
  if file = [] then none else some (takeLine (size - 1) file)

structure Scan where
  lineno : ℕ
  sectionName : List UInt8
  prevName : List UInt8

inductive Outcome
  | silent
  | handler (name value : List UInt8)
  | malformed
  deriving DecidableEq

def readSection (s : Scan) (start : List UInt8) : Scan × Outcome :=
  let (name, stop) := findCharOrComment rightBracket false start
  if stop.head? = some rightBracket then
    ({ s with sectionName := strncpy0 name maxSection, prevName := [] }, .silent)
  else (s, .malformed)

/-- The name on a line, and the line from behind it on: from its `=`, or else from its `:`. -/
def splitPair (start : List UInt8) : List UInt8 × List UInt8 :=
  let atEquals := findCharOrComment equals false start
  if atEquals.2.head? = some equals then atEquals else findCharOrComment colon false start

def readPair (s : Scan) (start : List UInt8) : Scan × Outcome :=
  let (name, stop) := splitPair start
  if stop.head? = some equals ∨ stop.head? = some colon then
    let name := rstrip name
    let value := lskip stop.tail
    let value := rstrip (findCharOrComment 0 false value).1
    ({ s with prevName := strncpy0 name maxName }, .handler name value)
  else (s, .malformed)

/-- A line without white space around it, which did begin with some or did not. -/
def readStart (s : Scan) (indented : Bool) (start : List UInt8) : Scan × Outcome :=
  if start.head? = some semicolon ∨ start.head? = some hash then (s, .silent)
  else if s.prevName ≠ [] ∧ start ≠ [] ∧ indented = true then (s, .handler s.prevName start)
  else if start.head? = some leftBracket then readSection s start.tail
  else if start ≠ [] then readPair s start
  else (s, .silent)

def readLine (s : Scan) (line : List UInt8) : Scan × Outcome :=
  let s := { s with lineno := s.lineno + 1 }
  let marked : Bool := s.lineno = 1 ∧ line.take 3 = bom
  let stripped := rstrip (cString (if marked then line.drop 3 else line))
  let start := lskip stripped
  readStart s (marked || start.length < stripped.length) start

/-- The first error is kept. -/
def keepFirst (error lineno : ℕ) : ℕ := if error = 0 then lineno else error

/-- The state of the loop: its variables, the error so far and what the handler made of its
calls. -/
structure Parser (σ : Type) where
  scan : Scan
  error : ℕ
  user : σ

variable {σ : Type}

/-- Told a section, a name and a value a handler returns whether it is content. -/
abbrev Handler (σ : Type) := σ → List UInt8 → List UInt8 → List UInt8 → σ × Bool

def parseLine (handler : Handler σ) (p : Parser σ) (line : List UInt8) : Parser σ :=
  let (s, outcome) := readLine p.scan line
  match outcome with
  | .silent => { p with scan := s }
  | .malformed => { p with scan := s, error := keepFirst p.error s.lineno }
  | .handler name value =>
      let (user, content) := handler p.user s.sectionName name value
      ⟨s, if content then p.error else keepFirst p.error s.lineno, user⟩

/-- The loop. Every turn takes a byte from the file at least. -/
def parseLoop (handler : Handler σ) : ℕ → List UInt8 → Parser σ → Parser σ
  | 0, _, p => p
  | fuel + 1, file, p =>
      match fgets iniMaxLine file with
      | none => p
      | some (line, rest) => parseLoop handler fuel rest (parseLine handler p line)

/-- The user's data after it, and the line of the first error. -/
def iniParseFile (handler : Handler σ) (user : σ) (file : List UInt8) : σ × ℕ :=
  let p := parseLoop handler file.length file ⟨⟨0, [], []⟩, 0, user⟩
  (p.user, p.error)

/-- A file that cannot be opened is error -1. -/
def iniParse (handler : Handler σ) (user : σ) : Option (List UInt8) → σ × ℤ
  | none => (user, -1)
  | some file => ((iniParseFile handler user file).1, (iniParseFile handler user file).2)

-- `[a]`, `b = c ; d`, ` e`
example : iniParseFile (fun calls a b c => (calls ++ [(a, b, c)], true)) []
    [0x5B, 0x61, 0x5D, 0x0A, 0x62, 0x20, 0x3D, 0x20, 0x63, 0x20, 0x3B, 0x20, 0x64, 0x0A, 0x20,
      0x65] = ([([0x61], [0x62], [0x63]), ([0x61], [0x62], [0x65])], 0) := by decide

def readLines : ℕ → List UInt8 → List (List UInt8)
  | 0, _ => []
  | fuel + 1, file =>
      match fgets iniMaxLine file with
      | none => []
      | some (line, rest) => line :: readLines fuel rest

def fileLines (file : List UInt8) : List (List UInt8) := readLines file.length file

/-- What the lines come to, each with the variables after it. No handler has a part in it. -/
def outcomes (s : Scan) : List (List UInt8) → List (Scan × Outcome)
  | [] => []
  | line :: lines => readLine s line :: outcomes (readLine s line).1 lines

def fileOutcomes (file : List UInt8) : List (Scan × Outcome) :=
  outcomes ⟨0, [], []⟩ (fileLines file)

def tell (handler : Handler σ) (user : σ) (r : Scan × Outcome) : σ :=
  match r.2 with
  | .handler name value => (handler user r.1.sectionName name value).1
  | .silent | .malformed => user

/-- A line that is malformed, or that the handler is not content with after those before it. -/
def Faulty (handler : Handler σ) (user : σ) (before : List (Scan × Outcome))
    (r : Scan × Outcome) : Prop :=
  match r.2 with
  | .silent => False
  | .malformed => True
  | .handler name value =>
      (handler (before.foldl (tell handler) user) r.1.sectionName name value).2 = false

def Clean (handler : Handler σ) (user : σ) (rs : List (Scan × Outcome)) : Prop :=
  ∀ before r after, rs = before ++ r :: after → ¬Faulty handler user before r

/-- The error is 0 when no line is faulty, and the number of the first faulty line else. The handler
is told every line there is, those behind a fault too. -/
structure Reports (handler : Handler σ) (user : σ) (rs : List (Scan × Outcome)) (out : σ × ℕ) :
    Prop where
  told : out.1 = rs.foldl (tell handler) user
  error : out.2 = 0 ∧ Clean handler user rs ∨ ∃ before r after, rs = before ++ r :: after ∧
    Clean handler user before ∧ Faulty handler user before r ∧ out.2 = before.length + 1

theorem takeLine_append (room : ℕ) (file : List UInt8) :
    (takeLine room file).1 ++ (takeLine room file).2 = file := by
  fun_induction takeLine room file <;> simp_all

theorem takeLine_ne_nil {room : ℕ} {file : List UInt8} (hroom : 0 < room) (h : file ≠ []) :
    (takeLine room file).1 ≠ [] := by
  fun_cases takeLine room file <;> simp_all

theorem length_takeLine_le (room : ℕ) (file : List UInt8) :
    (takeLine room file).1.length ≤ room := by
  fun_induction takeLine room file <;> simp_all

theorem newline_not_mem_takeLine (room : ℕ) (file : List UInt8) :
    newline ∉ (takeLine room file).1.dropLast := by
  fun_induction takeLine room file with
  | case1 => simp
  | case2 => simp
  | case3 => simp
  | case4 room b file hb line rest hline ih =>
    rw [hline] at ih
    cases line with
    | nil => simp
    | cons c line =>
      rw [List.dropLast_cons_of_ne_nil (List.cons_ne_nil c line), List.mem_cons, not_or]
      exact ⟨Ne.symm hb, ih⟩

theorem fgets_eq_some {size : ℕ} {file line rest : List UInt8} (hsize : 1 < size)
    (h : fgets size file = some (line, rest)) :
    line ++ rest = file ∧ line ≠ [] ∧ line.length < size ∧ newline ∉ line.dropLast := by
  unfold fgets at h
  split_ifs at h with hne
  have hline : (takeLine (size - 1) file).1 = line := congrArg Prod.fst (Option.some.inj h)
  have hrest : (takeLine (size - 1) file).2 = rest := congrArg Prod.snd (Option.some.inj h)
  rw [← hline, ← hrest]
  refine ⟨takeLine_append _ _, takeLine_ne_nil (by omega) hne, ?_, newline_not_mem_takeLine _ _⟩
  have hle := length_takeLine_le (size - 1) file
  omega

theorem parseLoop_eq_foldl (handler : Handler σ) (fuel : ℕ) (file : List UInt8) (p : Parser σ) :
    parseLoop handler fuel file p = (readLines fuel file).foldl (parseLine handler) p := by
  induction fuel generalizing file p with
  | zero => rfl
  | succ fuel ih =>
    rw [parseLoop, readLines]
    cases h : fgets iniMaxLine file with
    | none => rfl
    | some out =>
      dsimp only
      rw [ih, List.foldl_cons]

theorem readLines_congr (fuel fuel' : ℕ) {file : List UInt8} (h : file.length ≤ fuel)
    (h' : file.length ≤ fuel') : readLines fuel file = readLines fuel' file := by
  induction fuel generalizing fuel' file with
  | zero =>
    rw [Nat.le_zero, List.length_eq_zero_iff] at h
    subst h
    cases fuel' <;> rfl
  | succ fuel ih =>
    cases fuel' with
    | zero =>
      rw [Nat.le_zero, List.length_eq_zero_iff] at h'
      subst h'
      rfl
    | succ fuel' =>
      rw [readLines, readLines]
      cases hget : fgets iniMaxLine file with
      | none => rfl
      | some out =>
        obtain ⟨line, rest⟩ := out
        obtain ⟨happ, hne, -⟩ := fgets_eq_some (by decide) hget
        have hpos := List.length_pos_of_ne_nil hne
        have hlength := congrArg List.length happ
        rw [List.length_append] at hlength
        dsimp only
        rw [ih fuel' (by omega) (by omega)]

theorem fileLines_cons {file line rest : List UInt8}
    (h : fgets iniMaxLine file = some (line, rest)) :
    fileLines file = line :: fileLines rest := by
  obtain ⟨happ, hne, -⟩ := fgets_eq_some (by decide) h
  have hpos := List.length_pos_of_ne_nil hne
  have hlength := congrArg List.length happ
  rw [List.length_append] at hlength
  obtain ⟨fuel, hfuel⟩ : ∃ fuel, file.length = fuel + 1 := ⟨file.length - 1, by omega⟩
  rw [fileLines, hfuel, readLines, h]
  dsimp only
  rw [fileLines, readLines_congr fuel rest.length (by omega) le_rfl]

/-- A line as it is read: a byte at least, room for a NUL, and its end last on it or nowhere. -/
structure Line (line : List UInt8) : Prop where
  nonempty : line ≠ []
  length : line.length < iniMaxLine
  last : newline ∉ line.dropLast

/-- The lines of a file are the file. -/
theorem fileLines_spec (file : List UInt8) :
    (fileLines file).flatten = file ∧ ∀ line ∈ fileLines file, Line line := by
  induction hn : file.length using Nat.strong_induction_on generalizing file with
  | _ n ih =>
    cases hget : fgets iniMaxLine file with
    | none =>
      have hnil : file = [] := by
        unfold fgets at hget
        by_contra hne
        rw [if_neg hne] at hget
        cases hget
      subst hnil
      exact ⟨rfl, List.forall_mem_nil _⟩
    | some out =>
      obtain ⟨line, rest⟩ := out
      obtain ⟨happ, hne, hlt, hlast⟩ := fgets_eq_some (by decide) hget
      have hpos := List.length_pos_of_ne_nil hne
      have hlength := congrArg List.length happ
      rw [List.length_append] at hlength
      obtain ⟨hflat, hall⟩ := ih rest.length (by omega) rest rfl
      rw [fileLines_cons hget, List.flatten_cons, hflat]
      exact ⟨happ, List.forall_mem_cons.mpr ⟨⟨hne, hlt, hlast⟩, hall⟩⟩

theorem iniParseFile_eq (handler : Handler σ) (user : σ) (file : List UInt8) :
    iniParseFile handler user file =
      let p := (fileLines file).foldl (parseLine handler) ⟨⟨0, [], []⟩, 0, user⟩
      (p.user, p.error) := by
  rw [iniParseFile, parseLoop_eq_foldl]
  rfl

theorem lineno_readPair (s : Scan) (start : List UInt8) :
    (readPair s start).1.lineno = s.lineno := by
  unfold readPair
  dsimp only
  split_ifs <;> rfl

theorem lineno_readSection (s : Scan) (start : List UInt8) :
    (readSection s start).1.lineno = s.lineno := by
  unfold readSection
  dsimp only
  split_ifs <;> rfl

theorem lineno_readStart (s : Scan) (indented : Bool) (start : List UInt8) :
    (readStart s indented start).1.lineno = s.lineno := by
  unfold readStart
  split_ifs
  · rfl
  · rfl
  · exact lineno_readSection s _
  · exact lineno_readPair s start
  · rfl

theorem lineno_readLine (s : Scan) (line : List UInt8) :
    (readLine s line).1.lineno = s.lineno + 1 := by
  unfold readLine
  exact lineno_readStart _ _ _

/-- A line does to the parser what it comes to. -/
theorem parseLine_spec (handler : Handler σ) (p : Parser σ) (line : List UInt8) :
    let r := readLine p.scan line
    (parseLine handler p line).scan = r.1 ∧
      (parseLine handler p line).user = tell handler p.user r ∧
      (Faulty handler p.user [] r →
        (parseLine handler p line).error = keepFirst p.error (p.scan.lineno + 1)) ∧
      (¬Faulty handler p.user [] r → (parseLine handler p line).error = p.error) := by
  have hlineno := lineno_readLine p.scan line
  unfold parseLine tell Faulty
  cases hr : readLine p.scan line with
  | mk s outcome =>
    rw [hr] at hlineno
    cases outcome with
    | silent => simp
    | malformed => simp_all
    | handler name value =>
      dsimp only at hlineno ⊢
      rw [← hlineno]
      cases hcontent : (handler p.user s.sectionName name value).2 <;> simp [hcontent]

/-- What holds wherever a list is cut holds of its first element and wherever the rest is cut. -/
theorem forall_cut_cons {α : Type} {P : List α → α → Prop} {a : α} {as : List α} :
    (∀ before x after, a :: as = before ++ x :: after → P before x) ↔
      P [] a ∧ ∀ before x after, as = before ++ x :: after → P (a :: before) x := by
  constructor
  · intro h
    refine ⟨h [] a as rfl, fun before x after heq => h (a :: before) x after ?_⟩
    rw [heq, List.cons_append]
  · rintro ⟨hfirst, hrest⟩ before x after heq
    cases before with
    | nil =>
      cases heq
      exact hfirst
    | cons b before =>
      cases heq
      exact hrest before x after rfl

theorem clean_nil (handler : Handler σ) (user : σ) : Clean handler user [] := by
  intro before r after h
  simp at h

theorem clean_cons {handler : Handler σ} {user : σ} {r : Scan × Outcome}
    {rs : List (Scan × Outcome)} : Clean handler user (r :: rs) ↔
      ¬Faulty handler user [] r ∧ Clean handler (tell handler user r) rs :=
  forall_cut_cons

theorem error_foldl {handler : Handler σ} {p : Parser σ} (h : p.error ≠ 0)
    (lines : List (List UInt8)) :
    (lines.foldl (parseLine handler) p).error = p.error := by
  induction lines generalizing p with
  | nil => rfl
  | cons line lines ih =>
    obtain ⟨-, -, hfaulty, hfine⟩ := parseLine_spec handler p line
    have hkept : (parseLine handler p line).error = p.error := by
      by_cases hf : Faulty handler p.user [] (readLine p.scan line)
      · rw [hfaulty hf, keepFirst, if_neg h]
      · exact hfine hf
    rw [List.foldl_cons, ih (hkept ▸ h), hkept]

theorem user_foldl (handler : Handler σ) (p : Parser σ) (lines : List (List UInt8)) :
    (lines.foldl (parseLine handler) p).user =
      (outcomes p.scan lines).foldl (tell handler) p.user := by
  induction lines generalizing p with
  | nil => rfl
  | cons line lines ih =>
    obtain ⟨hscan, huser, -⟩ := parseLine_spec handler p line
    rw [List.foldl_cons, ih, hscan, huser]
    rfl

/-- By induction on the lines: the first of them is at fault, or what was told before the others
grows by it. -/
theorem error_foldl_zero (handler : Handler σ) (p : Parser σ) (h : p.error = 0)
    (lines : List (List UInt8)) :
    let error := (lines.foldl (parseLine handler) p).error
    let rs := outcomes p.scan lines
    error = 0 ∧ Clean handler p.user rs ∨ ∃ before r after, rs = before ++ r :: after ∧
      Clean handler p.user before ∧ Faulty handler p.user before r ∧
        error = p.scan.lineno + before.length + 1 := by
  induction lines generalizing p with
  | nil => exact .inl ⟨h, clean_nil _ _⟩
  | cons line lines ih =>
    obtain ⟨hscan, huser, hfaulty, hfine⟩ := parseLine_spec handler p line
    by_cases hf : Faulty handler p.user [] (readLine p.scan line)
    · refine .inr ⟨[], _, _, rfl, clean_nil _ _, hf, ?_⟩
      have herror := hfaulty hf
      rw [keepFirst, if_pos h] at herror
      rw [List.foldl_cons, error_foldl (by omega), herror]
      rfl
    · have hrest := ih (parseLine handler p line) ((hfine hf).trans h)
      rw [hscan, huser, lineno_readLine] at hrest
      rcases hrest with ⟨hzero, hclean⟩ | ⟨before, r, after, hrs, hclean, hr, herror⟩
      · exact .inl ⟨hzero, clean_cons.mpr ⟨hf, hclean⟩⟩
      · refine .inr ⟨readLine p.scan line :: before, r, after, ?_,
          clean_cons.mpr ⟨hf, hclean⟩, hr, ?_⟩
        · rw [outcomes, hrs, List.cons_append]
        · rw [List.foldl_cons, herror, List.length_cons]
          omega

theorem reports_iniParseFile (handler : Handler σ) (user : σ) (file : List UInt8) :
    Reports handler user (fileOutcomes file) (iniParseFile handler user file) := by
  rw [iniParseFile_eq]
  refine ⟨user_foldl handler _ _, ?_⟩
  have h := error_foldl_zero handler ⟨⟨0, [], []⟩, 0, user⟩ rfl (fileLines file)
  simpa [fileOutcomes] using h

/-- A text of a line: no NUL and no end of a line in it, and no longer than fits. -/
structure Fits (size : ℕ) (s : List UInt8) : Prop where
  nul : 0 ∉ s
  newline : newline ∉ s
  length : s.length < size

/-- The arrays of the loop hold strings. -/
structure Scan.Sound (s : Scan) : Prop where
  sectionName : Fits maxSection s.sectionName
  prevName : Fits maxName s.prevName

structure Told (s : Scan) (name value : List UInt8) : Prop where
  sectionName : Fits maxSection s.sectionName
  name : Fits iniMaxLine name
  trimmed : Trimmed isspace value
  value : Fits iniMaxLine value

theorem Fits.of_sublist {size : ℕ} {s t : List UInt8} (h : Fits size s) (hsub : t.Sublist s) :
    Fits size t :=
  ⟨fun h0 => h.nul (hsub.subset h0), fun hn => h.newline (hsub.subset hn),
    hsub.length_le.trans_lt h.length⟩

theorem Fits.strncpy0 {size : ℕ} {s : List UInt8} (h : Fits size s) {room : ℕ} (hroom : 0 < room) :
    Fits room (strncpy0 s room) := by
  have hsub := List.take_sublist (room - 1) s
  refine ⟨fun h0 => h.nul (hsub.subset h0), fun hn => h.newline (hsub.subset hn), ?_⟩
  rw [IniParse.strncpy0, List.length_take]
  omega

theorem findCharOrComment_append (c : UInt8) (was : Bool) (s : List UInt8) :
    (findCharOrComment c was s).1 ++ (findCharOrComment c was s).2 = s := by
  induction s generalizing was with
  | nil => rfl
  | cons b s ih =>
    rw [findCharOrComment]
    split_ifs
    · rfl
    · exact congrArg (b :: ·) (ih (isspace b))

theorem sublist_find_fst (c : UInt8) (was : Bool) (s : List UInt8) :
    (findCharOrComment c was s).1.Sublist s := by
  conv_rhs => rw [← findCharOrComment_append c was s]
  exact List.sublist_append_left _ _

theorem sublist_find_snd (c : UInt8) (was : Bool) (s : List UInt8) :
    (findCharOrComment c was s).2.Sublist s := by
  conv_rhs => rw [← findCharOrComment_append c was s]
  exact List.sublist_append_right _ _

theorem sublist_rstrip (s : List UInt8) : (rstrip s).Sublist s :=
  (List.rdropWhile_prefix isspace s).sublist

theorem sublist_lskip (s : List UInt8) : (lskip s).Sublist s := List.dropWhile_sublist isspace

theorem trimmed_rstrip {s : List UInt8} (h : Flush isspace s) : Trimmed isspace (rstrip s) :=
  ⟨h.of_prefix (List.rdropWhile_prefix isspace s), closed_rdropWhile isspace s⟩

theorem trimmed_lskip {s : List UInt8} (h : Closed isspace s) : Trimmed isspace (lskip s) :=
  ⟨flush_dropWhile isspace s, h.of_suffix (List.dropWhile_suffix isspace)⟩

/-- What a line comes to when it is read from sound arrays. -/
structure Reads (r : Scan × Outcome) : Prop where
  sound : r.1.Sound
  told : ∀ name value, r.2 = .handler name value → Told r.1 name value

theorem fits_nil {size : ℕ} (h : 0 < size) : Fits size [] :=
  ⟨List.not_mem_nil, List.not_mem_nil, h⟩

theorem reads_readSection {s : Scan} {start : List UInt8} (hs : s.Sound)
    (hstart : Fits iniMaxLine start) : Reads (readSection s start) := by
  unfold readSection
  dsimp only
  split_ifs
  · have hname := hstart.of_sublist (sublist_find_fst rightBracket false start)
    exact ⟨⟨hname.strncpy0 (by decide), fits_nil (by decide)⟩, nofun⟩
  · exact ⟨hs, nofun⟩

theorem sublist_splitPair (start : List UInt8) :
    (splitPair start).1.Sublist start ∧ (splitPair start).2.Sublist start := by
  unfold splitPair
  dsimp only
  split_ifs
  · exact ⟨sublist_find_fst _ _ _, sublist_find_snd _ _ _⟩
  · exact ⟨sublist_find_fst _ _ _, sublist_find_snd _ _ _⟩

theorem reads_readPair {s : Scan} {start : List UInt8} (hs : s.Sound)
    (hstart : Fits iniMaxLine start) : Reads (readPair s start) := by
  obtain ⟨hfst, hsnd⟩ := sublist_splitPair start
  unfold readPair
  dsimp only
  split_ifs
  · have hname := hstart.of_sublist ((sublist_rstrip _).trans hfst)
    refine ⟨⟨hs.sectionName, hname.strncpy0 (by decide)⟩, fun name value h => ?_⟩
    cases h
    have hskip : (lskip (splitPair start).2.tail).Sublist start :=
      (sublist_lskip _).trans ((List.tail_sublist _).trans hsnd)
    have hflush : Flush isspace
        (findCharOrComment 0 false (lskip (splitPair start).2.tail)).1 := by
      apply Flush.of_prefix (flush_dropWhile isspace _)
      exact ⟨_, findCharOrComment_append 0 false _⟩
    refine ⟨hs.sectionName, hname, trimmed_rstrip hflush, ?_⟩
    exact hstart.of_sublist ((sublist_rstrip _).trans ((sublist_find_fst _ _ _).trans hskip))
  · exact ⟨hs, nofun⟩

theorem reads_readStart {s : Scan} {start : List UInt8} (hs : s.Sound)
    (hstart : Fits iniMaxLine start) (htrim : Trimmed isspace start) (indented : Bool) :
    Reads (readStart s indented start) := by
  unfold readStart
  split_ifs
  · exact ⟨hs, nofun⟩
  · refine ⟨hs, fun name value h => ?_⟩
    cases h
    have hprev := hs.prevName
    exact ⟨hs.sectionName, ⟨hprev.nul, hprev.newline, hprev.length.trans (by decide)⟩, htrim,
      hstart⟩
  · exact reads_readSection hs (hstart.of_sublist (List.tail_sublist _))
  · exact reads_readPair hs hstart
  · exact ⟨hs, nofun⟩

theorem sublist_dropLast {s t : List UInt8} (h : s.Sublist t) :
    s.dropLast.Sublist t.dropLast := by
  have htail := h.reverse.tail.reverse
  rwa [List.tail_reverse, List.tail_reverse, List.reverse_reverse, List.reverse_reverse] at htail

/-- Without white space at its end a line holds no end of a line. -/
theorem fits_rstrip {line : List UInt8} (hlength : line.length < iniMaxLine)
    (hlast : newline ∉ line.dropLast) : Fits iniMaxLine (rstrip (cString line)) := by
  have hsub : (rstrip (cString line)).Sublist line :=
    (sublist_rstrip _).trans (List.takeWhile_sublist _)
  refine ⟨fun h0 => ?_, fun hn => ?_, hsub.length_le.trans_lt hlength⟩
  · have hmem := List.mem_takeWhile_imp ((sublist_rstrip _).subset h0)
    simp at hmem
  · have hne := List.ne_nil_of_mem hn
    have hclosed := closed_rdropWhile isspace (cString line) _
      (List.getLast?_eq_getLast_of_ne_nil hne)
    rw [← List.dropLast_append_getLast hne, List.mem_append, List.mem_singleton] at hn
    rcases hn with hn | hn
    · exact hlast ((sublist_dropLast hsub).subset hn)
    · have hspace : isspace newline = false := by
        rw [hn]
        exact hclosed
      cases hspace

theorem reads_readLine {s : Scan} {line : List UInt8} (hs : s.Sound) (h : Line line) :
    Reads (readLine s line) := by
  have hfits (marked : Bool) :
      Fits iniMaxLine (rstrip (cString (if marked then line.drop 3 else line))) := by
    have hsub : (if marked then line.drop 3 else line).Sublist line := by
      split_ifs
      · exact List.drop_sublist 3 line
      · exact List.Sublist.refl line
    exact fits_rstrip (hsub.length_le.trans_lt h.length)
      fun hn => h.last ((sublist_dropLast hsub).subset hn)
  unfold readLine
  exact reads_readStart (s := { s with lineno := s.lineno + 1 }) ⟨hs.sectionName, hs.prevName⟩
    ((hfits _).of_sublist (sublist_lskip _))
    (trimmed_lskip (closed_rdropWhile isspace _)) _

theorem reads_outcomes {s : Scan} (hs : s.Sound) {lines : List (List UInt8)}
    (hlines : ∀ line ∈ lines, Line line) : ∀ r ∈ outcomes s lines, Reads r := by
  induction lines generalizing s with
  | nil => exact List.forall_mem_nil _
  | cons line lines ih =>
    obtain ⟨hline, hlines⟩ := List.forall_mem_cons.mp hlines
    have hread := reads_readLine hs hline
    exact List.forall_mem_cons.mpr ⟨hread, ih hread.sound hlines⟩

/-- Whatever the file, a handler is told strings that fit the arrays they come from, without the
ends of lines and with nothing blank around the value. -/
theorem told_of_mem_fileOutcomes (file : List UInt8) (r : Scan × Outcome)
    (h : r ∈ fileOutcomes file) (name value : List UInt8) (hr : r.2 = .handler name value) :
    Told r.1 name value := by
  have hsound : Scan.Sound ⟨0, [], []⟩ := ⟨fits_nil (by decide), fits_nil (by decide)⟩
  exact (reads_outcomes hsound (fileLines_spec file).2 r h).told name value hr

end RpiCc2520.IniParse
