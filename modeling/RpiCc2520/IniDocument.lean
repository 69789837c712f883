import RpiCc2520.IniParse

/-! Configuration files as they are written: sections, settings, further lines of a value, comments
and blank lines, in any layout. The parser reads back what was written. -/
namespace RpiCc2520.IniDocument
open IniParse TextTrim

def Blank (ws : List UInt8) : Prop := ∀ b ∈ ws, isspace b = true ∧ b ≠ newline

structure Body (s : List UInt8) : Prop where
  nul : 0 ∉ s
  newline : newline ∉ s

/-- No semicolon follows white space. -/
def NoComment (s : List UInt8) : Prop := ∀ b, isspace b = true → ¬[b, semicolon] <:+: s

/-- What may follow a value: white space, and then a comment when there is a value. -/
inductive Tail (value : List UInt8) : List UInt8 → Prop
  | blank {ws : List UInt8} (hws : Blank ws) : Tail value ws
  | comment {ws body : List UInt8} (hws : Blank ws) (hne : ws ≠ []) (hvalue : value ≠ [])
      (hbody : Body body) : Tail value (ws ++ semicolon :: body)

/-- A name that no other kind of line begins with. -/
structure Name (name : List UInt8) : Prop where
  body : Body name
  nonempty : name ≠ []
  trimmed : Trimmed isspace name
  noComment : NoComment name
  first : ∀ b ∈ name.head?, b ≠ semicolon ∧ b ≠ hash ∧ b ≠ leftBracket
  length : name.length < maxName

structure Value (value : List UInt8) : Prop where
  body : Body value
  trimmed : Trimmed isspace value
  noComment : NoComment value

/-- Between a name and its value. A colon is one when there is no equals sign. -/
def Separates (sep : UInt8) (name value : List UInt8) : Prop :=
  equals ∉ name ∧ (sep = equals ∨ sep = colon ∧ colon ∉ name ∧ equals ∉ value)

inductive Line
  | blank (ws : List UInt8)
  | comment (ws : List UInt8) (mark : UInt8) (body : List UInt8)
  | heading (indent name rest : List UInt8)
  | setting (indent name ws : List UInt8) (sep : UInt8) (ws' value rest : List UInt8)
  | more (ws value ws' : List UInt8)

namespace Line

def text : Line → List UInt8
  | blank ws => ws
  | comment ws mark body => ws ++ mark :: body
  | heading indent name rest => indent ++ leftBracket :: (name ++ rightBracket :: rest)
  | setting indent name ws sep ws' value rest =>
      indent ++ (name ++ ws ++ sep :: (ws' ++ value ++ rest))
  | more ws value ws' => ws ++ value ++ ws'

def Written : Line → Prop
  | blank ws => Blank ws
  | comment ws mark body => Blank ws ∧ (mark = semicolon ∨ mark = hash) ∧ Body body
  | heading indent name rest => Blank indent ∧ Body name ∧ rightBracket ∉ name ∧ NoComment name ∧
      name.length < maxSection ∧ Body rest
  | setting indent name ws sep ws' value rest => Blank indent ∧ Name name ∧ Blank ws ∧
      Separates sep name value ∧ Blank ws' ∧ Value value ∧ Tail value rest
  | more ws value ws' => Blank ws ∧ ws ≠ [] ∧ Body value ∧ value ≠ [] ∧ Trimmed isspace value ∧
      (∀ b ∈ value.head?, b ≠ semicolon ∧ b ≠ hash) ∧ Blank ws'

/-- What the next lines are under: the section and the last name in it. -/
def place : Line → List UInt8 × List UInt8 → List UInt8 × List UInt8
  | blank _, p | comment _ _ _, p | more _ _ _, p => p
  | heading _ name _, _ => (name, [])
  | setting _ name _ _ _ _ _, (sectionName, _) => (sectionName, name)

/-- A further line of a value is below a name, and no other line below a name is indented. -/
def Placed : Line → List UInt8 × List UInt8 → Prop
  | more _ _ _, p => p.2 ≠ []
  | heading indent _ _, p | setting indent _ _ _ _ _ _, p => indent = [] ∨ p.2 = []
  | blank _, _ | comment _ _ _, _ => True

def outcome : Line → List UInt8 × List UInt8 → Outcome
  | blank _, _ | comment _ _ _, _ | heading _ _ _, _ => .silent
  | setting _ name _ _ _ value _, _ => .handler name value
  | more _ value _, p => .handler p.2 value

end Line

theorem isspace_of_blank {ws : List UInt8} (h : Blank ws) : ∀ b ∈ ws, isspace b = true :=
  fun b hb => (h b hb).1

theorem Blank.body {ws : List UInt8} (h : Blank ws) : Body ws :=
  ⟨fun h0 => absurd (h 0 h0).1 (by decide), fun hn => (h _ hn).2 rfl⟩

theorem Blank.not_mem {ws : List UInt8} (h : Blank ws) {b : UInt8} (hb : isspace b = false) :
    b ∉ ws := by
  intro hmem
  rw [(h b hmem).1] at hb
  cases hb

theorem Body.append {s t : List UInt8} (hs : Body s) (ht : Body t) : Body (s ++ t) := by
  refine ⟨fun h => ?_, fun h => ?_⟩
  · exact (List.mem_append.mp h).elim hs.nul ht.nul
  · exact (List.mem_append.mp h).elim hs.newline ht.newline

theorem Body.cons {b : UInt8} {s : List UInt8} (h0 : b ≠ 0) (hn : b ≠ IniParse.newline)
    (hs : Body s) : Body (b :: s) := by
  refine ⟨fun h => ?_, fun h => ?_⟩
  · exact (List.mem_cons.mp h).elim (fun he => h0 he.symm) hs.nul
  · exact (List.mem_cons.mp h).elim (fun he => hn he.symm) hs.newline

/-- Whether the byte before a text that follows `s` is white space. -/
def spaceAfter (was : Bool) (s : List UInt8) : Bool := s.getLast?.elim was isspace

theorem spaceAfter_cons (was : Bool) (b : UInt8) (s : List UInt8) :
    spaceAfter was (b :: s) = spaceAfter (isspace b) s := by
  cases s with
  | nil => rfl
  | cons c s => simp [spaceAfter, List.getLast?_cons]

theorem NoComment.tail {b : UInt8} {s : List UInt8} (h : NoComment (b :: s)) : NoComment s :=
  fun c hc hin => h c hc (hin.trans (List.suffix_cons b s).isInfix)

theorem NoComment.head {b : UInt8} {s : List UInt8} (h : NoComment (b :: s))
    (hb : isspace b = true) : s.head? ≠ some semicolon := by
  intro hs
  cases s with
  | nil => cases hs
  | cons c s =>
    cases hs
    exact h b hb ⟨[], s, rfl⟩

theorem find_append {c : UInt8} {s : List UInt8} (hc : c ∉ s) (hs : NoComment s) {was : Bool}
    (hwas : was = true → s.head? ≠ some semicolon) (t : List UInt8) :
    findCharOrComment c was (s ++ t) =
      (s ++ (findCharOrComment c (spaceAfter was s) t).1,
        (findCharOrComment c (spaceAfter was s) t).2) := by
  induction s generalizing was with
  | nil => rfl
  | cons b s ih =>
    rw [List.mem_cons, not_or] at hc
    have hgo : ¬(b = c ∨ was = true ∧ b = semicolon) := by
      rintro (rfl | ⟨h, rfl⟩)
      · exact hc.1 rfl
      · exact hwas h rfl
    rw [List.cons_append, findCharOrComment, if_neg hgo, ih hc.2 hs.tail hs.head, spaceAfter_cons]
    rfl

theorem find_append_start {c : UInt8} {s : List UInt8} (hc : c ∉ s) (hs : NoComment s)
    (t : List UInt8) : findCharOrComment c false (s ++ t) =
      (s ++ (findCharOrComment c (spaceAfter false s) t).1,
        (findCharOrComment c (spaceAfter false s) t).2) :=
  find_append hc hs (fun h => by cases h) t

theorem head_find_ne {c : UInt8} {s : List UInt8} (hc : c ∉ s) (hsemi : c ≠ semicolon) {was : Bool}
    (hlast : spaceAfter was s = true) (t : List UInt8) :
    (findCharOrComment c was (s ++ semicolon :: t)).2.head? ≠ some c := by
  induction s generalizing was with
  | nil =>
    have hwas : was = true := hlast
    rw [List.nil_append, findCharOrComment, if_pos (.inr ⟨hwas, rfl⟩)]
    simpa using Ne.symm hsemi
  | cons b s ih =>
    rw [List.mem_cons, not_or] at hc
    rw [spaceAfter_cons] at hlast
    rw [List.cons_append, findCharOrComment]
    split_ifs
    · simpa using Ne.symm hc.1
    · exact ih hc.2 hlast

theorem noComment_blank {ws : List UInt8} (h : Blank ws) : NoComment ws := by
  intro b _ hin
  exact h.not_mem (b := semicolon) (by decide) (hin.subset (by simp))

theorem spaceAfter_append (was : Bool) (s : List UInt8) {ws : List UInt8} (h : Blank ws)
    (hne : ws ≠ []) : spaceAfter was (s ++ ws) = true := by
  rw [spaceAfter, List.getLast?_append_of_ne_nil _ hne, List.getLast?_eq_getLast_of_ne_nil hne]
  exact (h _ (List.getLast_mem hne)).1

theorem find_append_blank {c : UInt8} {s ws : List UInt8} (hc : c ∉ s) (hs : NoComment s)
    (hws : Blank ws) (hspace : isspace c = false) (t : List UInt8) :
    findCharOrComment c false (s ++ ws ++ t) =
      (s ++ ws ++ (findCharOrComment c (spaceAfter false (s ++ ws)) t).1,
        (findCharOrComment c (spaceAfter false (s ++ ws)) t).2) := by
  have hfirst : ws.head? ≠ some semicolon := fun h =>
    hws.not_mem (b := semicolon) (by decide) (List.mem_of_head? h)
  have hafter : spaceAfter (spaceAfter false s) ws = spaceAfter false (s ++ ws) := by
    by_cases hne : ws = []
    · subst hne
      rw [List.append_nil]
      rfl
    · rw [spaceAfter_append false s hws hne]
      exact spaceAfter_append _ [] hws hne
  rw [List.append_assoc, find_append_start hc hs,
    find_append (hws.not_mem hspace) (noComment_blank hws) (fun _ => hfirst), hafter,
    ← List.append_assoc]

theorem splitPair_setting {name ws value rest : List UInt8} {sep : UInt8} (hname : Name name)
    (hws : Blank ws) (hsep : Separates sep name value) {ws' : List UInt8} (hws' : Blank ws')
    (hrest : Tail value rest) : splitPair (name ++ ws ++ sep :: (ws' ++ value ++ rest)) =
      (name ++ ws, sep :: (ws' ++ value ++ rest)) := by
  have hfound (c : UInt8) (hc : c ∉ name) (hspace : isspace c = false) (t : List UInt8) :
      findCharOrComment c false (name ++ ws ++ c :: t) = (name ++ ws, c :: t) := by
    rw [find_append_blank hc hname.noComment hws hspace, findCharOrComment, if_pos (.inl rfl),
      List.append_nil]
  obtain ⟨hequals, rfl | ⟨rfl, hcolon, hvalue⟩⟩ := hsep
  · rw [splitPair, hfound equals hequals (by decide)]
    rfl
  · have hfront : equals ∉ name ++ ws ++ colon :: (ws' ++ value) := by
      have h := hws.not_mem (b := equals) (by decide)
      have h' := hws'.not_mem (b := equals) (by decide)
      simp [hequals, hvalue, h, h']
      decide
    have hnone : (findCharOrComment equals false
        (name ++ ws ++ colon :: (ws' ++ value ++ rest))).2.head? ≠ some equals := by
      cases hrest with
      | blank hblank =>
        intro h
        have hmem := (sublist_find_snd _ _ _).subset (List.mem_of_head? h)
        have hrest := hblank.not_mem (b := equals) (by decide)
        simp_all
      | @comment ws'' body hblank hne _ _ =>
        have hsplit : name ++ ws ++ colon :: (ws' ++ value ++ (ws'' ++ semicolon :: body)) =
            name ++ ws ++ colon :: (ws' ++ value) ++ ws'' ++ semicolon :: body := by simp
        rw [hsplit]
        apply head_find_ne _ (by decide) (spaceAfter_append _ _ hblank hne)
        rw [List.mem_append, not_or]
        exact ⟨hfront, hblank.not_mem (by decide)⟩
    rw [splitPair, if_neg hnone, hfound colon hcolon (by decide)]

theorem value_setting {ws' value rest : List UInt8} (hws' : Blank ws') (hvalue : Value value)
    (hrest : Tail value rest) :
    rstrip (findCharOrComment 0 false (lskip (ws' ++ value ++ rest))).1 = value := by
  have hthrough {ws : List UInt8} (hws : Blank ws) (t : List UInt8) :=
    find_append_blank hvalue.body.nul hvalue.noComment hws (by decide) t
  have hstrip {ws : List UInt8} (hws : Blank ws) : rstrip (value ++ ws) = value := by
    rw [rstrip, rdropWhile_append value (isspace_of_blank hws), hvalue.trimmed.closed.rdropWhile]
  have hskip (hne : value ≠ []) : lskip (ws' ++ value ++ rest) = value ++ rest := by
    rw [lskip, List.append_assoc]
    apply dropWhile_append (isspace_of_blank hws')
    intro b hb
    rw [List.head?_append_of_ne_nil _ hne] at hb
    exact hvalue.trimmed.flush b hb
  cases hrest with
  | blank hws =>
    by_cases hne : value = []
    · subst hne
      have hall : lskip (ws' ++ [] ++ rest) = [] := by
        apply dropWhile_blanks
        intro b hb
        simp only [List.append_nil, List.mem_append] at hb
        exact hb.elim (isspace_of_blank hws' b) (isspace_of_blank hws b)
      rw [hall]
      rfl
    · have h := hthrough hws []
      rw [List.append_nil] at h
      rw [hskip hne, h]
      simpa [findCharOrComment] using hstrip hws
  | @comment ws body hws hne hv _ =>
    rw [hskip hv, ← List.append_assoc, hthrough hws, spaceAfter_append _ _ hws hne,
      findCharOrComment, if_pos (.inr ⟨rfl, rfl⟩), List.append_nil, hstrip hws]

theorem readPair_setting {name ws value rest : List UInt8} {sep : UInt8} (hname : Name name)
    (hws : Blank ws) (hsep : Separates sep name value) {ws' : List UInt8} (hws' : Blank ws')
    (hvalue : Value value) (hrest : Tail value rest) (s : Scan) :
    readPair s (name ++ ws ++ sep :: (ws' ++ value ++ rest)) =
      ({ s with prevName := name }, .handler name value) := by
  have hstrip : rstrip (name ++ ws) = name := by
    rw [rstrip, rdropWhile_append name (isspace_of_blank hws), hname.trimmed.closed.rdropWhile]
  have hfit : strncpy0 name maxName = name :=
    List.take_of_length_le (Nat.le_sub_one_of_lt hname.length)
  have hsep' : sep = equals ∨ sep = colon := hsep.2.imp id And.left
  rw [readPair, splitPair_setting hname hws hsep hws' hrest]
  simp only [List.head?_cons, Option.some.injEq, if_pos hsep', List.tail_cons, hstrip, hfit,
    value_setting hws' hvalue hrest]

theorem readSection_heading {name : List UInt8} (hclose : rightBracket ∉ name)
    (hname : NoComment name) (hlength : name.length < maxSection) (rest : List UInt8) (s : Scan) :
    readSection s (name ++ rightBracket :: rest) =
      ({ s with sectionName := name, prevName := [] }, .silent) := by
  have hfit : strncpy0 name maxSection = name :=
    List.take_of_length_le (Nat.le_sub_one_of_lt hlength)
  rw [readSection, find_append_start hclose hname, findCharOrComment, if_pos (.inl rfl),
    List.append_nil]
  simp [hfit]

theorem Body.of_sublist {s t : List UInt8} (h : Body s) (hsub : t.Sublist s) : Body t :=
  ⟨fun h0 => h.nul (hsub.subset h0), fun hn => h.newline (hsub.subset hn)⟩

/-- Without white space at the end of a line a value and what is around it are of the same form. -/
theorem rstrip_right {ws' value rest : List UInt8} (hws' : Blank ws') (hvalue : Value value)
    (hrest : Tail value rest) : ∃ ws'' rest', Blank ws'' ∧ Tail value rest' ∧
      rstrip (ws' ++ value ++ rest) = ws'' ++ value ++ rest' := by
  have hnil : Blank [] := List.forall_mem_nil _
  cases hrest with
  | blank hws =>
    by_cases hne : value = []
    · subst hne
      refine ⟨[], [], hnil, .blank hnil, List.rdropWhile_eq_nil_iff.mpr fun b hb => ?_⟩
      simp only [List.append_nil, List.mem_append] at hb
      exact hb.elim (isspace_of_blank hws' b) (isspace_of_blank hws b)
    · refine ⟨ws', [], hws', .blank hnil, ?_⟩
      have hclosed : Closed isspace (ws' ++ value) := by
        intro b hb
        rw [List.getLast?_append_of_ne_nil _ hne] at hb
        exact hvalue.trimmed.closed b hb
      rw [rstrip, rdropWhile_append _ (isspace_of_blank hws), hclosed.rdropWhile, List.append_nil]
  | @comment ws body hws hne hv hbody =>
    refine ⟨ws', ws ++ semicolon :: rstrip body, hws',
      .comment hws hne hv (hbody.of_sublist (sublist_rstrip body)), ?_⟩
    have hclosed : Closed isspace (ws' ++ value ++ ws ++ [semicolon]) := by
      intro b hb
      rw [List.getLast?_concat, Option.mem_some] at hb
      subst hb
      decide
    have h := rdropWhile_append_of_closed hclosed body
    simpa [rstrip] using h

theorem rstrip_append_closed {s : List UInt8} {b : UInt8} (hb : isspace b = false)
    (t : List UInt8) : rstrip (s ++ b :: t) = s ++ b :: rstrip t := by
  have hclosed : Closed isspace (s ++ [b]) := by
    intro c hc
    rw [List.getLast?_concat, Option.mem_some] at hc
    rw [← hc, hb]
  have h := rdropWhile_append_of_closed hclosed t
  simpa [rstrip] using h

theorem lskip_append {ws : List UInt8} (hws : Blank ws) {b : UInt8} (hb : isspace b = false)
    (s : List UInt8) : lskip (ws ++ b :: s) = b :: s := by
  apply dropWhile_append (isspace_of_blank hws)
  intro c hc
  rw [List.head?_cons, Option.mem_some] at hc
  rw [← hc, hb]

def after (s : Scan) (l : Line) : Scan :=
  let p := l.place (s.sectionName, s.prevName)
  ⟨s.lineno, p.1, p.2⟩

theorem lskip_indent {indent s : List UInt8} (h : Blank indent) {b : UInt8}
    (hb : isspace b = false) :
    lskip (indent ++ b :: s) = b :: s ∧
      ((b :: s).length < (indent ++ b :: s).length ↔ indent ≠ []) := by
  refine ⟨lskip_append h hb s, ?_⟩
  rw [List.length_append, ← List.length_pos_iff]
  omega

theorem readStart_flush {s : Scan} {indented : Bool} (hindent : indented = true → s.prevName = [])
    {b : UInt8} (hsemi : b ≠ semicolon) (hhash : b ≠ hash) (t : List UInt8) :
    readStart s indented (b :: t) =
      if b = leftBracket then readSection s t else readPair s (b :: t) := by
  have hmore : ¬(s.prevName ≠ [] ∧ b :: t ≠ [] ∧ indented = true) := fun h => h.1 (hindent h.2.2)
  rw [readStart, if_neg (by simp [hsemi, hhash]), if_neg hmore]
  simp

theorem indented_of_placed {marked : Bool} {prevName indent s t : List UInt8}
    (hmarked : marked = true → prevName = []) (hplaced : indent = [] ∨ prevName = [])
    (hflag : s.length < t.length ↔ indent ≠ []) :
    (marked || decide (s.length < t.length)) = true → prevName = [] := by
  intro h
  rcases Bool.or_eq_true_iff.mp h with h | h
  · exact hmarked h
  · exact hplaced.resolve_left (hflag.mp (of_decide_eq_true h))

/-- A line is read as what was written. -/
theorem readStart_text {l : Line} (hl : l.Written) {s : Scan}
    (hplaced : l.Placed (s.sectionName, s.prevName)) (marked : Bool)
    (hmarked : marked = true → s.prevName = []) :
    readStart s (marked || (lskip (rstrip l.text)).length < (rstrip l.text).length)
        (lskip (rstrip l.text)) = (after s l, l.outcome (s.sectionName, s.prevName)) := by
  cases l with
  | blank ws =>
    have hnil : rstrip ws = [] := List.rdropWhile_eq_nil_iff.mpr (isspace_of_blank hl)
    rw [Line.text, hnil]
    simp [lskip, readStart, after, Line.place, Line.outcome]
  | comment ws mark body =>
    obtain ⟨hws, hmark, -⟩ := hl
    have hspace : isspace mark = false := by
      rcases hmark with rfl | rfl <;> decide
    rw [Line.text, rstrip_append_closed hspace, lskip_append hws hspace, readStart,
      if_pos (by simpa using hmark)]
    rfl
  | heading indent name rest =>
    obtain ⟨hindent, -, hclose, hname, hlength, -⟩ := hl
    have hstrip : rstrip (indent ++ leftBracket :: (name ++ rightBracket :: rest)) =
        indent ++ leftBracket :: (name ++ rightBracket :: rstrip rest) := by
      have h := rstrip_append_closed (s := indent ++ leftBracket :: name)
        (b := rightBracket) (by decide) rest
      simpa using h
    obtain ⟨hskip, hflag⟩ := lskip_indent hindent (s := name ++ rightBracket :: rstrip rest)
      (b := leftBracket) (by decide)
    rw [Line.text, hstrip, hskip, readStart_flush (indented_of_placed hmarked hplaced hflag)
      (by decide) (by decide), if_pos rfl, readSection_heading hclose hname hlength]
    rfl
  | setting indent name ws sep ws' value rest =>
    obtain ⟨hindent, hname, hws, hsep, hws', hvalue, hrest⟩ := hl
    have hspace : isspace sep = false := by
      rcases hsep.2 with rfl | ⟨rfl, -⟩ <;> decide
    obtain ⟨ws'', rest', hws'', hrest', hright⟩ := rstrip_right hws' hvalue hrest
    have hstrip : rstrip (indent ++ (name ++ ws ++ sep :: (ws' ++ value ++ rest))) =
        indent ++ (name ++ ws ++ sep :: (ws'' ++ value ++ rest')) := by
      rw [← List.append_assoc, rstrip_append_closed hspace, hright, List.append_assoc]
    have hpair := readPair_setting hname hws hsep hws'' hvalue hrest' s
    rw [Line.text, hstrip]
    cases name with
    | nil => exact absurd rfl hname.nonempty
    | cons b name =>
      obtain ⟨hsemi, hhash, hbracket⟩ := hname.first b rfl
      rw [List.cons_append, List.cons_append] at hpair ⊢
      obtain ⟨hskip, hflag⟩ := lskip_indent hindent
        (s := name ++ ws ++ sep :: (ws'' ++ value ++ rest')) (hname.trimmed.flush b rfl)
      rw [hskip, readStart_flush (indented_of_placed hmarked hplaced hflag) hsemi hhash,
        if_neg hbracket]
      exact hpair
  | more ws value ws' =>
    obtain ⟨hws, hne, -, hv, htrim, hfirst, hws'⟩ := hl
    have hclosed : Closed isspace (ws ++ value) := by
      intro b hb
      rw [List.getLast?_append_of_ne_nil _ hv] at hb
      exact htrim.closed b hb
    have hstrip : rstrip (ws ++ value ++ ws') = ws ++ value := by
      rw [rstrip, rdropWhile_append _ (isspace_of_blank hws'), hclosed.rdropWhile]
    have hskip : lskip (ws ++ value) = value :=
      dropWhile_append (isspace_of_blank hws) htrim.flush
    have hlength : value.length < (ws ++ value).length := by
      rw [List.length_append]
      exact Nat.lt_add_of_pos_left (List.length_pos_of_ne_nil hne)
    have hmark : ¬(value.head? = some semicolon ∨ value.head? = some hash) := by
      rintro (h | h)
      · exact (hfirst _ h).1 rfl
      · exact (hfirst _ h).2 rfl
    rw [Line.text, hstrip, hskip, readStart, if_neg hmark, decide_eq_true hlength,
      if_pos ⟨hplaced, hv, Bool.or_true marked⟩]
    rfl

theorem body_text {l : Line} (hl : l.Written) : Body l.text := by
  cases l with
  | blank ws => exact Blank.body hl
  | comment ws mark body =>
    obtain ⟨hws, rfl | rfl, hbody⟩ := hl
    · exact hws.body.append (hbody.cons (by decide) (by decide))
    · exact hws.body.append (hbody.cons (by decide) (by decide))
  | heading indent name rest =>
    obtain ⟨hindent, hname, -, -, -, hrest⟩ := hl
    have hclosed := hname.append (hrest.cons (b := rightBracket) (by decide) (by decide))
    exact hindent.body.append (hclosed.cons (by decide) (by decide))
  | setting indent name ws sep ws' value rest =>
    obtain ⟨hindent, hname, hws, ⟨-, hsep⟩, hws', hvalue, hrest⟩ := hl
    have htail : Body rest := by
      cases hrest with
      | blank h => exact h.body
      | comment h _ _ hbody => exact h.body.append (hbody.cons (by decide) (by decide))
    have hright := (hws'.body.append hvalue.body).append htail
    rcases hsep with rfl | ⟨rfl, -⟩
    · exact hindent.body.append
        ((hname.body.append hws.body).append (hright.cons (by decide) (by decide)))
    · exact hindent.body.append
        ((hname.body.append hws.body).append (hright.cons (by decide) (by decide)))
  | more ws value ws' =>
    obtain ⟨hws, -, hvalue, -, -, -, hws'⟩ := hl
    exact (hws.body.append hvalue).append hws'.body

theorem rstrip_cString {t : List UInt8} (h : Body t) :
    rstrip (cString (t ++ [newline])) = rstrip t := by
  have hall : ∀ b ∈ t ++ [newline], (decide (b ≠ 0)) = true := by
    intro b hb
    rw [List.mem_append, List.mem_singleton] at hb
    rcases hb with hb | rfl
    · exact decide_eq_true fun h0 => h.nul (h0 ▸ hb)
    · decide
  have hend : ∀ b ∈ [newline], isspace b = true := List.forall_mem_singleton.mpr (by decide)
  have hstring : cString (t ++ [newline]) = t ++ [newline] :=
    List.takeWhile_eq_self_iff.mpr hall
  rw [hstring]
  exact rdropWhile_append t hend

theorem readLine_text {l : Line} (hl : l.Written) {s : Scan}
    (hplaced : l.Placed (s.sectionName, s.prevName))
    (hfirst : ¬(s.lineno + 1 = 1 ∧ (l.text ++ [newline]).take 3 = bom)) :
    readLine s (l.text ++ [newline]) =
      (after { s with lineno := s.lineno + 1 } l, l.outcome (s.sectionName, s.prevName)) := by
  have h := readStart_text hl (s := { s with lineno := s.lineno + 1 }) hplaced
    false (by intro h; cases h)
  unfold readLine
  simp only [decide_eq_false hfirst, Bool.false_eq_true, if_false, rstrip_cString (body_text hl)]
  exact h

theorem readLine_bom {l : Line} (hl : l.Written) (hplaced : l.Placed ([], [])) :
    readLine ⟨0, [], []⟩ (bom ++ l.text ++ [newline]) =
      (after ⟨1, [], []⟩ l, l.outcome ([], [])) := by
  have h := readStart_text hl (s := ⟨1, [], []⟩) hplaced true (fun _ => rfl)
  have hthree : bom.length = 3 := rfl
  have hmark : (bom ++ l.text ++ [newline]).take 3 = bom := by
    rw [List.append_assoc, List.take_left' hthree]
  have htext : (bom ++ l.text ++ [newline]).drop 3 = l.text ++ [newline] := by
    rw [List.append_assoc, List.drop_left' hthree]
  unfold readLine
  simp only [hmark, htext, and_self, decide_true, if_true, rstrip_cString (body_text hl)]
  exact h

def Ordered : List UInt8 × List UInt8 → List Line → Prop
  | _, [] => True
  | p, l :: ls => l.Placed p ∧ Ordered (l.place p) ls

structure Setting where
  sectionName : List UInt8
  name : List UInt8
  value : List UInt8
  deriving DecidableEq

def settings : List UInt8 × List UInt8 → List Line → List Setting
  | _, [] => []
  | p, l :: ls =>
      match l with
      | .setting _ name _ _ _ value _ => ⟨p.1, name, value⟩ :: settings (l.place p) ls
      | .more _ value _ => ⟨p.1, p.2, value⟩ :: settings (l.place p) ls
      | .blank _ | .comment _ _ _ | .heading _ _ _ => settings (l.place p) ls

/-- A file that can be read back: with the mark of its encoding or without, every line short enough
for the array. -/
structure Document (mark : Bool) (ls : List Line) : Prop where
  written : ∀ l ∈ ls, l.Written
  ordered : Ordered ([], []) ls
  room : ∀ l ∈ ls, l.text.length + 1 < iniMaxLine
  first : ∀ l ∈ ls.head?, if mark then l.text.length + 4 < iniMaxLine else ¬bom <+: l.text

def body (ls : List Line) : List UInt8 := ls.flatMap fun l => l.text ++ [newline]

def text (mark : Bool) (ls : List Line) : List UInt8 :=
  if mark ∧ ls ≠ [] then bom ++ body ls else body ls

/-- What a handler makes of the settings one after another. -/
def tellAll {σ : Type} (handler : Handler σ) (user : σ) (cs : List Setting) : σ :=
  cs.foldl (fun u c => (handler u c.sectionName c.name c.value).1) user

def Content {σ : Type} (handler : Handler σ) (user : σ) (cs : List Setting) : Prop :=
  ∀ before c after, cs = before ++ c :: after →
    (handler (tellAll handler user before) c.sectionName c.name c.value).2 = true

theorem takeLine_text {room : ℕ} {t : List UInt8} (hn : newline ∉ t) (hroom : t.length < room)
    (rest : List UInt8) : takeLine room (t ++ newline :: rest) = (t ++ [newline], rest) := by
  induction t generalizing room with
  | nil =>
    cases room with
    | zero => exact absurd hroom (Nat.not_lt_zero _)
    | succ room => simp [takeLine]
  | cons b t ih =>
    rw [List.mem_cons, not_or] at hn
    cases room with
    | zero => exact absurd hroom (Nat.not_lt_zero _)
    | succ room =>
      rw [List.length_cons, Nat.succ_lt_succ_iff] at hroom
      rw [List.cons_append, takeLine, if_neg (Ne.symm hn.1), ih hn.2 hroom]
      rfl

theorem fileLines_text {t : List UInt8} (hn : newline ∉ t) (hroom : t.length + 1 < iniMaxLine)
    (rest : List UInt8) :
    fileLines (t ++ newline :: rest) = (t ++ [newline]) :: fileLines rest := by
  apply fileLines_cons
  rw [fgets, if_neg (by simp), takeLine_text hn (Nat.lt_sub_of_add_lt hroom)]

theorem fileLines_body {ls : List Line} (hw : ∀ l ∈ ls, l.Written)
    (hroom : ∀ l ∈ ls, l.text.length + 1 < iniMaxLine) :
    fileLines (body ls) = ls.map fun l => l.text ++ [newline] := by
  induction ls with
  | nil => rfl
  | cons l ls ih =>
    obtain ⟨hl, hw⟩ := List.forall_mem_cons.mp hw
    obtain ⟨hlength, hroom⟩ := List.forall_mem_cons.mp hroom
    rw [body, List.flatMap_cons, List.append_assoc, List.singleton_append,
      fileLines_text (body_text hl).newline hlength, List.map_cons, ← ih hw hroom]
    rfl

/-- What the lines of a document come to, from the place where they stand. -/
def spoken (s : Scan) : List Line → List (Scan × Outcome)
  | [] => []
  | l :: ls =>
      let s' := after { s with lineno := s.lineno + 1 } l
      (s', l.outcome (s.sectionName, s.prevName)) :: spoken s' ls

theorem outcomes_body {ls : List Line} (hw : ∀ l ∈ ls, l.Written) {s : Scan}
    (ho : Ordered (s.sectionName, s.prevName) ls) (hline : s.lineno ≠ 0) :
    outcomes s (ls.map fun l => l.text ++ [newline]) = spoken s ls := by
  induction ls generalizing s with
  | nil => rfl
  | cons l ls ih =>
    obtain ⟨hl, hw⟩ := List.forall_mem_cons.mp hw
    have hread := readLine_text hl ho.1 (fun h => hline (Nat.succ.inj h.1))
    rw [List.map_cons, outcomes, hread, spoken,
      ih hw (s := after { s with lineno := s.lineno + 1 } l) ho.2 (Nat.succ_ne_zero _)]

theorem fileOutcomes_text {mark : Bool} {ls : List Line} (h : Document mark ls) :
    fileOutcomes (text mark ls) = spoken ⟨0, [], []⟩ ls := by
  cases ls with
  | nil => cases mark <;> rfl
  | cons l ls =>
    obtain ⟨hl, hw⟩ := List.forall_mem_cons.mp h.written
    obtain ⟨hlength, hroom⟩ := List.forall_mem_cons.mp h.room
    obtain ⟨hplaced, hordered⟩ := h.ordered
    have hfirst := h.first l rfl
    have hrest := outcomes_body hw (s := after ⟨1, [], []⟩ l) hordered Nat.one_ne_zero
    have htail := fileLines_body hw hroom
    cases mark with
    | true =>
      have hbom : newline ∉ bom := by decide
      have hnew : newline ∉ bom ++ l.text := by
        rw [List.mem_append, not_or]
        exact ⟨hbom, (body_text hl).newline⟩
      have htext : text true (l :: ls) = (bom ++ l.text) ++ newline :: body ls := by
        simp [text, body]
      have hthree : bom.length = 3 := rfl
      have hshort : (bom ++ l.text).length + 1 < iniMaxLine := by
        rw [if_pos rfl] at hfirst
        rw [List.length_append]
        omega
      have hlines := fileLines_text hnew hshort (body ls)
      rw [fileOutcomes, htext, hlines, htail, outcomes, readLine_bom hl hplaced, hrest]
      rfl
    | false =>
      have hunmarked : ¬(0 + 1 = 1 ∧ (l.text ++ [newline]).take 3 = bom) := by
        rintro ⟨-, hbom⟩
        have hpre := List.take_prefix 3 (l.text ++ [newline])
        rw [hbom, List.prefix_concat_iff] at hpre
        rcases hpre with hpre | hpre
        · have hmem : newline ∈ bom := by rw [hpre]; simp
          exact absurd hmem (by decide)
        · exact hfirst hpre
      have htext : text false (l :: ls) = l.text ++ newline :: body ls := by
        simp [text, body]
      rw [fileOutcomes, htext, fileLines_text (body_text hl).newline hlength, htail, outcomes,
        readLine_text hl hplaced hunmarked, hrest]
      rfl

def calls (rs : List (Scan × Outcome)) : List Setting :=
  rs.filterMap fun r =>
    match r.2 with
    | .handler name value => some ⟨r.1.sectionName, name, value⟩
    | .silent | .malformed => none

theorem foldl_tell {σ : Type} (handler : Handler σ) (user : σ) (rs : List (Scan × Outcome)) :
    rs.foldl (tell handler) user = tellAll handler user (calls rs) := by
  induction rs generalizing user with
  | nil => rfl
  | cons r rs ih =>
    obtain ⟨s, outcome⟩ := r
    rw [List.foldl_cons, ih]
    cases outcome <;> rfl

/-- The settings in a file, whatever else is in it. -/
theorem user_iniParseFile {σ : Type} (handler : Handler σ) (user : σ) (file : List UInt8) :
    (iniParseFile handler user file).1 = tellAll handler user (calls (fileOutcomes file)) :=
  (reports_iniParseFile handler user file).told.trans (foldl_tell handler user _)

theorem calls_spoken (s : Scan) (ls : List Line) :
    calls (spoken s ls) = settings (s.sectionName, s.prevName) ls := by
  induction ls generalizing s with
  | nil => rfl
  | cons l ls ih =>
    have hrest := ih (after { s with lineno := s.lineno + 1 } l)
    cases l with
    | blank ws => exact hrest
    | comment ws mark body => exact hrest
    | heading indent name rest => exact hrest
    | setting indent name ws sep ws' value rest => exact congrArg _ hrest
    | more ws value ws' => exact congrArg _ hrest

theorem calls_text {mark : Bool} {ls : List Line} (h : Document mark ls) :
    calls (fileOutcomes (text mark ls)) = settings ([], []) ls := by
  rw [fileOutcomes_text h]
  exact calls_spoken _ ls

theorem content_cons {σ : Type} {handler : Handler σ} {user : σ} {c : Setting}
    {cs : List Setting} : Content handler user (c :: cs) ↔
      (handler user c.sectionName c.name c.value).2 = true ∧
        Content handler (handler user c.sectionName c.name c.value).1 cs :=
  forall_cut_cons

/-- No line of a document is malformed, and a setting is at fault when the handler says so. -/
theorem clean_spoken {σ : Type} (handler : Handler σ) (user : σ) (s : Scan) (ls : List Line) :
    Clean handler user (spoken s ls) ↔
      Content handler user (settings (s.sectionName, s.prevName) ls) := by
  induction ls generalizing user s with
  | nil =>
    refine ⟨fun _ before c after h => ?_, fun _ => clean_nil handler user⟩
    simp [settings] at h
  | cons l ls ih =>
    rw [spoken, clean_cons, ih]
    cases l with
    | blank ws => exact and_iff_right id
    | comment ws mark body => exact and_iff_right id
    | heading indent name rest => exact and_iff_right id
    | setting indent name ws sep ws' value rest =>
      rw [settings, content_cons, ← Bool.not_eq_false]
      rfl
    | more ws value ws' =>
      rw [settings, content_cons, ← Bool.not_eq_false]
      rfl

/-- Whatever its layout, a document is read back: the handler is told its settings, and the error
is 0 just when it is content with them all. -/
theorem iniParseFile_text {σ : Type} (handler : Handler σ) (user : σ) (mark : Bool)
    (ls : List Line) (h : Document mark ls) :
    (iniParseFile handler user (text mark ls)).1 =
        tellAll handler user (settings ([], []) ls) ∧
      ((iniParseFile handler user (text mark ls)).2 = 0 ↔
        Content handler user (settings ([], []) ls)) := by
  have herror := (reports_iniParseFile handler user (text mark ls)).error
  refine ⟨by rw [user_iniParseFile, calls_text h], ?_⟩
  rw [fileOutcomes_text h] at herror
  rw [← clean_spoken handler user ⟨0, [], []⟩ ls]
  rcases herror with ⟨hzero, hclean⟩ | ⟨before, r, after, heq, -, hfaulty, hline⟩
  · exact iff_of_true hzero hclean
  · have hdirty : ¬Clean handler user (spoken ⟨0, [], []⟩ ls) := fun hclean =>
      hclean before r after heq hfaulty
    exact iff_of_false (by omega) hdirty

theorem noComment_of_not_mem {s : List UInt8} (h : semicolon ∉ s) : NoComment s :=
  fun _ _ hin => h (hin.subset (by simp))

def space : UInt8 := 0x20

theorem blank_space : Blank [space] := by
  intro b hb
  rw [List.mem_singleton.mp hb]
  decide

def assign (name value : List UInt8) : Line := .setting [] name [space] equals [space] value []

theorem written_assign {name value : List UInt8}
    (hname : 0 ∉ name ∧ newline ∉ name ∧ semicolon ∉ name ∧ equals ∉ name)
    (hne : name ≠ []) (htrim : Trimmed isspace name) (hfirst : name.head? ≠ some semicolon ∧
      name.head? ≠ some hash ∧ name.head? ≠ some leftBracket)
    (hlength : name.length < maxName) (hvalue : 0 ∉ value ∧ newline ∉ value ∧ semicolon ∉ value)
    (htrim' : Trimmed isspace value) : (assign name value).Written := by
  obtain ⟨h0, hn, hs, he⟩ := hname
  have hother : ∀ b ∈ name.head?, b ≠ semicolon ∧ b ≠ hash ∧ b ≠ leftBracket := by
    intro b hb
    rw [Option.mem_def.mp hb] at hfirst
    simpa using hfirst
  have hnil : Blank [] := List.forall_mem_nil _
  exact ⟨hnil, ⟨⟨h0, hn⟩, hne, htrim, noComment_of_not_mem hs, hother, hlength⟩, blank_space,
    ⟨he, .inl rfl⟩, blank_space, ⟨⟨hvalue.1, hvalue.2.1⟩, htrim', noComment_of_not_mem hvalue.2.2⟩,
    .blank hnil⟩

/-- `[a]`, `b = c`, ` d`. -/
def threeLines : List Line :=
  [.heading [] [0x61] [], assign [0x62] [0x63], .more [space] [0x64] []]

theorem document_threeLines : Document false threeLines := by
  have hb : (assign [0x62] [0x63]).Written :=
    written_assign (by decide) (by decide) (by decide) (by decide) (by decide) (by decide)
      (by decide)
  have hempty : Body [] := ⟨List.not_mem_nil, List.not_mem_nil⟩
  have ha : (Line.heading [] [0x61] []).Written :=
    ⟨List.forall_mem_nil _, ⟨by decide, by decide⟩, by decide, noComment_of_not_mem (by decide),
      by decide, hempty⟩
  have hd : (Line.more [space] [0x64] []).Written :=
    ⟨blank_space, by decide, ⟨by decide, by decide⟩, by decide, by decide,
      fun b hb => by cases hb; decide, List.forall_mem_nil _⟩
  refine ⟨?_, ⟨.inl rfl, .inl rfl, List.cons_ne_nil _ _, trivial⟩, by decide, by decide⟩
  intro l hl
  rcases List.mem_cons.mp hl with rfl | hl
  · exact ha
  · rcases List.mem_cons.mp hl with rfl | hl
    · exact hb
    · rw [List.mem_singleton.mp hl]
      exact hd

theorem iniParseFile_threeLines :
    (iniParseFile (fun cs a b c => (cs ++ [Setting.mk a b c], true)) []
      (text false threeLines)).1 = [⟨[0x61], [0x62], [0x63]⟩, ⟨[0x61], [0x62], [0x64]⟩] :=
  (iniParseFile_text _ [] false threeLines document_threeLines).1

end RpiCc2520.IniDocument
