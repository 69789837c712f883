import RpiCc2520.EventMachine
import RpiCc2520.IniDocument
import RpiCc2520.JsonText

/-! The border router's configuration: its prefix, from a file that is read when it is first asked
for. -/
namespace RpiCc2520.BorderConfig
open IniDocument IniParse JsonText

abbrev In6Addr := Vector UInt8 16

structure BRConfig where
  inited : Bool
  brc : In6Addr

def network : List UInt8 := utf8 "network"
def prefixKey : List UInt8 := utf8 "prefix"

-- what a text makes of the address it is written over
variable (inetPton6 : List UInt8 → In6Addr → In6Addr)

def handler : Handler In6Addr := fun brc sectionName name value =>
  if sectionName = network ∧ name = prefixKey then (inetPton6 value brc, true) else (brc, false)

/-- Without its file the process ends. -/
def init (file : Option (List UInt8)) (s : BRConfig) : Option BRConfig :=
  if s.inited then some s
  else
    let (brc, result) := iniParse (handler inetPton6) s.brc file
    if result < 0 then none else some ⟨true, brc⟩

def getPrefix (file : Option (List UInt8)) (s : BRConfig) : Option (In6Addr × BRConfig) :=
  (init inetPton6 file s).map fun s => (s.brc, s)

def getPrefixPtr (file : Option (List UInt8)) (s : BRConfig) : Option (In6Addr × BRConfig) :=
  (init inetPton6 file s).map fun s => (s.brc, s)

/-- A call, with the file as it is then. -/
inductive Event
  | getPrefix (file : Option (List UInt8))
  | getPrefixPtr (file : Option (List UInt8))

def Event.file : Event → Option (List UInt8)
  | .getPrefix file => file
  | .getPrefixPtr file => file

structure Border where
  config : BRConfig
  answers : List In6Addr

def boot : Border := ⟨⟨false, .replicate 16 0⟩, []⟩

def note (s : Border) (r : Option (In6Addr × BRConfig)) : Option Border :=
  r.map fun (answer, config) => ⟨config, s.answers ++ [answer]⟩

def step (s : Border) : Event → Option Border
  | .getPrefix file => note s (getPrefix inetPton6 file s.config)
  | .getPrefixPtr file => note s (getPrefixPtr inetPton6 file s.config)

def machine : Machine Border Event := ⟨fun s => s = boot, step inetPton6⟩

/-- The values of `prefix` in section `network`, one written over the other. -/
def written (cs : List Setting) : In6Addr :=
  (cs.filter fun c => c.sectionName = network ∧ c.name = prefixKey).foldl
    (fun brc c => inetPton6 c.value brc) (.replicate 16 0)

variable {inetPton6}

theorem tellAll_handler (cs : List Setting) :
    tellAll (handler inetPton6) (.replicate 16 0) cs = written inetPton6 cs := by
  induction cs using List.reverseRecOn with
  | nil => rfl
  | append_singleton cs c ih =>
    have hstep : tellAll (handler inetPton6) (.replicate 16 0) (cs ++ [c]) =
        (handler inetPton6 (tellAll (handler inetPton6) (.replicate 16 0) cs)
          c.sectionName c.name c.value).1 := List.foldl_append
    rw [hstep, ih, handler, written, written, List.filter_append, List.foldl_append]
    by_cases hc : c.sectionName = network ∧ c.name = prefixKey
    · simp [hc]
    · rw [if_neg hc, List.filter_singleton]
      simp [hc]

theorem step_eq (s : Border) (e : Event) : (machine inetPton6).step s e =
    (init inetPton6 e.file s.config).map fun config => ⟨config, s.answers ++ [config.brc]⟩ := by
  cases e with
  | getPrefix file => exact Option.map_map _ _ _
  | getPrefixPtr file => exact Option.map_map _ _ _

theorem init_boot (file : List UInt8) : init inetPton6 (some file) boot.config =
    some ⟨true, written inetPton6 (calls (fileOutcomes file))⟩ := by
  have hret : ¬((iniParse (handler inetPton6) boot.config.brc (some file)).2 < 0) :=
    not_lt.mpr (Int.natCast_nonneg _)
  have hbrc : (iniParse (handler inetPton6) boot.config.brc (some file)).1 = _ :=
    (user_iniParseFile (handler inetPton6) _ file).trans (tellAll_handler _)
  rw [← hbrc]
  unfold init
  simp only [boot, Bool.false_eq_true, if_false]
  exact if_neg hret

theorem run_inited (es : List Event) {s : Border} (h : s.config.inited = true) :
    (machine inetPton6).run s es =
      some { s with answers := s.answers ++ List.replicate es.length s.config.brc } := by
  induction es generalizing s with
  | nil => simp [Machine.run]
  | cons e es ih =>
    have hinit : init inetPton6 e.file s.config = some s.config := if_pos h
    have hstep : (machine inetPton6).step s e =
        some { s with answers := s.answers ++ [s.config.brc] } := by
      rw [step_eq, hinit]
      rfl
    have hrest := ih (s := { s with answers := s.answers ++ [s.config.brc] }) h
    rw [Machine.run_cons, hstep, Option.bind_some, hrest]
    simp [List.replicate_succ]

/-- Every answer is the prefix of the file as it was when it was first asked for, in whatever layout
it was written, and whatever becomes of the file. -/
theorem run_text (inetPton6 : List UInt8 → In6Addr → In6Addr) (mark : Bool) (ls : List Line)
    (h : Document mark ls) (e : Event) (he : e.file = some (text mark ls)) (es : List Event) :
    ∃ s, (machine inetPton6).run boot (e :: es) = some s ∧
      s.answers = List.replicate (es.length + 1)
        (written inetPton6 (settings ([], []) ls)) := by
  have hstep : (machine inetPton6).step boot e = some
      ⟨⟨true, written inetPton6 (settings ([], []) ls)⟩,
        [written inetPton6 (settings ([], []) ls)]⟩ := by
    rw [step_eq, he, init_boot, calls_text h]
    rfl
  refine ⟨⟨⟨true, written inetPton6 (settings ([], []) ls)⟩,
    [written inetPton6 (settings ([], []) ls)] ++
      List.replicate es.length (written inetPton6 (settings ([], []) ls))⟩, ?_, rfl⟩
  rw [Machine.run_cons, hstep, Option.bind_some, run_inited es rfl]

def comment (body : String) : Line := .comment [] hash (utf8 body)

/-- The file that the repository comes with. -/
def brconfig : List Line :=
  [comment " This file is used to configure the border router.",
    comment " Place this in the same folder as the BorderRouterC executable.", .blank [],
    .heading [] network [],
    .setting (utf8 "  ") prefixKey [space] equals [space] (utf8 "2001:470:1f11:131a::") []]

theorem written_comment {body : String} (h : 0 ∉ utf8 body ∧ newline ∉ utf8 body) :
    (comment body).Written := ⟨List.forall_mem_nil _, .inr rfl, h.1, h.2⟩

theorem document_brconfig : Document false brconfig := by
  have hindent : Blank (utf8 "  ") := by
    intro b hb
    have hspace : b = space := by
      rw [show utf8 "  " = [space, space] from rfl] at hb
      simpa using hb
    rw [hspace]
    decide
  have hempty : Body [] := ⟨List.not_mem_nil, List.not_mem_nil⟩
  have hheading : (Line.heading [] network []).Written :=
    ⟨List.forall_mem_nil _, ⟨by decide, by decide⟩, by decide, noComment_of_not_mem (by decide),
      by decide, hempty⟩
  have hflush : (assign prefixKey (utf8 "2001:470:1f11:131a::")).Written :=
    written_assign (by decide) (by decide) (by decide) (by decide) (by decide) (by decide)
      (by decide)
  refine ⟨?_, ⟨trivial, trivial, trivial, .inl rfl, .inr rfl, trivial⟩, by decide, by decide⟩
  intro l hl
  simp only [brconfig, List.mem_cons, List.not_mem_nil, or_false] at hl
  rcases hl with rfl | rfl | rfl | rfl | rfl
  · exact written_comment (by decide)
  · exact written_comment (by decide)
  · exact List.forall_mem_nil _
  · exact hheading
  · exact ⟨hindent, hflush.2⟩

/-- What `inet_pton6` makes of that prefix; any other text is left alone. -/
def pton (value : List UInt8) (brc : In6Addr) : In6Addr :=
  if value = utf8 "2001:470:1f11:131a::" then
    #v[0x20, 0x01, 0x04, 0x70, 0x1F, 0x11, 0x13, 0x1A, 0, 0, 0, 0, 0, 0, 0, 0]
  else brc

/-- The file is gone when it is asked for the second time. -/
theorem run_brconfig : ∃ s, (machine pton).run boot
    [.getPrefixPtr (some (text false brconfig)), .getPrefix none] = some s ∧
      s.answers = List.replicate 2
        #v[0x20, 0x01, 0x04, 0x70, 0x1F, 0x11, 0x13, 0x1A, 0, 0, 0, 0, 0, 0, 0, 0] :=
  run_text pton false brconfig document_brconfig (.getPrefixPtr _) rfl [.getPrefix none]

end RpiCc2520.BorderConfig
