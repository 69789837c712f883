import RpiCc2520.DecimalText
import RpiCc2520.IniDocument
import RpiCc2520.JsonText

/-! The tunnel client's configuration: the server it connects to, from its file. -/
namespace RpiCc2520.ClientConfig
open DecimalText IniDocument IniParse JsonText

structure ConfigIni where
  remotehost : Option (List UInt8)
  remoteport : UInt16

def minus : UInt8 := 0x2D
def plus : UInt8 := 0x2B

/-- `atoi`, which keeps to a `long` of 32 bits. -/
def atoi (s : List UInt8) : ℤ :=
  match lskip s with
  | [] => 0
  | c :: s =>
      if c = minus then max (-(leading s : ℤ)) (-2147483648)
      else if c = plus then min (leading s : ℤ) 2147483647
      else min (leading (c :: s) : ℤ) 2147483647

def client : List UInt8 := utf8 "client"
def remotehost : List UInt8 := utf8 "remotehost"
def remoteport : List UInt8 := utf8 "remoteport"

def configHandler : Handler ConfigIni := fun cfg sectionName name value =>
  if sectionName = client ∧ name = remotehost then ({ cfg with remotehost := some value }, true)
  else if sectionName = client ∧ name = remoteport then
    ({ cfg with remoteport := .ofInt (atoi value) }, true)
  else (cfg, true)

/-- What `main` does with its file: it exits, or `connect_tcp` looks up a host and a port. -/
inductive Start
  | exit
  | connect (host portStr : List UInt8)
  deriving DecidableEq

def portStr (port : UInt16) : List UInt8 := (decimal port.toNat).take 5

def start (file : Option (List UInt8)) : Start :=
  let (cfg, ret) := iniParse configHandler ⟨none, 0⟩ file
  if ret < 0 then .exit
  else
    match cfg.remotehost with
    | none => .exit
    | some host => if cfg.remoteport = 0 then .exit else .connect host (portStr cfg.remoteport)

def lastValue (sectionName name : List UInt8) (cs : List Setting) : Option (List UInt8) :=
  (cs.filter fun c => c.sectionName = sectionName ∧ c.name = name).getLast?.map Setting.value

theorem lastValue_append (sectionName name : List UInt8) (cs : List Setting) (c : Setting) :
    lastValue sectionName name (cs ++ [c]) =
      if c.sectionName = sectionName ∧ c.name = name then some c.value
      else lastValue sectionName name cs := by
  rw [lastValue, List.filter_append]
  split_ifs with h
  · simp [h]
  · simp [h, lastValue]

theorem remotehost_ne_remoteport : remotehost ≠ remoteport := by decide

theorem tellAll_configHandler (cs : List Setting) :
    tellAll configHandler ⟨none, 0⟩ cs = ⟨lastValue client remotehost cs,
      ((lastValue client remoteport cs).map fun v => .ofInt (atoi v)).getD 0⟩ := by
  induction cs using List.reverseRecOn with
  | nil => rfl
  | append_singleton cs c ih =>
    have hstep : tellAll configHandler ⟨none, 0⟩ (cs ++ [c]) =
        (configHandler (tellAll configHandler ⟨none, 0⟩ cs) c.sectionName c.name c.value).1 :=
      List.foldl_append
    rw [hstep, ih, lastValue_append, lastValue_append]
    unfold configHandler
    by_cases hhost : c.sectionName = client ∧ c.name = remotehost
    · have hport : ¬(c.sectionName = client ∧ c.name = remoteport) := fun h =>
        remotehost_ne_remoteport (hhost.2.symm.trans h.2)
      rw [if_pos hhost, if_pos hhost, if_neg hport]
    · rw [if_neg hhost, if_neg hhost]
      split_ifs <;> rfl

theorem isspace_of_isDigit {c : UInt8} (h : isDigit c = true) : isspace c = false := by
  rw [isDigit, Bool.and_eq_true, decide_eq_true_eq, decide_eq_true_eq] at h
  cases hspace : isspace c with
  | false => rfl
  | true =>
    rw [isspace, Bool.or_eq_true, beq_iff_eq, Bool.and_eq_true, decide_eq_true_eq,
      decide_eq_true_eq] at hspace
    rcases hspace with rfl | ⟨-, hhigh⟩
    · exact absurd h.1 (by decide)
    · exact absurd (UInt8.le_trans h.1 hhigh) (by decide)

theorem atoi_decimal {n : ℕ} (h : n < 65536) : atoi (decimal n) = n := by
  have hread := leading_decimal n [] (by simp)
  rw [List.append_nil] at hread
  cases hs : decimal n with
  | nil => exact absurd hs (decimal_ne_nil n)
  | cons c s =>
    have hdigit : isDigit c = true := isDigit_of_mem_decimal (hs ▸ List.mem_cons_self)
    have hspace := isspace_of_isDigit hdigit
    have hskip : lskip (c :: s) = c :: s := List.dropWhile_cons_of_neg (by simp [hspace])
    have hminus : c ≠ minus := by
      rintro rfl
      cases hdigit
    have hplus : c ≠ plus := by
      rintro rfl
      cases hdigit
    rw [hs] at hread
    rw [atoi, hskip]
    simp only [if_neg hminus, if_neg hplus, hread]
    omega

/-- Errors in a file are no reason to exit, a host or a port that is missing is one. -/
theorem start_some (file : List UInt8) :
    let cs := calls (fileOutcomes file)
    let port := ((lastValue client remoteport cs).map fun v => UInt16.ofInt (atoi v)).getD 0
    start (some file) =
      match lastValue client remotehost cs with
      | none => .exit
      | some host => if port = 0 then .exit else .connect host (portStr port) := by
  have hret : ¬((iniParse configHandler ⟨none, 0⟩ (some file)).2 < 0) :=
    not_lt.mpr (Int.natCast_nonneg _)
  have hcfg : (iniParse configHandler ⟨none, 0⟩ (some file)).1 = _ :=
    (user_iniParseFile configHandler _ file).trans (tellAll_configHandler _)
  unfold start
  dsimp only
  rw [if_neg hret, hcfg]

/-- Of a file in any layout the client takes the host and the port that are set last, and connects
there. -/
theorem start_text (mark : Bool) (ls : List Line) (h : Document mark ls) (host : List UInt8)
    (hhost : lastValue client remotehost (settings ([], []) ls) = some host) (port : ℕ)
    (hport : lastValue client remoteport (settings ([], []) ls) = some (decimal port))
    (hpos : 0 < port) (hlt : port < 65536) :
    start (some (text mark ls)) = .connect host (decimal port) := by
  have hmod : ((port : ℤ) % 2 ^ 16).toNat = port := by omega
  have hnat : (UInt16.ofInt (atoi (decimal port))).toNat = port := by
    rw [atoi_decimal hlt, UInt16.ofInt, hmod]
    exact UInt16.toNat_ofNat_of_lt hlt
  have hne : UInt16.ofInt (atoi (decimal port)) ≠ 0 := by
    intro h0
    rw [h0] at hnat
    exact absurd hnat hpos.ne
  have hfit : (decimal port).take 5 = decimal port :=
    List.take_of_length_le (length_decimal_le (by decide) (by omega))
  rw [start_some, calls_text h, hhost, hport]
  dsimp only [Option.map_some, Option.getD_some]
  rw [if_neg hne, portStr, hnat, hfit]

/-- The client's part of the template that the repository comes with. -/
def configTemplate : List Line :=
  [.heading [] client [], assign remotehost (utf8 "127.0.0.1"), assign remoteport (decimal 10000)]

theorem decimal_tenThousand : decimal 10000 = utf8 "10000" := by
  norm_num [decimal]
  decide

theorem document_configTemplate : Document false configTemplate := by
  have hempty : Body [] := ⟨List.not_mem_nil, List.not_mem_nil⟩
  have hclient : (Line.heading [] client []).Written :=
    ⟨List.forall_mem_nil _, ⟨by decide, by decide⟩, by decide, noComment_of_not_mem (by decide),
      by decide, hempty⟩
  have hhost : (assign remotehost (utf8 "127.0.0.1")).Written :=
    written_assign (by decide) (by decide) (by decide) (by decide) (by decide) (by decide)
      (by decide)
  have hport : (assign remoteport (decimal 10000)).Written := by
    rw [decimal_tenThousand]
    exact written_assign (by decide) (by decide) (by decide) (by decide) (by decide) (by decide)
      (by decide)
  have htext : configTemplate = [.heading [] client [], assign remotehost (utf8 "127.0.0.1"),
      assign remoteport (utf8 "10000")] := by
    rw [configTemplate, decimal_tenThousand]
  refine ⟨?_, ⟨.inl rfl, .inl rfl, .inl rfl, trivial⟩, ?_, ?_⟩
  · intro l hl
    rcases List.mem_cons.mp hl with rfl | hl
    · exact hclient
    · rcases List.mem_cons.mp hl with rfl | hl
      · exact hhost
      · rw [List.mem_singleton.mp hl]
        exact hport
  · rw [htext]
    decide
  · rw [htext]
    decide

theorem start_configTemplate : start (some (text false configTemplate)) =
    .connect (utf8 "127.0.0.1") (decimal 10000) :=
  start_text false configTemplate document_configTemplate _ rfl 10000 rfl (by decide) (by decide)

end RpiCc2520.ClientConfig
