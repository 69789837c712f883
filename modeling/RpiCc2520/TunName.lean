import RpiCc2520.CommandLine

/-! The name for the border router's TUN device, from the arguments of its process: the one behind
`-i`. -/
namespace RpiCc2520.TunName
open CommandLine TextWords

def rowText (arg : Arg) : List UInt8 := arg.toList.takeWhile (· ≠ 0)

def dashI : List UInt8 := [0x2D, 0x69]

/-- The loop of `getTunName` from argument `i` on: the string it returns. -/
def search (content : List UInt8) (file : File) (stack : ArgBuf) (argc : UInt8) :
    ℕ → UInt8 → CommandLineArgs → Option (List UInt8 × CommandLineArgs)
  | 0, _, _ => none
  | fuel + 1, i, s =>
      if i < argc then
        (getArg content file stack i s).bind fun (arg, s) =>
          arg.bind fun arg =>
            if (rowText arg).take 2 = dashI ∧ argc.toNat > i.toNat + 1 then
              (getArg content file stack (i + 1) s).bind fun (arg, s) =>
                arg.map fun arg => (rowText arg, s)
            else search content file stack argc fuel (i + 1) s
      else some ([], s)

/-- `TunName.getTunName`. The executable's own name is skipped. -/
def getTunName (content : List UInt8) (file : File) (stack : ArgBuf) (s : CommandLineArgs) :
    Option (List UInt8 × CommandLineArgs) :=
  (count content file stack s).bind fun (argc, s) => search content file stack argc 256 1 s

/-- The word behind the first that begins with `-i` and has one behind it. -/
def interfaceName : List (List UInt8) → List UInt8
  | [] => []
  | [_] => []
  | arg :: name :: args => if arg.take 2 = dashI then name else interfaceName (name :: args)

def arguments (content : List UInt8) : List (List UInt8) :=
  (words 0 content).map (List.take (maxArgLen - 1))

/-- The calls of the process's components, `getTunName` among them. -/
inductive Event
  | call (c : Call)
  | getTunName (file : File) (stack : ArgBuf)

/-- The variables of the arguments, and the names that were returned. -/
structure Names where
  args : CommandLineArgs
  returned : List (List UInt8)

def step (content : List UInt8) (s : Names) : Event → Option Names
  | .call c => (CommandLine.step content s.args c).map fun args => { s with args := args }
  | .getTunName file stack => (getTunName content file stack s.args).map fun (name, args) =>
      { s with args := args, returned := s.returned ++ [name] }

def machine (content : List UInt8) : Machine Names Event :=
  ⟨fun s => s.args.inited = false ∧ s.args.numArgs = 0 ∧ s.returned = [], step content⟩

/-- The name is that of the arguments as soon as their file can be read, and empty before. It never
changes again. -/
structure Named (content : List UInt8) (s : Names) : Prop where
  next : ∀ stack, ∃ args, getTunName content .readable stack s.args =
    some (interfaceName (arguments content).tail, args)
  returned : ∃ n m, s.returned =
    List.replicate n [] ++ List.replicate m (interfaceName (arguments content).tail)

variable {content : List UInt8}

theorem rowText_of_cString {arg : Arg} {text : List UInt8} (h : CString arg text) :
    rowText arg = text := by
  obtain ⟨rest, hrest⟩ := h.terminated
  rw [rowText, ← hrest, List.append_assoc, List.takeWhile_append_of_pos]
  · simp
  · intro b hb
    have hne : b ≠ 0 := fun h0 => h.noNul (h0 ▸ hb)
    simpa using hne

theorem getArg_row {s : CommandLineArgs} (hinit : s.inited = true) (h : Parsed content s)
    (hfew : (words 0 content).length ≤ maxArgs) (file : File) (stack : ArgBuf) {i : UInt8}
    {a : List UInt8} (ha : (arguments content)[i.toNat]? = some a) :
    ∃ arg, getArg content file stack i s = some (some arg, s) ∧ rowText arg = a := by
  rw [arguments, List.getElem?_map] at ha
  obtain ⟨w, hw, rfl⟩ := Option.map_eq_some_iff.mp ha
  obtain ⟨arg, harg, htext⟩ := h.rows hfew _ w hw
  have hlt : ¬i ≥ s.numArgs := by
    have hidx := (List.getElem?_eq_some_iff.mp hw).1
    rw [ge_iff_le, UInt8.le_iff_toNat_le, h.few hfew]
    omega
  refine ⟨arg, ?_, rowText_of_cString htext⟩
  simp only [getArg, init_of_inited hinit, Option.bind_some, if_neg hlt, harg, Option.map_some]

theorem length_arguments (content : List UInt8) :
    (arguments content).length = (words 0 content).length := List.length_map _

theorem toNat_succ {i n : UInt8} (h : i < n) : (i + 1).toNat = i.toNat + 1 := by
  have hlt := UInt8.lt_iff_toNat_lt.mp h
  have hn := n.toNat_lt
  rw [UInt8.toNat_add, UInt8.toNat_one]
  exact Nat.mod_eq_of_lt (by omega)

theorem search_eq {s : CommandLineArgs} (hinit : s.inited = true) (h : Parsed content s)
    (hfew : (words 0 content).length ≤ maxArgs) (file : File) (stack : ArgBuf) (fuel : ℕ)
    (i : UInt8) (hpos : 0 < fuel) (hfuel : s.numArgs.toNat < i.toNat + fuel) :
    search content file stack s.numArgs fuel i s =
      some (interfaceName ((arguments content).drop i.toNat), s) := by
  have hcount : s.numArgs.toNat = (arguments content).length :=
    (h.few hfew).trans (length_arguments content).symm
  induction fuel generalizing i with
  | zero => exact absurd hpos (lt_irrefl 0)
  | succ fuel ih =>
    rw [search]
    by_cases hi : i < s.numArgs
    · have hlt := UInt8.lt_iff_toNat_lt.mp hi
      have hsucc := toNat_succ hi
      rw [hcount] at hlt
      obtain ⟨arg, hget, htext⟩ :=
        getArg_row hinit h hfew file stack (List.getElem?_eq_getElem hlt)
      rw [if_pos hi, hget, List.drop_eq_getElem_cons hlt]
      simp only [Option.bind_some, htext]
      have hnext := ih (i + 1) (by omega) (by omega)
      rw [hsucc] at hnext
      by_cases hmore : i.toNat + 1 < (arguments content).length
      · rw [hnext, List.drop_eq_getElem_cons hmore, interfaceName]
        have hthere : s.numArgs.toNat > i.toNat + 1 := by omega
        by_cases hdash : (arguments content)[i.toNat].take 2 = dashI
        · obtain ⟨arg, hget, htext⟩ := getArg_row hinit h hfew file stack (i := i + 1)
            (by rw [hsucc]; exact List.getElem?_eq_getElem hmore)
          rw [if_pos ⟨hdash, hthere⟩, if_pos hdash, hget]
          simp only [Option.bind_some, Option.map_some, htext]
        · rw [if_neg fun hc => hdash hc.1, if_neg hdash]
      · -- the last argument: what is behind it is looked for in vain
        rw [if_neg fun hc => hmore (by omega), hnext, List.drop_of_length_le (by omega)]
        rfl
    · have hend : (arguments content).length ≤ i.toNat := by
        rw [UInt8.lt_iff_toNat_lt] at hi
        omega
      rw [if_neg hi, List.drop_of_length_le hend]
      rfl

theorem getTunName_of_inited {s : CommandLineArgs} (hinit : s.inited = true)
    (h : Parsed content s) (hfew : (words 0 content).length ≤ maxArgs) (file : File)
    (stack : ArgBuf) : getTunName content file stack s =
      some (interfaceName (arguments content).tail, s) := by
  have hn := s.numArgs.toNat_lt
  have hsearch := search_eq hinit h hfew file stack 256 1 (by norm_num) (by rw [UInt8.toNat_one]; omega)
  rw [getTunName, count, init_of_inited hinit]
  simp only [Option.map_some, Option.bind_some]
  rw [hsearch, UInt8.toNat_one, List.drop_one]

theorem getTunName_congr {s t : CommandLineArgs} {file : File} {stack : ArgBuf} {r : Bool}
    (hinit : init content file stack s = some (r, t)) (hdone : t.inited = true) :
    getTunName content file stack s = getTunName content file stack t := by
  rw [getTunName, getTunName, count, count, hinit, init_of_inited hdone]
  rfl

theorem getTunName_of_zero {s : CommandLineArgs} {file : File} {stack : ArgBuf} {r : Bool}
    (hinit : init content file stack s = some (r, s)) (hzero : s.numArgs = 0) :
    getTunName content file stack s = some ([], s) := by
  rw [getTunName, count, hinit]
  simp only [Option.map_some, Option.bind_some, hzero]
  rfl

/-- What was scanned is what the variables hold, and the names that were returned before are empty. -/
structure Kept (content : List UInt8) (s : Names) : Prop where
  ready : Ready content s.args
  zero : s.args.inited = false → s.args.numArgs = 0
  returned : ∃ n m, s.returned =
    List.replicate n [] ++ List.replicate m (interfaceName (arguments content).tail) ∧
      (s.args.inited = false → m = 0)

/-- Scanning is done once at most, and a file that cannot be read changes nothing. -/
theorem init_cases {file : File} {stack : ArgBuf} {s t : CommandLineArgs} {r : Bool}
    (h : init content file stack s = some (r, t)) :
    t = s ∨ s.inited = false ∧ t.inited = true := by
  cases hs : s.inited with
  | true =>
    rw [init_of_inited hs] at h
    cases h
    exact .inl rfl
  | false =>
    cases file with
    | unopened | unreadable =>
      simp only [init, hs] at h
      cases h
      exact .inl rfl
    | readable =>
      simp only [init, hs, Bool.false_eq_true, if_false] at h
      split_ifs at h
      obtain ⟨u, -, hu⟩ := Option.map_eq_some_iff.mp h
      cases hu
      exact .inr ⟨rfl, rfl⟩

theorem step_cases {s t : CommandLineArgs} {c : Call} (h : CommandLine.step content s c = some t) :
    t = s ∨ s.inited = false ∧ t.inited = true := by
  cases c with
  | count file stack =>
    simp only [CommandLine.step, count, Option.map_map, Option.map_eq_some_iff] at h
    obtain ⟨⟨r, u⟩, hu, rfl⟩ := h
    exact init_cases hu
  | getArg file stack argIdx =>
    simp only [CommandLine.step, getArg, Option.map_eq_some_iff, Option.bind_eq_some_iff] at h
    obtain ⟨⟨a, u⟩, ⟨⟨r, v⟩, hv, ha⟩, rfl⟩ := h
    have hsame : u = v := by
      dsimp only at ha
      split_ifs at ha
      · cases ha
        rfl
      · obtain ⟨arg, -, ha⟩ := Option.map_eq_some_iff.mp ha
        cases ha
        rfl
    rw [hsame]
    exact init_cases hv

theorem Kept.call (hshort : content.length ≤ maxArgs * maxArgLen) {s : Names} (h : Kept content s)
    {c : Call} {args : CommandLineArgs} (hst : CommandLine.step content s.args c = some args) :
    Kept content { s with args := args } := by
  have hready := ready_step hshort h.ready hst
  obtain ⟨n, m, hreturned, -⟩ := h.returned
  rcases step_cases hst with rfl | ⟨-, hinit⟩
  · exact h
  · have hnot : args.inited ≠ false := by simp [hinit]
    exact ⟨hready, fun hf => absurd hf hnot, n, m, hreturned, fun hf => absurd hf hnot⟩

/-- Before the file can be read the name is empty, from then on it is found. -/
theorem Kept.getTunName (hshort : content.length ≤ maxArgs * maxArgLen)
    (hfew : (words 0 content).length ≤ maxArgs) {s : Names} (h : Kept content s) {file : File}
    {stack : ArgBuf} {name : List UInt8} {args : CommandLineArgs}
    (hst : getTunName content file stack s.args = some (name, args)) :
    Kept content { s with args := args, returned := s.returned ++ [name] } := by
  obtain ⟨n, m, hreturned, hm⟩ := h.returned
  obtain ⟨⟨argc, t⟩, hcount, -⟩ := Option.bind_eq_some_iff.mp hst
  obtain ⟨⟨r, u⟩, hinit, -⟩ := Option.map_eq_some_iff.mp hcount
  have hready : Ready content u := ready_init hshort h.ready hinit
  cases hdone : u.inited with
  | false =>
    obtain rfl : u = s.args := by
      rcases init_cases hinit with hsame | ⟨-, hinited⟩
      · exact hsame
      · rw [hdone] at hinited
        cases hinited
    rw [getTunName_of_zero hinit (h.zero hdone)] at hst
    cases hst
    refine ⟨h.ready, h.zero, n + 1, 0, ?_, fun _ => rfl⟩
    rw [hreturned, hm hdone, List.replicate_zero, List.append_nil, List.append_nil,
      List.replicate_succ']
  | true =>
    rw [getTunName_congr hinit hdone, getTunName_of_inited hdone (hready hdone) hfew] at hst
    cases hst
    have hnot : args.inited ≠ false := by simp [hdone]
    refine ⟨hready, fun hf => absurd hf hnot, n, m + 1, ?_, fun hf => absurd hf hnot⟩
    dsimp only
    rw [hreturned, List.append_assoc, List.replicate_succ']

theorem Kept.named (hshort : content.length ≤ maxArgs * maxArgLen)
    (hfew : (words 0 content).length ≤ maxArgs) {s : Names} (h : Kept content s) :
    Named content s := by
  constructor
  · intro stack
    cases hs : s.args.inited with
    | true => exact ⟨s.args, getTunName_of_inited hs (h.ready hs) hfew .readable stack⟩
    | false =>
      obtain ⟨t, hinit, hdone, hparsed⟩ := parsed_init hshort stack hs
      rw [getTunName_congr hinit hdone]
      exact ⟨t, getTunName_of_inited hdone hparsed hfew .readable stack⟩
  · obtain ⟨n, m, hreturned, -⟩ := h.returned
    exact ⟨n, m, hreturned⟩

/-- Whoever asks for arguments before, and whether or not their file could be read then. -/
theorem named_of_reachable (content : List UInt8) (hshort : content.length ≤ maxArgs * maxArgLen)
    (hfew : (words 0 content).length ≤ maxArgs) (s : Names)
    (h : (machine content).Reachable Machine.Any s) : Named content s := by
  have hkept : Kept content s := by
    apply h.invariant (I := Kept content)
    · rintro s ⟨hinit, hzero, hreturned⟩
      refine ⟨fun hf => ?_, fun _ => hzero, 0, 0, hreturned, fun _ => rfl⟩
      rw [hinit] at hf
      cases hf
    · intro s e t hs _ hst
      cases e with
      | call c =>
        obtain ⟨args, hargs, rfl⟩ := Option.map_eq_some_iff.mp hst
        exact hs.call hshort hargs
      | getTunName file stack =>
        obtain ⟨⟨name, args⟩, hname, rfl⟩ := Option.map_eq_some_iff.mp hst
        exact hs.getTunName hshort hfew hname
  exact hkept.named hshort hfew

/-- `br -i lo`. -/
def loContent : List UInt8 := [98, 114] ++ 0 :: ([0x2D, 0x69] ++ 0 :: ([108, 111] ++ 0 :: []))

theorem words_loContent : words 0 loContent = [[98, 114], [0x2D, 0x69], [108, 111]] := by
  rw [loContent, words_append_sep, words_append_sep, words_append_sep,
    words_of_not_mem (by decide) (by decide), words_of_not_mem (by decide) (by decide),
    words_of_not_mem (by decide) (by decide), words_nil]
  rfl

/-- The name is asked for before the file can be read, and then again. -/
theorem named_of_reachable_lo : ∃ s, (machine loContent).run ⟨emptyArgs, []⟩
    [.getTunName .unopened (.replicate _ 0)] = some s ∧ s.returned = [[]] ∧
      ∃ args, getTunName loContent .readable (.replicate _ 0) s.args =
        some ([108, 111], args) := by
  have hrun : (machine loContent).run ⟨emptyArgs, []⟩
      [.getTunName .unopened (.replicate _ 0)] = some ⟨emptyArgs, [[]]⟩ := rfl
  have hname : interfaceName (arguments loContent).tail = [108, 111] := by
    rw [arguments, words_loContent]
    decide
  have hboot : (machine loContent).Reachable Machine.Any ⟨emptyArgs, []⟩ := .start ⟨rfl, rfl, rfl⟩
  have hnamed := named_of_reachable loContent (by decide) (by rw [words_loContent]; decide) _
    (hboot.run _ hrun)
  exact ⟨_, hrun, rfl, hname ▸ hnamed.next (.replicate _ 0)⟩

end RpiCc2520.TunName
