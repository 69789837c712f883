import RpiCc2520.EventMachine
import RpiCc2520.TextWords

/-! The arguments of the process: the content of its `cmdline` file is scanned once and kept as a
table of strings. -/
namespace RpiCc2520.CommandLine
open TextWords

def maxArgs : ℕ := 20
def maxArgLen : ℕ := 100

abbrev Arg := Vector UInt8 maxArgLen
abbrev Args := Vector Arg maxArgs
abbrev ArgBuf := Vector UInt8 (maxArgs * maxArgLen + 1)

/-- `args[i][j] = c`, `none` outside the table. -/
def setArg (args : Args) : ℤ → ℕ → UInt8 → Option Args
  | .ofNat i, j, c =>
      if h : i < maxArgs ∧ j < maxArgLen then
        some (args.set i ((args.get ⟨i, h.1⟩).set j c h.2) h.1)
      else none
  | .negSucc _, _, _ => none

structure Scan where
  args : Args
  argStarted : Bool
  argIdx : ℤ
  argCharIdx : ℕ

inductive Outcome
  | next (s : Scan)
  | stop (s : Scan)

/-- The body of the loop. Of an argument too long the rest is skipped; the one behind the last that
there is room for ends the loop. -/
def scanByte (b : UInt8) (s : Scan) : Option Outcome :=
  if b = 0 then
    if s.argStarted ∧ s.argCharIdx < maxArgLen then
      (setArg s.args s.argIdx s.argCharIdx 0).map fun args =>
        .next { s with args := args, argCharIdx := s.argCharIdx + 1, argStarted := false }
    else some (.next { s with argStarted := false })
  else
    let s := if s.argStarted then s
      else { s with argIdx := s.argIdx + 1, argStarted := true, argCharIdx := 0 }
    if s.argCharIdx ≥ maxArgLen - 1 then some (.next s)
    else if s.argIdx ≥ maxArgs then some (.stop s)
    else (setArg s.args s.argIdx s.argCharIdx b).map fun args =>
      .next { s with args := args, argCharIdx := s.argCharIdx + 1 }

def scan (argBuf : ArgBuf) : ℕ → ℕ → Scan → Option Scan
  | 0, _, s => some s
  | n + 1, i, s =>
      argBuf[i]?.bind fun b => (scanByte b s).bind fun
        | .next t => scan argBuf n (i + 1) t
        | .stop t => some t

inductive File
  | unopened
  | unreadable
  | readable

structure CommandLineArgs where
  args : Args
  numArgs : UInt8
  inited : Bool

/-- `read` into the buffer on the stack. -/
def readInto (stack : ArgBuf) (bs : List UInt8) : ArgBuf :=
  Vector.ofFn fun i => bs.getD i stack[i]

/-- Whether it succeeds, and the state after it. -/
def init (content : List UInt8) (file : File) (stack : ArgBuf) (s : CommandLineArgs) :
    Option (Bool × CommandLineArgs) :=
  if s.inited then some (true, s)
  else match file with
    | .unopened | .unreadable => some (false, s)
    | .readable =>
        let bs := content.take (maxArgs * maxArgLen)
        let ret := bs.length
        if h : ret < maxArgs * maxArgLen + 1 then
          let argBuf := (readInto stack bs).set ret 0
          (scan argBuf (ret + 1) 0 ⟨s.args, false, -1, 0⟩).map fun t =>
            (true, ⟨t.args, .ofInt (t.argIdx + 1), true⟩)
        else none

def count (content : List UInt8) (file : File) (stack : ArgBuf) (s : CommandLineArgs) :
    Option (UInt8 × CommandLineArgs) :=
  (init content file stack s).map fun (_, s) => (s.numArgs, s)

def getArg (content : List UInt8) (file : File) (stack : ArgBuf) (argIdx : UInt8)
    (s : CommandLineArgs) : Option (Option Arg × CommandLineArgs) :=
  (init content file stack s).bind fun (_, s) =>
    if argIdx ≥ s.numArgs then some (none, s)
    else s.args[argIdx.toNat]?.map fun arg => (some arg, s)

inductive Call
  | count (file : File) (stack : ArgBuf)
  | getArg (file : File) (stack : ArgBuf) (argIdx : UInt8)

def step (content : List UInt8) (s : CommandLineArgs) : Call → Option CommandLineArgs
  | .count file stack => (count content file stack s).map Prod.snd
  | .getArg file stack argIdx => (getArg content file stack argIdx s).map Prod.snd

/-- A process started with this content of the file. -/
def machine (content : List UInt8) : Machine CommandLineArgs Call :=
  ⟨fun s => s.inited = false, step content⟩

/-- A row holds a text as a C string. -/
structure CString (arg : Arg) (text : List UInt8) : Prop where
  noNul : 0 ∉ text
  terminated : text ++ [0] <+: arg.toList

/-- The calls get the arguments of the content, and touch nothing outside the buffers. -/
structure Answers (content : List UInt8) (s : CommandLineArgs) : Prop where
  counted : ∀ stack, ∃ n t, count content .readable stack s = some (n, t) ∧
    n.toNat = min maxArgs (words 0 content).length
  got : ∀ (stack : ArgBuf) (argIdx : UInt8) (a : List UInt8), argIdx.toNat < maxArgs →
    (words 0 content)[argIdx.toNat]? = some a →
      ∃ arg t, getArg content .readable stack argIdx s = some (some arg, t) ∧
        CString arg (a.take (maxArgLen - 1))
  null : ∀ (stack : ArgBuf) (argIdx : UInt8), min maxArgs (words 0 content).length ≤ argIdx.toNat →
    ∃ t, getArg content .readable stack argIdx s = some (none, t)

/-- After the bytes of the arguments `done` and of the beginning `cur` of one more. -/
structure Stands (done : List (List UInt8)) (cur : List UInt8) (s : Scan) : Prop where
  started : s.argStarted = !cur.isEmpty
  index : s.argIdx = done.length + (words 0 cur).length - 1
  char : cur ≠ [] → s.argCharIdx = min cur.length (maxArgLen - 1)
  noNul : 0 ∉ cur
  rows : ∀ (i : ℕ) (a : List UInt8), done[i]? = some a →
    ∃ arg, s.args[i]? = some arg ∧ CString arg (a.take (maxArgLen - 1))
  current : cur ≠ [] →
    ∃ arg, s.args[done.length]? = some arg ∧ cur.take (maxArgLen - 1) <+: arg.toList

theorem append_isPrefix_set {text : List UInt8} {arg : Arg} {c : UInt8} (h : text <+: arg.toList)
    (hlt : text.length < maxArgLen) : text ++ [c] <+: (arg.set text.length c).toList := by
  obtain ⟨rest, hrest⟩ := h
  have hlength : text.length + rest.length = maxArgLen := by
    rw [← List.length_append, hrest, Vector.length_toList]
  rw [Vector.toList_set, ← hrest]
  cases rest with
  | nil =>
    rw [List.length_nil] at hlength
    omega
  | cons d rest => exact ⟨rest, by simp⟩

theorem setArg_eq_some {args : Args} {i j : ℕ} {c : UInt8} {arg : Arg} (hi : args[i]? = some arg)
    (hj : j < maxArgLen) : ∃ args', setArg args i j c = some args' ∧
      args'[i]? = some (arg.set j c) ∧ ∀ k ≠ i, args'[k]? = args[k]? := by
  obtain ⟨hlt, rfl⟩ := Vector.getElem?_eq_some_iff.mp hi
  refine ⟨_, dif_pos ⟨hlt, hj⟩, ?_, fun k hk => ?_⟩
  · rw [Vector.getElem?_set_self hlt]
    rfl
  · exact Vector.getElem?_set_ne hlt hk.symm

theorem rows_concat {done : List (List UInt8)} {cur : List UInt8} {args args' : Args} {arg : Arg}
    (hrows : ∀ (i : ℕ) (a : List UInt8), done[i]? = some a →
      ∃ arg, args[i]? = some arg ∧ CString arg (a.take (maxArgLen - 1)))
    (hold : ∀ k ≠ done.length, args'[k]? = args[k]?) (hnew : args'[done.length]? = some arg)
    (htext : CString arg (cur.take (maxArgLen - 1))) (i : ℕ) (a : List UInt8)
    (ha : (done ++ [cur])[i]? = some a) :
    ∃ arg, args'[i]? = some arg ∧ CString arg (a.take (maxArgLen - 1)) := by
  by_cases hi : i = done.length
  · subst hi
    rw [List.getElem?_append_right le_rfl, Nat.sub_self] at ha
    cases ha
    exact ⟨arg, hnew, htext⟩
  · rw [hold i hi]
    apply hrows i a
    rcases Nat.lt_or_gt_of_ne hi with hlt | hgt
    · rwa [List.getElem?_append_left hlt] at ha
    · rw [List.getElem?_eq_none (by simpa using hgt)] at ha
      cases ha

/-- At a NUL the argument that has begun is complete. -/
theorem stands_zero {done : List (List UInt8)} {cur : List UInt8} {s : Scan}
    (h : Stands done cur s) (hroom : done.length + (words 0 cur).length ≤ maxArgs) :
    ∃ t, scanByte 0 s = some (.next t) ∧ Stands (done ++ words 0 cur) [] t := by
  by_cases hcur : cur = []
  · subst hcur
    have hstarted : s.argStarted = false := h.started
    refine ⟨{ s with argStarted := false }, ?_, ?_⟩
    · simp [scanByte, hstarted]
    · rw [words_nil, List.append_nil]
      exact ⟨rfl, h.index, fun hne => absurd rfl hne, h.noNul, h.rows, fun hne => absurd rfl hne⟩
  · have hrun := words_of_not_mem h.noNul hcur
    have hstarted : s.argStarted = true := by simp [h.started, hcur]
    obtain ⟨arg, harg, htext⟩ := h.current hcur
    have hchar : s.argCharIdx = (cur.take (maxArgLen - 1)).length := by
      rw [h.char hcur, List.length_take, Nat.min_comm]
    have hlt : s.argCharIdx < maxArgLen := by
      rw [h.char hcur]
      simp only [maxArgLen]
      omega
    obtain ⟨args, hset, hnew, hold⟩ := setArg_eq_some (c := 0) harg hlt
    have hindex : s.argIdx = done.length := by
      rw [h.index, hrun]
      simp
    refine ⟨{ s with args := args, argCharIdx := s.argCharIdx + 1, argStarted := false }, ?_, ?_⟩
    · simp [scanByte, hstarted, hlt, hindex, hset]
    · rw [hrun]
      refine ⟨rfl, ?_, fun hne => absurd rfl hne, List.not_mem_nil, ?_, fun hne => absurd rfl hne⟩
      · simp [hindex, words_nil]
      · refine rows_concat h.rows hold hnew ⟨fun hmem => h.noNul (List.mem_of_mem_take hmem), ?_⟩
        simp only [hchar]
        exact append_isPrefix_set htext (hchar ▸ hlt)

/-- A byte that is not NUL finds its argument begun, or begins it. -/
theorem begun {done : List (List UInt8)} {cur : List UInt8} {s : Scan} (h : Stands done cur s) :
    (if s.argStarted then s
      else { s with argIdx := s.argIdx + 1, argStarted := true, argCharIdx := 0 }) =
    { s with
      argIdx := done.length
      argStarted := true
      argCharIdx := min cur.length (maxArgLen - 1) } := by
  have hindex := h.index
  by_cases hcur : cur = []
  · subst hcur
    have hstarted : s.argStarted = false := h.started
    simp [hstarted, hindex, words_nil]
  · have hstarted : s.argStarted = true := by simp [h.started, hcur]
    rw [words_of_not_mem h.noNul hcur] at hindex
    rw [if_pos hstarted, ← h.char hcur, ← hstarted]
    cases s
    simp_all

theorem exists_arg {done : List (List UInt8)} {cur : List UInt8} {s : Scan} (h : Stands done cur s)
    (hroom : done.length < maxArgs) :
    ∃ arg, s.args[done.length]? = some arg ∧ cur.take (maxArgLen - 1) <+: arg.toList := by
  by_cases hcur : cur = []
  · subst hcur
    exact ⟨_, Vector.getElem?_eq_getElem hroom, by simp⟩
  · exact h.current hcur

theorem stands_char {done : List (List UInt8)} {cur : List UInt8} {s : Scan} {b : UInt8}
    (h : Stands done cur s) (hb : b ≠ 0) (hroom : done.length < maxArgs) :
    ∃ t, scanByte b s = some (.next t) ∧ Stands done (cur ++ [b]) t := by
  have hnoNul : 0 ∉ cur ++ [b] := by simp [h.noNul, hb.symm]
  have hne : cur ++ [b] ≠ [] := by simp
  have hrun := words_of_not_mem hnoNul hne
  have hroom' : ¬(done.length : ℤ) ≥ maxArgs := by omega
  obtain ⟨arg, harg, htext⟩ := exists_arg h hroom
  by_cases hlong : maxArgLen - 1 ≤ cur.length
  · refine ⟨{ s with
      argIdx := done.length
      argStarted := true
      argCharIdx := min cur.length (maxArgLen - 1) }, ?_, ?_⟩
    · simp only [scanByte, hb, if_false, begun h]
      rw [if_pos (by omega)]
    · refine ⟨by simp, by simp [hrun], fun _ => ?_, hnoNul, h.rows, fun _ => ⟨arg, harg, ?_⟩⟩
      · simp only [List.length_append, List.length_singleton]
        omega
      · rwa [List.take_append_of_le_length hlong]
  · have hshort : min cur.length (maxArgLen - 1) = cur.length := by omega
    have hlt : cur.length < maxArgLen := by omega
    rw [List.take_of_length_le (by omega)] at htext
    obtain ⟨args, hset, hnew, hold⟩ := setArg_eq_some (c := b) harg hlt
    refine ⟨{ s with
      args := args
      argIdx := done.length
      argStarted := true
      argCharIdx := cur.length + 1 }, ?_, ?_⟩
    · simp only [scanByte, hb, if_false, begun h, hshort]
      rw [if_neg hlong, if_neg hroom', hset]
      rfl
    · refine ⟨by simp, by simp [hrun], fun _ => ?_, hnoNul, ?_, fun _ => ⟨_, hnew, ?_⟩⟩
      · simp only [List.length_append, List.length_singleton]
        omega
      · intro i a ha
        have hi := (List.getElem?_eq_some_iff.mp ha).1
        dsimp only
        rw [hold i (by omega)]
        exact h.rows i a ha
      · rw [List.take_of_length_le (by simp; omega)]
        exact append_isPrefix_set htext hlt

/-- Where no room is left the first byte of one more argument ends the loop, after the index has
been counted on. -/
theorem stop_of_full {done : List (List UInt8)} {s : Scan} {b : UInt8} (h : Stands done [] s)
    (hb : b ≠ 0) (hfull : done.length = maxArgs) :
    ∃ t, scanByte b s = some (.stop t) ∧ t.argIdx = maxArgs := by
  refine ⟨{ s with argIdx := done.length, argStarted := true, argCharIdx := 0 }, ?_, ?_⟩
  · simp only [scanByte, hb, if_false, begun h]
    rw [if_neg (by decide), if_pos (by omega)]
    rfl
  · exact congrArg _ hfull

def scanBytes : List UInt8 → Scan → Option Scan
  | [], s => some s
  | b :: bs, s => (scanByte b s).bind fun
      | .next t => scanBytes bs t
      | .stop t => some t

theorem scan_eq_scanBytes (argBuf : ArgBuf) {bs : List UInt8} {i : ℕ} {s : Scan}
    (h : ∀ k < bs.length, argBuf[i + k]? = bs[k]?) :
    scan argBuf bs.length i s = scanBytes bs s := by
  induction bs generalizing i s with
  | nil => rfl
  | cons b bs ih =>
    have hhead : argBuf[i]? = some b := h 0 (by simp)
    have htail (k : ℕ) (hk : k < bs.length) : argBuf[i + 1 + k]? = bs[k]? := by
      rw [Nat.add_right_comm]
      exact h (k + 1) (by simpa using hk)
    rw [List.length_cons, scan, hhead, Option.bind_some, scanBytes]
    congr 1
    funext o
    cases o with
    | next t => exact ih htail
    | stop t => rfl

theorem scanBytes_of_stands (bs : List UInt8) {done : List (List UInt8)} {cur : List UInt8}
    {s : Scan} (h : Stands done cur s) (hroom : done.length + (words 0 cur).length ≤ maxArgs) :
    ∃ t, scanBytes (bs ++ [0]) s = some t ∧
      ((done ++ words 0 (cur ++ bs)).length ≤ maxArgs → Stands (done ++ words 0 (cur ++ bs)) [] t) ∧
      (maxArgs < (done ++ words 0 (cur ++ bs)).length → t.argIdx = maxArgs) := by
  induction bs generalizing done cur s with
  | nil =>
    obtain ⟨t, ht, hstands⟩ := stands_zero h hroom
    rw [List.append_nil]
    refine ⟨t, ?_, fun _ => hstands, fun hlong => ?_⟩
    · rw [List.nil_append, scanBytes, ht]
      rfl
    · rw [List.length_append] at hlong
      omega
  | cons b bs ih =>
    rw [List.cons_append, scanBytes]
    by_cases hb : b = 0
    · subst hb
      obtain ⟨t, ht, hstands⟩ := stands_zero h hroom
      rw [ht, words_append_sep, ← List.append_assoc]
      exact ih hstands (by simpa [words_nil] using hroom)
    by_cases hfull : cur = [] ∧ done.length = maxArgs
    · obtain ⟨rfl, hfull⟩ := hfull
      obtain ⟨t, ht, hidx⟩ := stop_of_full h hb hfull
      have hbegin : 0 ∉ [b] := by simpa using Ne.symm hb
      have hmore : 0 < (words 0 ([] ++ b :: bs)).length :=
        List.length_pos_of_ne_nil (words_append_ne_nil hbegin (List.cons_ne_nil _ _) bs)
      refine ⟨t, by rw [ht]; rfl, fun hshort => ?_, fun _ => hidx⟩
      rw [List.length_append] at hshort
      omega
    · have hnoNul : 0 ∉ cur ++ [b] := by simp [h.noNul, Ne.symm hb]
      have hlt : done.length < maxArgs := by
        by_cases hcur : cur = []
        · have hne : done.length ≠ maxArgs := fun hd => hfull ⟨hcur, hd⟩
          omega
        · rw [words_of_not_mem h.noNul hcur, List.length_singleton] at hroom
          omega
      obtain ⟨t, ht, hstands⟩ := stands_char h hb hlt
      rw [ht, List.append_cons cur b bs]
      refine ih hstands ?_
      rw [words_of_not_mem hnoNul (by simp)]
      exact hlt

structure Parsed (content : List UInt8) (s : CommandLineArgs) : Prop where
  few : (words 0 content).length ≤ maxArgs → s.numArgs.toNat = (words 0 content).length
  rows : (words 0 content).length ≤ maxArgs → ∀ (i : ℕ) (a : List UInt8),
    (words 0 content)[i]? = some a →
      ∃ arg, s.args[i]? = some arg ∧ CString arg (a.take (maxArgLen - 1))
  many : maxArgs < (words 0 content).length → s.numArgs.toNat = maxArgs + 1

theorem getElem?_argBuf {stack : ArgBuf} {bs : List UInt8}
    (h : bs.length < maxArgs * maxArgLen + 1) {k : ℕ} (hk : k < (bs ++ [0]).length) :
    ((readInto stack bs).set bs.length 0 h)[k]? = (bs ++ [0])[k]? := by
  rw [List.length_append, List.length_singleton] at hk
  rcases Nat.lt_or_ge k bs.length with hlt | hge
  · rw [Vector.getElem?_set_ne h (by omega), List.getElem?_append_left hlt,
      Vector.getElem?_eq_getElem (by omega), List.getElem?_eq_getElem hlt]
    simp [readInto, hlt]
  · obtain rfl : k = bs.length := by omega
    rw [Vector.getElem?_set_self h, List.getElem?_append_right le_rfl, Nat.sub_self]
    rfl

theorem toNat_ofInt {n : ℕ} (h : n < 256) : (UInt8.ofInt n).toNat = n := by
  have hmod : ((n : ℤ) % 2 ^ 8).toNat = n := by omega
  rw [UInt8.ofInt, hmod, UInt8.toNat_ofNat_of_lt' h]

theorem parsed_init {content : List UInt8} (hshort : content.length ≤ maxArgs * maxArgLen)
    (stack : ArgBuf) {s : CommandLineArgs} (hs : s.inited = false) :
    ∃ t, init content .readable stack s = some (true, t) ∧ t.inited = true ∧
      Parsed content t := by
  have hlt : content.length < maxArgs * maxArgLen + 1 := by omega
  have hstart : Stands [] [] ⟨s.args, false, -1, 0⟩ :=
    ⟨rfl, by simp [words_nil], fun h => absurd rfl h, List.not_mem_nil, by simp,
      fun h => absurd rfl h⟩
  obtain ⟨t, ht, hfew, hmany⟩ := scanBytes_of_stands content hstart (by simp [words_nil])
  have hloop := scan_eq_scanBytes ((readInto stack content).set content.length 0 hlt) (i := 0)
    (s := ⟨s.args, false, -1, 0⟩) fun k hk => by rw [Nat.zero_add]; exact getElem?_argBuf hlt hk
  rw [ht, List.length_append, List.length_singleton] at hloop
  simp only [List.nil_append] at hfew hmany
  refine ⟨⟨t.args, .ofInt (t.argIdx + 1), true⟩, ?_, rfl, ?_, ?_, ?_⟩
  · simp only [init, hs, Bool.false_eq_true, if_false, List.take_of_length_le hshort, hlt, dif_pos,
      hloop, Option.map_some]
  · intro hle
    have hidx := (hfew hle).index
    rw [words_nil, List.length_nil] at hidx
    have hsucc : t.argIdx + 1 = (words 0 content).length := by omega
    dsimp only
    rw [hsucc]
    exact toNat_ofInt (lt_of_le_of_lt hle (by decide))
  · intro hle
    exact (hfew hle).rows
  · intro hgt
    dsimp only
    rw [hmany hgt]
    rfl

def Ready (content : List UInt8) (s : CommandLineArgs) : Prop :=
  s.inited = true → Parsed content s

theorem init_of_inited {content : List UInt8} {file : File} {stack : ArgBuf} {s : CommandLineArgs}
    (h : s.inited = true) : init content file stack s = some (true, s) := if_pos h

theorem ready_init {content : List UInt8} (hshort : content.length ≤ maxArgs * maxArgLen)
    {file : File} {stack : ArgBuf} {s t : CommandLineArgs} {r : Bool} (h : Ready content s)
    (hinit : init content file stack s = some (r, t)) : Ready content t := by
  cases hs : s.inited with
  | true =>
    rw [init_of_inited hs] at hinit
    cases hinit
    exact h
  | false =>
    cases file with
    | unopened | unreadable =>
      simp only [init, hs] at hinit
      cases hinit
      exact h
    | readable =>
      obtain ⟨u, hu, -, hparsed⟩ := parsed_init hshort stack hs
      rw [hu] at hinit
      cases hinit
      exact fun _ => hparsed

theorem ready_step {content : List UInt8} (hshort : content.length ≤ maxArgs * maxArgLen)
    {s t : CommandLineArgs} {c : Call} (h : Ready content s) (hst : step content s c = some t) :
    Ready content t := by
  cases c with
  | count file stack =>
    simp only [step, count, Option.map_map, Option.map_eq_some_iff] at hst
    obtain ⟨⟨r, u⟩, hu, rfl⟩ := hst
    exact ready_init hshort h hu
  | getArg file stack argIdx =>
    simp only [step, getArg, Option.map_eq_some_iff, Option.bind_eq_some_iff] at hst
    obtain ⟨⟨r, u⟩, ⟨⟨r', u'⟩, hu, hr⟩, rfl⟩ := hst
    have hsame : u = u' := by
      dsimp only at hr
      split_ifs at hr
      · cases hr
        rfl
      · obtain ⟨arg, -, hr⟩ := Option.map_eq_some_iff.mp hr
        cases hr
        rfl
    rw [hsame]
    exact ready_init hshort h hu

theorem exists_init {content : List UInt8} (hshort : content.length ≤ maxArgs * maxArgLen)
    {s : CommandLineArgs} (h : Ready content s) (stack : ArgBuf) :
    ∃ t, init content .readable stack s = some (true, t) ∧ Parsed content t := by
  cases hs : s.inited with
  | true => exact ⟨s, init_of_inited hs, h hs⟩
  | false =>
    obtain ⟨t, ht, -, hparsed⟩ := parsed_init hshort stack hs
    exact ⟨t, ht, hparsed⟩

/-- Of too many arguments one more is counted than is kept, and asking for it leaves the table. -/
theorem overcounted {content : List UInt8} (hshort : content.length ≤ maxArgs * maxArgLen)
    {s : CommandLineArgs} (h : Ready content s) (hmany : maxArgs < (words 0 content).length)
    (stack : ArgBuf) : (∃ t, count content .readable stack s = some (21, t)) ∧
      getArg content .readable stack 20 s = none := by
  obtain ⟨t, ht, hparsed⟩ := exists_init hshort h stack
  have hnum : t.numArgs = 21 := UInt8.toNat_inj.mp (hparsed.many hmany)
  constructor
  · exact ⟨t, by simp only [count, ht, Option.map_some, hnum]⟩
  · simp only [getArg, ht, Option.bind_some, hnum]
    rfl

/-- The arguments are answered for as they should be exactly when there are not too many. -/
theorem answers_iff (content : List UInt8) (hshort : content.length ≤ maxArgs * maxArgLen)
    (s : CommandLineArgs) (h : (machine content).Reachable Machine.Any s) :
    Answers content s ↔ (words 0 content).length ≤ maxArgs := by
  have hready : Ready content s := h.invariant (I := Ready content)
    (fun s hs hinited => by rw [show s.inited = false from hs] at hinited; cases hinited)
    fun _ _ _ hr _ => ready_step hshort hr
  constructor
  · intro hanswers
    by_contra hmany
    have hmany := Nat.lt_of_not_le hmany
    obtain ⟨t, hover⟩ := (overcounted hshort hready hmany (.replicate _ 0)).1
    obtain ⟨n, u, hcount, hn⟩ := hanswers.counted (.replicate _ 0)
    rw [hover] at hcount
    cases hcount
    rw [Nat.min_eq_left hmany.le] at hn
    cases hn
  · intro hfew
    constructor
    · intro stack
      obtain ⟨t, ht, hparsed⟩ := exists_init hshort hready stack
      refine ⟨t.numArgs, t, by rw [count, ht]; rfl, ?_⟩
      rw [hparsed.few hfew, Nat.min_eq_right hfew]
    · intro stack argIdx a _ ha
      obtain ⟨t, ht, hparsed⟩ := exists_init hshort hready stack
      obtain ⟨arg, harg, htext⟩ := hparsed.rows hfew _ a ha
      have hlt : ¬argIdx ≥ t.numArgs := by
        have hidx := (List.getElem?_eq_some_iff.mp ha).1
        rw [ge_iff_le, UInt8.le_iff_toNat_le, hparsed.few hfew]
        omega
      refine ⟨arg, t, ?_, htext⟩
      simp only [getArg, ht, Option.bind_some, if_neg hlt, harg, Option.map_some]
    · intro stack argIdx hge
      obtain ⟨t, ht, hparsed⟩ := exists_init hshort hready stack
      have hge' : argIdx ≥ t.numArgs := by
        rw [ge_iff_le, UInt8.le_iff_toNat_le, hparsed.few hfew]
        omega
      exact ⟨t, by simp only [getArg, ht, Option.bind_some, if_pos hge']⟩

def emptyArgs : CommandLineArgs := ⟨.replicate _ (.replicate _ 0), 0, false⟩

def longContent : List UInt8 := [109, 111, 116, 101] ++ 0 :: (.replicate 120 97 ++ 0 :: [])

theorem words_longContent : words 0 longContent = [[109, 111, 116, 101], .replicate 120 97] := by
  rw [longContent, words_append_sep, words_append_sep, words_of_not_mem (by decide) (by decide),
    words_of_not_mem (by simp) (by simp), words_nil]
  rfl

theorem answers_iff_long : Answers longContent emptyArgs :=
  (answers_iff longContent (by simp [longContent, maxArgs, maxArgLen]) emptyArgs (.start rfl)).mpr
    (by rw [words_longContent]; decide)

def manyContent : List UInt8 := (List.replicate 21 [97, 0]).flatten

theorem manyContent_overcounted : manyContent.length ≤ maxArgs * maxArgLen ∧
    (∀ stack, (∃ t, count manyContent .readable stack emptyArgs = some (21, t)) ∧
      getArg manyContent .readable stack 20 emptyArgs = none) ∧
    ¬Answers manyContent emptyArgs := by
  have hshort : manyContent.length ≤ maxArgs * maxArgLen := by decide
  have hmany : maxArgs < (words 0 manyContent).length := by decide
  have hover := overcounted hshort (s := emptyArgs) nofun hmany
  refine ⟨hshort, hover, fun h => ?_⟩
  obtain ⟨t, ht⟩ := (hover (.replicate _ 0)).1
  obtain ⟨n, u, hcount, hn⟩ := h.counted (.replicate _ 0)
  rw [ht] at hcount
  cases hcount
  exact absurd hn (by decide)

end RpiCc2520.CommandLine
