import RpiCc2520.GpioInterrupt

/-! The child that watches the pins: it opens the files of each pin and turns its interrupt off,
then applies the settings from its pipe to the edge files and to its epoll. -/
namespace RpiCc2520.GpioSettings
open GpioInterrupt

def settingStr : Setting → String
  | .none => "none"
  | .rising => "rising"
  | .falling => "falling"

inductive File
  | edge (pin : ℕ)
  | value (pin : ℕ)
  | other
  deriving DecidableEq

/-- What the child did: it took a setting from the pipe, which the edge file took or refused, or it
signaled the number of a pin. -/
inductive Entry
  | configured (iset : InterruptSetting) (written : Bool)
  | signaled (pin : ℕ)

/-- The files the child has open and what the edge files of the pins say. Its arrays, the variable
of its first loop and the pins whose files that loop has opened. The descriptors in its epoll, the
settings in the pipe, those ever asked for, and what it did so far. -/
structure Child where
  descriptors : ℕ → Option File
  edgeText : ℕ → String
  gpioEdgeFds : List ℕ
  gpioValueFds : List ℕ
  turn : ℕ
  opened : List ℕ
  watched : List ℕ
  settings : List InterruptSetting
  asked : List InterruptSetting
  log : List Entry

def configureInterrupt (pinNumber : UInt8) (set : Setting) (s : Child) : Child :=
  let iset : InterruptSetting := ⟨pinNumber.toNat, set⟩
  { s with settings := s.settings ++ [iset], asked := s.asked ++ [iset] }

def enableRisingEdge (bcmPin : UInt8) : Child → Child := configureInterrupt bcmPin .rising
def enableFallingEdge (bcmPin : UInt8) : Child → Child := configureInterrupt bcmPin .falling
def disable (bcmPin : UInt8) : Child → Child := configureInterrupt bcmPin .none

/-- `open` with the descriptor the kernel picks among those not in use. -/
def openFile (file : File) (fd : ℕ) (s : Child) : Option Child :=
  if s.descriptors fd = none then
    some { s with descriptors := Function.update s.descriptors fd (some file) }
  else none

/-- `write`, which a file may refuse. -/
def writeFile (fd : ℕ) (text : String) (written : Bool) (s : Child) : Child :=
  match written, s.descriptors fd with
  | true, some (.edge pin) => { s with edgeText := Function.update s.edgeText pin text }
  | _, _ => s

inductive Export
  | done
  | ebusy
  | error
  deriving DecidableEq

/-- What the kernel answers in a turn of the first loop: whether the directory of the pin is there,
what becomes of its export if not, and the descriptors of its two files. -/
structure Answers where
  found : Bool
  exported : Export
  edgeFd : ℕ
  valueFd : ℕ

/-- A turn of the first loop. A pin that is busy is left as it is, and so are its descriptors. Any
other failure ends the child. -/
def setupPin (a : Answers) (s : Child) : Option Child :=
  match pins[s.turn]?, a.found, a.exported with
  | some _, false, .ebusy => some { s with turn := s.turn + 1 }
  | none, _, _ | some _, false, .error => none
  | some pin, _, _ => do
      let s ← openFile (.edge pin) a.edgeFd s
      let s := writeFile a.edgeFd (settingStr .none) true s
      let s ← openFile (.value pin) a.valueFd s
      some { s with
        gpioEdgeFds := s.gpioEdgeFds.set s.turn a.edgeFd
        gpioValueFds := s.gpioValueFds.set s.turn a.valueFd
        turn := s.turn + 1
        opened := pin :: s.opened }

/-- `epoll_ctl`: a file that is not there and one that is there already are no errors. -/
def reconfigure (fd : ℕ) (watched : List ℕ) : Setting → List ℕ
  | .none => watched.erase fd
  | .rising | .falling => watched.insert fd

/-- The pipe is ready. A pin that is not in `pins` would index the arrays with -1; none is wired. -/
def configure (written : Bool) (s : Child) : Option Child :=
  match s.settings with
  | [] => none
  | iset :: settings => do
      let pinIndex ← getPinIndex iset.pinNumber
      let edgeFd ← s.gpioEdgeFds[pinIndex]?
      let valueFd ← s.gpioValueFds[pinIndex]?
      let s := writeFile edgeFd (settingStr iset.setting) written s
      some { s with
        settings := settings
        watched := reconfigure valueFd s.watched iset.setting
        log := s.log ++ [.configured iset written] }

def interrupt (fd : ℕ) (s : Child) : Option Child := do
  let pinIndex ← s.gpioValueFds.idxOf? fd
  let pin ← pins[pinIndex]?
  some { s with log := s.log ++ [.signaled pin] }

inductive Event
  | enableRisingEdge (bcmPin : UInt8)
  | enableFallingEdge (bcmPin : UInt8)
  | disable (bcmPin : UInt8)
  | setupPin (a : Answers)
  | configure (written : Bool)
  | interrupt (fd : ℕ)

def step (s : Child) : Event → Option Child
  | .enableRisingEdge bcmPin => some (enableRisingEdge bcmPin s)
  | .enableFallingEdge bcmPin => some (enableFallingEdge bcmPin s)
  | .disable bcmPin => some (disable bcmPin s)
  | .setupPin a => setupPin a s
  | .configure written => if s.turn = pins.length then configure written s else none
  | .interrupt fd => if s.turn = pins.length ∧ fd ∈ s.watched then interrupt fd s else none

/-- The interfaces of the parent that `Bcm2835InterruptC` provides are those of the pins here. -/
def Connected (_ : Child) : Event → Prop
  | .enableRisingEdge bcmPin | .enableFallingEdge bcmPin | .disable bcmPin => bcmPin.toNat ∈ pins
  | .setupPin _ | .configure _ | .interrupt _ => True

/-- The child after the fork: no file of a pin is open, descriptor 0 is. -/
structure Booted (texts : ℕ → String) (s : Child) : Prop where
  closed : ∀ fd, s.descriptors fd = none ∨ s.descriptors fd = some .other
  input : s.descriptors 0 = some .other
  edgeText : s.edgeText = texts
  gpioEdgeFds : s.gpioEdgeFds = List.replicate pins.length 0
  gpioValueFds : s.gpioValueFds = List.replicate pins.length 0
  turn : s.turn = 0
  opened : s.opened = []
  watched : s.watched = []
  settings : s.settings = []
  asked : s.asked = []
  log : s.log = []

def machine (texts : ℕ → String) : Machine Child Event := ⟨Booted texts, step⟩

def taken (log : List Entry) : List InterruptSetting :=
  log.filterMap fun
    | .configured iset _ => some iset
    | .signaled _ => none

def written (log : List Entry) : List InterruptSetting :=
  log.filterMap fun
    | .configured iset true => some iset
    | .configured _ false | .signaled _ => none

def signaled (log : List Entry) : List ℕ :=
  log.filterMap fun
    | .configured _ _ => none
    | .signaled pin => some pin

/-- The last setting for a pin, off before there is one. -/
def lastSetting (pin : ℕ) (isets : List InterruptSetting) : Setting :=
  ((isets.filter fun iset => iset.pinNumber = pin).getLast?).elim .none InterruptSetting.setting

/-- Settings are taken in the order they were asked for. The edge file of a pin that was opened says
what it was last told, its value file is watched unless the last setting was off, every signal with
its number came while it was watched, and an edge on it is signaled with its own number. No other
edge file is written to. A setting in the pipe can be taken, and once the pipe is empty the files
say what was asked for last. -/
structure Configured (texts : ℕ → String) (s : Child) : Prop where
  order : taken s.log ++ s.settings = s.asked
  edge : ∀ pin ∈ s.opened, s.edgeText pin = settingStr (lastSetting pin (written s.log))
  untouched : ∀ pin ∉ s.opened, s.edgeText pin = texts pin
  watched : ∀ pin ∈ s.opened, ∀ fd, s.descriptors fd = some (.value pin) →
    (fd ∈ s.watched ↔ lastSetting pin (taken s.log) ≠ .none)
  enabled : ∀ pin ∈ s.opened, ∀ before after, s.log = before ++ .signaled pin :: after →
    lastSetting pin (taken before) ≠ .none
  passed : ∀ pin ∈ s.opened, ∀ fd t, s.descriptors fd = some (.value pin) →
    step s (.interrupt fd) = some t → t.log = s.log ++ [.signaled pin]
  goesOn : s.turn = pins.length → s.settings ≠ [] → ∀ done, (step s (.configure done)).isSome
  settled : s.settings = [] → (∀ iset done, .configured iset done ∈ s.log → done = true) →
    ∀ pin ∈ s.opened, s.edgeText pin = settingStr (lastSetting pin s.asked)

/-- Descriptors and arrays: an entry is the descriptor of the pin's own file, or 0 where the pin was
not opened. -/
structure Wired (s : Child) : Prop where
  edgeFds : s.gpioEdgeFds.length = pins.length
  valueFds : s.gpioValueFds.length = pins.length
  input : s.descriptors 0 = some .other
  opened : ∀ (i pin : ℕ), pins[i]? = some pin → pin ∈ s.opened → i < s.turn ∧ ∃ edgeFd valueFd : ℕ,
    s.gpioEdgeFds[i]? = some edgeFd ∧ s.descriptors edgeFd = some (.edge pin) ∧
      s.gpioValueFds[i]? = some valueFd ∧ s.descriptors valueFd = some (.value pin)
  shut : ∀ (i pin : ℕ), pins[i]? = some pin → pin ∉ s.opened →
    s.gpioEdgeFds[i]? = some 0 ∧ s.gpioValueFds[i]? = some 0
  owner : ∀ fd pin, s.descriptors fd = some (.value pin) →
    ∃ i : ℕ, pins[i]? = some pin ∧ pin ∈ s.opened ∧ s.gpioValueFds[i]? = some fd

/-- What the child did, in its files and its epoll. -/
structure Tracked (texts : ℕ → String) (s : Child) : Prop where
  order : taken s.log ++ s.settings = s.asked
  connected : ∀ iset ∈ s.settings, iset.pinNumber ∈ pins
  edge : ∀ pin ∈ s.opened, s.edgeText pin = settingStr (lastSetting pin (written s.log))
  untouched : ∀ pin ∉ s.opened, s.edgeText pin = texts pin
  nodup : s.watched.Nodup
  watched : ∀ pin ∈ s.opened, ∀ fd, s.descriptors fd = some (.value pin) →
    (fd ∈ s.watched ↔ lastSetting pin (taken s.log) ≠ .none)
  enabled : ∀ pin ∈ s.opened, ∀ before after, s.log = before ++ .signaled pin :: after →
    lastSetting pin (taken before) ≠ .none
  quiet : s.turn ≠ pins.length → s.log = [] ∧ s.watched = []

theorem pins_nodup : pins.Nodup := by decide

theorem index_unique {i j pin : ℕ} (hi : pins[i]? = some pin) (hj : pins[j]? = some pin) :
    i = j := by
  obtain ⟨hil, rfl⟩ := List.getElem?_eq_some_iff.mp hi
  obtain ⟨hjl, h⟩ := List.getElem?_eq_some_iff.mp hj
  exact pins_nodup.getElem_inj_iff.mp h.symm

theorem getElem?_of_idxOf? {l : List ℕ} {a i : ℕ} (h : l.idxOf? a = some i) : l[i]? = some a := by
  obtain ⟨hi, he, -⟩ := List.idxOf?_eq_some_iff.mp h
  exact List.getElem?_eq_some_iff.mpr ⟨hi, he⟩

theorem lastSetting_concat (pin : ℕ) (isets : List InterruptSetting) (iset : InterruptSetting) :
    lastSetting pin (isets ++ [iset]) =
      if iset.pinNumber = pin then iset.setting else lastSetting pin isets := by
  unfold lastSetting
  rw [List.filter_append]
  by_cases h : iset.pinNumber = pin
  · simp [h]
  · simp [h]

@[simp] theorem taken_append (log log' : List Entry) :
    taken (log ++ log') = taken log ++ taken log' :=
  List.filterMap_append

@[simp] theorem written_append (log log' : List Entry) :
    written (log ++ log') = written log ++ written log' := List.filterMap_append

theorem writeFile_edge {fd pin : ℕ} {s : Child} (h : s.descriptors fd = some (.edge pin))
    (text : String) (done : Bool) : writeFile fd text done s =
      { s with edgeText := if done then Function.update s.edgeText pin text else s.edgeText } := by
  cases done <;> simp [writeFile, h]

theorem writeFile_other {fd : ℕ} {s : Child} (h : s.descriptors fd = some .other) (text : String)
    (done : Bool) : writeFile fd text done s = s := by
  cases done <;> simp [writeFile, h]

theorem openFile_cases {file : File} {fd : ℕ} {s t : Child} (h : openFile file fd s = some t) :
    s.descriptors fd = none ∧
      t = { s with descriptors := Function.update s.descriptors fd (some file) } := by
  unfold openFile at h
  split_ifs at h with hfree
  exact ⟨hfree, (Option.some.inj h).symm⟩

theorem setupPin_cases {a : Answers} {s t : Child} (h : setupPin a s = some t) :
    ∃ pin, pins[s.turn]? = some pin ∧ (t = { s with turn := s.turn + 1 } ∨
      s.descriptors a.edgeFd = none ∧ s.descriptors a.valueFd = none ∧ a.valueFd ≠ a.edgeFd ∧
        t = { s with
          descriptors := Function.update (Function.update s.descriptors a.edgeFd (some (.edge pin)))
            a.valueFd (some (.value pin))
          edgeText := Function.update s.edgeText pin (settingStr .none)
          gpioEdgeFds := s.gpioEdgeFds.set s.turn a.edgeFd
          gpioValueFds := s.gpioValueFds.set s.turn a.valueFd
          turn := s.turn + 1
          opened := pin :: s.opened }) := by
  unfold setupPin at h
  split at h
  · rename_i pin hpin _ _
    exact ⟨pin, hpin, .inl (Option.some.inj h).symm⟩
  · cases h
  · cases h
  · rename_i pin hpin _ _
    obtain ⟨u, hu, h⟩ := Option.bind_eq_some_iff.mp h
    obtain ⟨v, hv, h⟩ := Option.bind_eq_some_iff.mp h
    obtain ⟨hedge, rfl⟩ := openFile_cases hu
    have hset : Function.update s.descriptors a.edgeFd (some (.edge pin)) a.edgeFd =
        some (.edge pin) := Function.update_self ..
    rw [writeFile_edge hset] at hv
    obtain ⟨hvalue, rfl⟩ := openFile_cases hv
    have hne : a.valueFd ≠ a.edgeFd := by
      intro he
      rw [he] at hvalue
      simp at hvalue
    refine ⟨pin, hpin, .inr ⟨hedge, ?_, hne, (Option.some.inj h).symm⟩⟩
    rw [← hvalue]
    exact (Function.update_of_ne hne _ _).symm

theorem configure_cases {done : Bool} {s t : Child} (h : configure done s = some t) :
    ∃ (iset : InterruptSetting) (settings : List InterruptSetting) (i edgeFd valueFd : ℕ),
      s.settings = iset :: settings ∧ getPinIndex iset.pinNumber = some i ∧
      s.gpioEdgeFds[i]? = some edgeFd ∧ s.gpioValueFds[i]? = some valueFd ∧
      t = { writeFile edgeFd (settingStr iset.setting) done s with
        settings := settings
        watched := reconfigure valueFd (writeFile edgeFd (settingStr iset.setting) done s).watched
          iset.setting
        log := (writeFile edgeFd (settingStr iset.setting) done s).log ++
          [.configured iset done] } := by
  unfold configure at h
  split at h
  · cases h
  · rename_i iset settings hs
    obtain ⟨i, hi, h⟩ := Option.bind_eq_some_iff.mp h
    obtain ⟨edgeFd, hedge, h⟩ := Option.bind_eq_some_iff.mp h
    obtain ⟨valueFd, hvalue, h⟩ := Option.bind_eq_some_iff.mp h
    exact ⟨iset, settings, i, edgeFd, valueFd, hs, hi, hedge, hvalue,
      (Option.some.inj h).symm⟩

theorem interrupt_cases {fd : ℕ} {s t : Child} (h : interrupt fd s = some t) :
    ∃ i pin : ℕ, s.gpioValueFds.idxOf? fd = some i ∧ pins[i]? = some pin ∧
      t = { s with log := s.log ++ [.signaled pin] } := by
  obtain ⟨i, hi, h⟩ := Option.bind_eq_some_iff.mp h
  obtain ⟨pin, hpin, h⟩ := Option.bind_eq_some_iff.mp h
  exact ⟨i, pin, hi, hpin, (Option.some.inj h).symm⟩

theorem wired_booted {texts : ℕ → String} {s : Child} (h : Booted texts s) : Wired s := by
  have hshut (i pin : ℕ) (hpin : pins[i]? = some pin) :
      (List.replicate pins.length 0)[i]? = some 0 := by
    obtain ⟨hi, -⟩ := List.getElem?_eq_some_iff.mp hpin
    rw [List.getElem?_replicate, if_pos hi]
  constructor
  · rw [h.gpioEdgeFds, List.length_replicate]
  · rw [h.gpioValueFds, List.length_replicate]
  · exact h.input
  · intro i pin hpin ho
    rw [h.opened] at ho
    cases ho
  · intro i pin hpin _
    rw [h.gpioEdgeFds, h.gpioValueFds]
    exact ⟨hshut i pin hpin, hshut i pin hpin⟩
  · intro fd pin hfd
    rcases h.closed fd with hnone | hother
    · rw [hnone] at hfd
      cases hfd
    · rw [hother] at hfd
      cases hfd

theorem Wired.not_opened {s : Child} (h : Wired s) {pin : ℕ} (hpin : pins[s.turn]? = some pin) :
    pin ∉ s.opened := fun ho => (h.opened s.turn pin hpin ho).1.false

theorem Wired.congr {s t : Child} (h : Wired s) (descriptors : t.descriptors = s.descriptors)
    (edgeFds : t.gpioEdgeFds = s.gpioEdgeFds) (valueFds : t.gpioValueFds = s.gpioValueFds)
    (turn : s.turn ≤ t.turn) (opened : t.opened = s.opened) : Wired t := by
  constructor
  · rw [edgeFds]
    exact h.edgeFds
  · rw [valueFds]
    exact h.valueFds
  · rw [descriptors]
    exact h.input
  · intro i pin hpin ho
    rw [opened] at ho
    obtain ⟨hlt, hfds⟩ := h.opened i pin hpin ho
    rw [descriptors, edgeFds, valueFds]
    exact ⟨hlt.trans_le turn, hfds⟩
  · intro i pin hpin ho
    rw [edgeFds, valueFds]
    exact h.shut i pin hpin (opened ▸ ho)
  · intro fd pin hfd
    rw [descriptors] at hfd
    rw [valueFds, opened]
    exact h.owner fd pin hfd

theorem wired_setupPin {a : Answers} {s t : Child} (h : Wired s) (hst : setupPin a s = some t) :
    Wired t := by
  obtain ⟨pin, hpin, rfl | ⟨hedge, hvalue, hne, rfl⟩⟩ := setupPin_cases hst
  · exact h.congr rfl rfl rfl (Nat.le_succ _) rfl
  obtain ⟨hturn, -⟩ := List.getElem?_eq_some_iff.mp hpin
  have hkeep (fd : ℕ) (file : File) (hfd : s.descriptors fd = some file) :
      Function.update (Function.update s.descriptors a.edgeFd (some (.edge pin))) a.valueFd
        (some (.value pin)) fd = some file := by
    have he : fd ≠ a.edgeFd := by
      rintro rfl
      rw [hedge] at hfd
      cases hfd
    have hv : fd ≠ a.valueFd := by
      rintro rfl
      rw [hvalue] at hfd
      cases hfd
    rw [Function.update_of_ne hv, Function.update_of_ne he]
    exact hfd
  constructor
  · rw [List.length_set]
    exact h.edgeFds
  · rw [List.length_set]
    exact h.valueFds
  · exact hkeep 0 .other h.input
  · intro i pin' hpin' ho
    rcases List.mem_cons.mp ho with rfl | ho
    · obtain rfl := index_unique hpin' hpin
      refine ⟨Nat.lt_succ_self _, a.edgeFd, a.valueFd, ?_, ?_, ?_, Function.update_self ..⟩
      · exact List.getElem?_set_self (h.edgeFds ▸ hturn)
      · change Function.update _ _ _ _ = _
        rw [Function.update_of_ne hne.symm, Function.update_self]
      · exact List.getElem?_set_self (h.valueFds ▸ hturn)
    · obtain ⟨hlt, e, v, hei, hed, hvi, hvd⟩ := h.opened i pin' hpin' ho
      refine ⟨Nat.lt_succ_of_lt hlt, e, v, ?_, hkeep e _ hed, ?_, hkeep v _ hvd⟩
      · rw [List.getElem?_set_ne hlt.ne']
        exact hei
      · rw [List.getElem?_set_ne hlt.ne']
        exact hvi
  · intro i pin' hpin' ho
    obtain ⟨hother, ho⟩ := not_or.mp (mt List.mem_cons.mpr ho)
    have hi : s.turn ≠ i := by
      rintro rfl
      rw [hpin] at hpin'
      exact hother (Option.some.inj hpin').symm
    rw [List.getElem?_set_ne hi, List.getElem?_set_ne hi]
    exact h.shut i pin' hpin' ho
  · intro fd pin' hfd
    change Function.update _ _ _ fd = _ at hfd
    rw [Function.update_apply, Function.update_apply] at hfd
    split_ifs at hfd with hv he
    · obtain ⟨⟩ := hfd
      refine ⟨s.turn, hpin, List.mem_cons_self, ?_⟩
      rw [hv]
      exact List.getElem?_set_self (h.valueFds ▸ hturn)
    · cases hfd
    · obtain ⟨i, hpin', ho, hi⟩ := h.owner fd pin' hfd
      refine ⟨i, hpin', List.mem_cons_of_mem _ ho, ?_⟩
      rw [List.getElem?_set_ne (h.opened i pin' hpin' ho).1.ne']
      exact hi

theorem Wired.value_unique {s : Child} (h : Wired s) {fd fd' pin : ℕ}
    (hfd : s.descriptors fd = some (.value pin)) (hfd' : s.descriptors fd' = some (.value pin)) :
    fd = fd' := by
  obtain ⟨i, hi, -, hget⟩ := h.owner fd pin hfd
  obtain ⟨j, hj, -, hget'⟩ := h.owner fd' pin hfd'
  obtain rfl := index_unique hi hj
  exact Option.some.inj (hget.symm.trans hget')

theorem Wired.value_entry {s : Child} (h : Wired s) {i fd pin : ℕ} (hpin : pins[i]? = some pin)
    (hfd : s.gpioValueFds[i]? = some fd) (pin' : ℕ) :
    s.descriptors fd = some (.value pin') ↔ pin' = pin ∧ pin ∈ s.opened := by
  by_cases ho : pin ∈ s.opened
  · obtain ⟨-, -, v, -, -, hv, hvd⟩ := h.opened i pin hpin ho
    obtain rfl := Option.some.inj (hfd.symm.trans hv)
    rw [hvd]
    simp [ho, eq_comm]
  · obtain rfl := Option.some.inj (hfd.symm.trans (h.shut i pin hpin ho).2)
    rw [h.input]
    simp [ho]

/-- A setting goes to the files of its pin. Where they were not opened it goes to descriptor 0. -/
theorem configure_spec {done : Bool} {s t : Child} (h : Wired s) (hst : configure done s = some t) :
    ∃ iset settings i valueFd, s.settings = iset :: settings ∧
      getPinIndex iset.pinNumber = some i ∧ s.gpioValueFds[i]? = some valueFd ∧
      (∀ pin, s.descriptors valueFd = some (.value pin) ↔
        pin = iset.pinNumber ∧ iset.pinNumber ∈ s.opened) ∧
      t = { s with
        edgeText := if done = true ∧ iset.pinNumber ∈ s.opened then
            Function.update s.edgeText iset.pinNumber (settingStr iset.setting)
          else s.edgeText
        settings := settings
        watched := reconfigure valueFd s.watched iset.setting
        log := s.log ++ [.configured iset done] } := by
  obtain ⟨iset, settings, i, edgeFd, valueFd, hs, hi, hedge, hvalue, rfl⟩ := configure_cases hst
  have hpin := getElem?_of_idxOf? hi
  refine ⟨iset, settings, i, valueFd, hs, hi, hvalue, h.value_entry hpin hvalue, ?_⟩
  by_cases ho : iset.pinNumber ∈ s.opened
  · obtain ⟨-, e, -, he, hed, -, -⟩ := h.opened i _ hpin ho
    obtain rfl := Option.some.inj (hedge.symm.trans he)
    rw [writeFile_edge hed]
    simp [ho]
  · obtain rfl := Option.some.inj (hedge.symm.trans (h.shut i _ hpin ho).1)
    rw [writeFile_other h.input]
    simp [ho]

theorem mem_reconfigure {watched : List ℕ} (h : watched.Nodup) (valueFd fd : ℕ) (set : Setting) :
    fd ∈ reconfigure valueFd watched set ↔ if fd = valueFd then set ≠ .none else fd ∈ watched := by
  by_cases heq : fd = valueFd
  · subst heq
    cases set with
    | none => simp [reconfigure, h.mem_erase_iff]
    | rising | falling => simp [reconfigure]
  · cases set with
    | none => simp [reconfigure, h.mem_erase_iff, heq]
    | rising | falling => simp [reconfigure, heq]

theorem nodup_reconfigure {watched : List ℕ} (h : watched.Nodup) (valueFd : ℕ) (set : Setting) :
    (reconfigure valueFd watched set).Nodup := by
  cases set with
  | none => exact h.erase _
  | rising | falling => exact h.insert

theorem wired_step {s t : Child} {e : Event} (h : Wired s) (hst : step s e = some t) :
    Wired t := by
  cases e with
  | enableRisingEdge | enableFallingEdge | disable =>
    obtain rfl := Option.some.inj hst
    exact h.congr rfl rfl rfl le_rfl rfl
  | setupPin a => exact wired_setupPin h hst
  | configure done =>
    obtain ⟨-, hst⟩ := Option.ite_none_right_eq_some.mp hst
    obtain ⟨iset, settings, i, valueFd, -, -, -, -, rfl⟩ := configure_spec h hst
    exact h.congr rfl rfl rfl le_rfl rfl
  | interrupt fd =>
    obtain ⟨-, hst⟩ := Option.ite_none_right_eq_some.mp hst
    obtain ⟨i, pin, -, -, rfl⟩ := interrupt_cases hst
    exact h.congr rfl rfl rfl le_rfl rfl

theorem tracked_booted {texts : ℕ → String} {s : Child} (h : Booted texts s) : Tracked texts s := by
  have hopened (pin : ℕ) : pin ∉ s.opened := by simp [h.opened]
  constructor
  · rw [h.log, h.settings, h.asked]
    rfl
  · rw [h.settings]
    exact List.forall_mem_nil _
  · exact fun pin ho => absurd ho (hopened pin)
  · exact fun pin _ => congrFun h.edgeText pin
  · rw [h.watched]
    exact .nil
  · exact fun pin ho => absurd ho (hopened pin)
  · exact fun pin ho => absurd ho (hopened pin)
  · exact fun _ => ⟨h.log, h.watched⟩

theorem tracked_configureInterrupt {texts : ℕ → String} {s : Child} (h : Tracked texts s)
    {pinNumber : UInt8} (hpin : pinNumber.toNat ∈ pins) (set : Setting) :
    Tracked texts (configureInterrupt pinNumber set s) := by
  constructor
  · change taken s.log ++ (s.settings ++ [_]) = s.asked ++ [_]
    rw [← h.order, List.append_assoc]
  · exact List.forall_mem_append.mpr ⟨h.connected, List.forall_mem_singleton.mpr hpin⟩
  · exact h.edge
  · exact h.untouched
  · exact h.nodup
  · exact h.watched
  · exact h.enabled
  · exact h.quiet

theorem tracked_setupPin {texts : ℕ → String} {a : Answers} {s t : Child} (hw : Wired s)
    (h : Tracked texts s) (hst : setupPin a s = some t) : Tracked texts t := by
  obtain ⟨pin, hpin, ht⟩ := setupPin_cases hst
  obtain ⟨hturn, -⟩ := List.getElem?_eq_some_iff.mp hpin
  obtain ⟨hlog, hwatched⟩ := h.quiet hturn.ne
  rcases ht with rfl | ⟨-, -, -, rfl⟩
  · exact ⟨h.order, h.connected, h.edge, h.untouched, h.nodup, h.watched, h.enabled,
      fun _ => ⟨hlog, hwatched⟩⟩
  constructor
  · exact h.order
  · exact h.connected
  · intro pin' ho
    change Function.update _ _ _ pin' = _
    rcases List.mem_cons.mp ho with rfl | hin
    · rw [Function.update_self, show Child.log _ = [] from hlog]
      rfl
    · have hne : pin' ≠ pin := by
        rintro rfl
        exact hw.not_opened hpin hin
      rw [Function.update_of_ne hne]
      exact h.edge pin' hin
  · intro pin' ho
    obtain ⟨hne, ho⟩ := not_or.mp (mt List.mem_cons.mpr ho)
    change Function.update _ _ _ pin' = _
    rw [Function.update_of_ne hne]
    exact h.untouched pin' ho
  · exact h.nodup
  · intro pin' _ fd _
    change fd ∈ s.watched ↔ lastSetting pin' (taken s.log) ≠ .none
    rw [hwatched, hlog]
    exact iff_of_false (List.not_mem_nil) (not_not.mpr rfl)
  · intro pin' _ before after heq
    change s.log = _ at heq
    rw [hlog] at heq
    exact absurd heq (by simp)
  · exact fun _ => ⟨hlog, hwatched⟩

theorem tracked_configure {texts : ℕ → String} {done : Bool} {s t : Child} (hw : Wired s)
    (hturn : s.turn = pins.length) (h : Tracked texts s) (hst : configure done s = some t) :
    Tracked texts t := by
  obtain ⟨iset, settings, i, valueFd, hs, -, -, hvalue, rfl⟩ := configure_spec hw hst
  have htaken : taken (s.log ++ [.configured iset done]) = taken s.log ++ [iset] :=
    taken_append _ _
  constructor
  · change taken (s.log ++ _) ++ settings = s.asked
    rw [htaken, ← h.order, hs, List.append_assoc, List.singleton_append]
  · have hall := h.connected
    rw [hs] at hall
    exact (List.forall_mem_cons.mp hall).2
  · intro pin ho
    change (if _ then _ else _ : ℕ → String) pin =
      settingStr (lastSetting pin (written (s.log ++ _)))
    cases done with
    | false =>
      rw [if_neg (by simp), written_append, show written [.configured iset false] = [] from rfl,
        List.append_nil]
      exact h.edge pin ho
    | true =>
      rw [written_append, show written [.configured iset true] = [iset] from rfl,
        lastSetting_concat]
      by_cases hpin : iset.pinNumber = pin
      · rw [hpin, if_pos ⟨rfl, ho⟩, if_pos rfl, Function.update_self]
      · rw [if_neg hpin, ← h.edge pin ho]
        split_ifs
        · exact Function.update_of_ne (Ne.symm hpin) _ _
        · rfl
  · intro pin ho
    change (if _ then _ else _ : ℕ → String) pin = _
    rw [← h.untouched pin ho]
    split_ifs with hdone
    · have hne : pin ≠ iset.pinNumber := by
        rintro rfl
        exact ho hdone.2
      exact Function.update_of_ne hne _ _
    · rfl
  · exact nodup_reconfigure h.nodup _ _
  · intro pin ho fd hfd
    change fd ∈ reconfigure valueFd s.watched iset.setting ↔
      lastSetting pin (taken (s.log ++ _)) ≠ _
    rw [mem_reconfigure h.nodup, htaken, lastSetting_concat]
    have hown : fd = valueFd ↔ iset.pinNumber = pin := by
      constructor
      · rintro rfl
        exact ((hvalue pin).mp hfd).1.symm
      · rintro rfl
        exact hw.value_unique hfd ((hvalue _).mpr ⟨rfl, ho⟩)
    by_cases hpin : iset.pinNumber = pin
    · rw [if_pos (hown.mpr hpin), if_pos hpin]
    · rw [if_neg (mt hown.mp hpin), if_neg hpin]
      exact h.watched pin ho fd hfd
  · intro pin ho before after heq
    rcases List.append_eq_append_iff.mp heq with ⟨mid, rfl, hmid⟩ | ⟨mid, hlog, hmid⟩
    · cases mid <;> simp at hmid
    · cases mid with
      | nil => simp at hmid
      | cons entry mid =>
        obtain ⟨rfl, -⟩ := List.cons.inj hmid
        exact h.enabled pin ho before mid hlog
  · exact fun hne => absurd hturn hne

theorem tracked_interrupt {texts : ℕ → String} {fd : ℕ} {s t : Child} (hw : Wired s)
    (hturn : s.turn = pins.length) (hfd : fd ∈ s.watched) (h : Tracked texts s)
    (hst : interrupt fd s = some t) : Tracked texts t := by
  obtain ⟨i, pin, hi, hpin, rfl⟩ := interrupt_cases hst
  have hget := getElem?_of_idxOf? hi
  have htaken : taken (s.log ++ [.signaled pin]) = taken s.log := by
    rw [taken_append, show taken [.signaled pin] = [] from rfl, List.append_nil]
  have hwritten : written (s.log ++ [.signaled pin]) = written s.log := by
    rw [written_append, show written [.signaled pin] = [] from rfl, List.append_nil]
  constructor
  · change taken (s.log ++ _) ++ _ = _
    rw [htaken]
    exact h.order
  · exact h.connected
  · intro pin' ho
    change _ = settingStr (lastSetting pin' (written (s.log ++ _)))
    rw [hwritten]
    exact h.edge pin' ho
  · exact h.untouched
  · exact h.nodup
  · intro pin' ho fd' hfd'
    change _ ↔ lastSetting pin' (taken (s.log ++ _)) ≠ _
    rw [htaken]
    exact h.watched pin' ho fd' hfd'
  · intro pin' ho before after heq
    rcases List.append_eq_append_iff.mp heq with ⟨mid, rfl, hmid⟩ | ⟨mid, hlog, hmid⟩
    · -- the new signal
      obtain ⟨rfl, rfl⟩ : mid = [] ∧ pin = pin' := by
        cases mid with
        | nil => exact ⟨rfl, (by simpa using hmid : pin = pin' ∧ after = []).1⟩
        | cons => simp at hmid
      rw [List.append_nil]
      exact (h.watched pin ho fd ((hw.value_entry hpin hget pin).mpr ⟨rfl, ho⟩)).mp hfd
    · cases mid with
      | nil =>
        obtain ⟨rfl, -⟩ : pin' = pin ∧ after = [] := by simpa using hmid
        rw [← List.append_nil before, ← hlog]
        exact (h.watched pin' ho fd ((hw.value_entry hpin hget pin').mpr ⟨rfl, ho⟩)).mp hfd
      | cons entry mid =>
        obtain ⟨rfl, -⟩ := List.cons.inj hmid
        exact h.enabled pin' ho before mid hlog
  · exact fun hne => absurd hturn hne

theorem tracked_step {texts : ℕ → String} {s t : Child} {e : Event} (hw : Wired s)
    (h : Tracked texts s) (ok : Connected s e) (hst : step s e = some t) : Tracked texts t := by
  cases e with
  | enableRisingEdge | enableFallingEdge | disable =>
    obtain rfl := Option.some.inj hst
    exact tracked_configureInterrupt h ok _
  | setupPin a => exact tracked_setupPin hw h hst
  | configure done =>
    obtain ⟨hturn, hst⟩ := Option.ite_none_right_eq_some.mp hst
    exact tracked_configure hw hturn h hst
  | interrupt fd =>
    obtain ⟨⟨hturn, hfd⟩, hst⟩ := Option.ite_none_right_eq_some.mp hst
    exact tracked_interrupt hw hturn hfd h hst

theorem Wired.passed {s t : Child} (h : Wired s) {pin fd : ℕ}
    (hfd : s.descriptors fd = some (.value pin)) (hst : step s (.interrupt fd) = some t) :
    t.log = s.log ++ [.signaled pin] := by
  obtain ⟨-, hst⟩ := Option.ite_none_right_eq_some.mp hst
  obtain ⟨i, pin', hi, hpin, rfl⟩ := interrupt_cases hst
  obtain ⟨rfl, -⟩ := (h.value_entry hpin (getElem?_of_idxOf? hi) pin).mp hfd
  rfl

theorem written_of_done {log : List Entry}
    (h : ∀ iset done, .configured iset done ∈ log → done = true) : written log = taken log := by
  unfold written taken
  apply List.filterMap_congr
  intro entry hentry
  cases entry with
  | signaled => rfl
  | configured iset done =>
    obtain rfl := h iset done hentry
    rfl

theorem isSome_configure {s : Child} (h : Wired s) {iset : InterruptSetting}
    {settings : List InterruptSetting} (hs : s.settings = iset :: settings)
    (hpin : iset.pinNumber ∈ pins) (done : Bool) : (configure done s).isSome := by
  obtain ⟨i, hi⟩ := Option.isSome_iff_exists.mp (List.isSome_idxOf?.mpr hpin)
  have hlt : i < pins.length := (List.getElem?_eq_some_iff.mp (getElem?_of_idxOf? hi)).1
  have hedge := List.getElem?_eq_getElem (h.edgeFds ▸ hlt)
  have hvalue := List.getElem?_eq_getElem (h.valueFds ▸ hlt)
  have hindex : getPinIndex iset.pinNumber = some i := hi
  simp [configure, hs, hindex, hedge, hvalue]

/-- All pins were opened, and another model of the child has the same in its pipe and its epoll and
passed the same edges on. -/
structure Matches {σ : Type*} (files : GpioValueFds) (s : Child) (g : State σ) : Prop where
  turn : s.turn = pins.length
  fds : files.fds = s.gpioValueFds
  settings : g.settings = s.settings
  watched : g.watched = s.watched
  consumed : g.consumed = signaled s.log

theorem Wired.nodup {s : Child} (h : Wired s) (all : ∀ pin ∈ pins, pin ∈ s.opened) :
    s.gpioValueFds.Nodup := by
  rw [List.nodup_iff_getElem?_ne_getElem?]
  intro i j hij hj heq
  have hjl : j < pins.length := h.valueFds ▸ hj
  have hil : i < pins.length := hij.trans hjl
  have hi := List.getElem?_eq_getElem hil
  have hj := List.getElem?_eq_getElem hjl
  obtain ⟨-, -, v, -, -, hv, hvd⟩ := h.opened i _ hi (all _ (List.getElem_mem hil))
  have hown := (h.value_entry hj (heq ▸ hv) _).mp hvd
  rw [← hown.1] at hj
  exact hij.ne (index_unique hi hj)

/-- What the child does after its first loop, the model it was given for its signals does. -/
theorem exists_step_of_matches {σ : Type*} [DecidableEq σ] {files : GpioValueFds} (sigusr1 : σ)
    {s t : Child} {g : State σ} {e : Event} (hw : Wired s) (m : Matches files s g)
    (hst : step s e = some t) :
    ∃ e' g', GpioInterrupt.step files sigusr1 g e' = some g' ∧ Matches files t g' := by
  obtain ⟨turn, fds, settings, watched, consumed⟩ := m
  have hask (pin : UInt8) (set : Setting) :
      Matches files (configureInterrupt pin set s)
        (GpioInterrupt.configureInterrupt ⟨pin.toNat, set⟩ g) := by
    refine ⟨turn, fds, ?_, watched, consumed⟩
    change g.settings ++ _ = s.settings ++ _
    rw [settings]
  cases e with
  | enableRisingEdge pin =>
    obtain rfl := Option.some.inj hst
    exact ⟨.configureInterrupt ⟨pin.toNat, .rising⟩, _, rfl, hask pin .rising⟩
  | enableFallingEdge pin =>
    obtain rfl := Option.some.inj hst
    exact ⟨.configureInterrupt ⟨pin.toNat, .falling⟩, _, rfl, hask pin .falling⟩
  | disable pin =>
    obtain rfl := Option.some.inj hst
    exact ⟨.configureInterrupt ⟨pin.toNat, .none⟩, _, rfl, hask pin .none⟩
  | setupPin a =>
    obtain ⟨pin, hpin, -⟩ := setupPin_cases hst
    obtain ⟨hlt, -⟩ := List.getElem?_eq_some_iff.mp hpin
    exact absurd turn hlt.ne
  | configure done =>
    obtain ⟨-, hst⟩ := Option.ite_none_right_eq_some.mp hst
    obtain ⟨iset, rest, i, valueFd, hs, hi, hvalue, -, rfl⟩ := configure_spec hw hst
    refine ⟨.configure, { g with
      settings := rest, watched := reconfigure valueFd s.watched iset.setting }, ?_, ?_⟩
    · have hfd : files.fds[i]? = some valueFd := by rw [fds, hvalue]
      simp only [GpioInterrupt.step, GpioInterrupt.configure, settings, hs, hi, hfd, watched,
        Option.bind_some, Option.map_some]
      cases iset.setting <;> rfl
    · refine ⟨turn, fds, rfl, rfl, ?_⟩
      change g.consumed = signaled (s.log ++ [.configured iset done])
      rw [consumed, signaled, signaled, List.filterMap_append]
      exact (List.append_nil _).symm
  | interrupt fd =>
    obtain ⟨⟨-, hfd⟩, hst⟩ := Option.ite_none_right_eq_some.mp hst
    obtain ⟨i, pin, hi, hpin, rfl⟩ := interrupt_cases hst
    refine ⟨.interrupt i, sigqueue sigusr1 pin { g with consumed := g.consumed ++ [pin] }, ?_, ?_⟩
    · have hget : files.fds[i]? = some fd := by rw [fds, getElem?_of_idxOf? hi]
      have hidx : files.fds.idxOf? fd = some i := by rw [fds, hi]
      simp only [GpioInterrupt.step, GpioInterrupt.interrupt, hpin, hget, hidx, watched, if_pos hfd,
        Option.bind_some, Option.map_some]
    · refine ⟨turn, fds, settings, watched, ?_⟩
      change g.consumed ++ [pin] = signaled (s.log ++ [.signaled pin])
      rw [consumed, signaled, signaled, List.filterMap_append]
      rfl

theorem exists_run_of_matches {σ : Type*} [DecidableEq σ] {files : GpioValueFds} (sigusr1 : σ)
    {texts : ℕ → String} {s t : Child} {g : State σ} (hw : Wired s) (m : Matches files s g)
    (es : List Event) (hr : (machine texts).run s es = some t) :
    ∃ es' g', (GpioInterrupt.machine files sigusr1).run g es' = some g' ∧ Matches files t g' := by
  induction es generalizing s g with
  | nil =>
    cases hr
    exact ⟨[], g, rfl, m⟩
  | cons e es ih =>
    obtain ⟨u, hu, hr⟩ := Option.bind_eq_some_iff.mp hr
    obtain ⟨e', g', hg', m'⟩ := exists_step_of_matches sigusr1 hw m hu
    obtain ⟨es', g'', hg'', m''⟩ := ih (wired_step hw hu) m' hr
    refine ⟨e' :: es', g'', ?_, m''⟩
    rw [Machine.run_cons]
    exact Option.bind_eq_some_iff.mpr ⟨g', hg', hg''⟩

/-- Where no pin was busy the descriptors are as the model for the signals has them. -/
theorem exists_run_of_opened {σ : Type*} [DecidableEq σ] (sigusr1 : σ) {texts : ℕ → String}
    {s t : Child} {g : State σ} (h : (machine texts).Reachable Machine.Any s)
    (turn : s.turn = pins.length) (all : ∀ pin ∈ pins, pin ∈ s.opened)
    (settings : g.settings = s.settings) (watched : g.watched = s.watched)
    (consumed : g.consumed = signaled s.log) (es : List Event)
    (hr : (machine texts).run s es = some t) :
    ∃ files es' g', (GpioInterrupt.machine files sigusr1).run g es' = some g' ∧
      Matches files t g' := by
  have hw : Wired s := by
    apply h.invariant (I := Wired)
    · exact fun u hu => wired_booted hu
    · exact fun u e v hu _ hst => wired_step hu hst
  let files : GpioValueFds := ⟨s.gpioValueFds, hw.valueFds, hw.nodup all⟩
  exact ⟨files, exists_run_of_matches sigusr1 hw ⟨turn, rfl, settings, watched, consumed⟩ es hr⟩

instance (s : Child) : DecidablePred (Connected s)
  | .enableRisingEdge bcmPin | .enableFallingEdge bcmPin | .disable bcmPin =>
      inferInstanceAs (Decidable (bcmPin.toNat ∈ pins))
  | .setupPin _ | .configure _ | .interrupt _ => isTrue trivial

def boot : Child :=
  { descriptors := fun fd => if fd < 3 then some .other else none
    edgeText := fun _ => "both"
    gpioEdgeFds := List.replicate pins.length 0
    gpioValueFds := List.replicate pins.length 0
    turn := 0
    opened := []
    watched := []
    settings := []
    asked := []
    log := [] }

/-- Pin 2 is busy, the others get the descriptors from 3 on. Pin 8 is enabled for rising edges and
disabled after one, pin 7 is enabled for falling edges in between. -/
def session : List Event :=
  .setupPin ⟨false, .ebusy, 0, 0⟩ :: .enableRisingEdge 8 ::
    (List.range 9).map (fun i => .setupPin ⟨true, .done, 3 + 2 * i, 4 + 2 * i⟩) ++
    [.configure true, .interrupt 6, .enableFallingEdge 7, .disable 8, .configure true, .interrupt 4,
      .configure true]

end RpiCc2520.GpioSettings
