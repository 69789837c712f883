import RpiCc2520.EventMachine

/-! The names of the server's TUN interfaces and which of them are taken. -/
namespace RpiCc2520.TunnelNames

def tunIdMin : ℕ := 0
def tunIdMax : ℕ := 15

/-- An id that is not in the map is not set. -/
structure TunManager where
  tunset : ℤ → Bool

def createTunIds : TunManager := ⟨fun _ => false⟩

def itoa (n : ℤ) : String := toString n

/-- The decimal value of a run of digits. -/
def digits (cs : List Char) : Option ℕ :=
  if cs = [] then none
  else cs.foldl (fun n c => n.bind fun n =>
    if c.isDigit then some (10 * n + (c.toNat - '0'.toNat)) else none) (some 0)

/-- `strconv.Atoi`, 0 on a syntax error. -/
def atoi (cs : List Char) : ℤ :=
  match cs with
  | '-' :: cs => -((digits cs).getD 0 : ℕ)
  | '+' :: cs => ((digits cs).getD 0 : ℕ)
  | cs => ((digits cs).getD 0 : ℕ)

def trimLeft (s cutset : String) : List Char :=
  s.toList.dropWhile fun c => c ∈ cutset.toList

/-- The ids the loop of `getNewTunName` tries, in order. -/
def tunIds : List ℤ := (List.range' tunIdMin (tunIdMax + 1 - tunIdMin)).map Int.ofNat

/-- `getNewTunName`. With every id set the loop ends and the id stays 0. -/
def getNewTunName (t : TunManager) : String × TunManager :=
  match tunIds.find? fun i => !t.tunset i with
  | some i => ("tun" ++ itoa i, ⟨Function.update t.tunset i true⟩)
  | none => ("tun" ++ itoa 0, t)

def unsetTunName (tunid : String) (t : TunManager) : TunManager :=
  ⟨Function.update t.tunset (atoi (trimLeft tunid "tun")) false⟩

def tunName (i : ℤ) : String := "tun" ++ itoa i

/-- The manager and the names its users hold, one entry a holder. -/
structure Names where
  tunids : TunManager
  held : List String

inductive Event
  | getNewTunName
  | unsetTunName (tunid : String)

/-- A name is released only by a holder. -/
def step (s : Names) : Event → Option Names
  | .getNewTunName =>
      let (tunid, tunids) := getNewTunName s.tunids
      some ⟨tunids, tunid :: s.held⟩
  | .unsetTunName tunid =>
      if tunid ∈ s.held then some ⟨unsetTunName tunid s.tunids, s.held.erase tunid⟩ else none

def machine : Machine Names Event := ⟨fun s => s = ⟨createTunIds, []⟩, step⟩

/-- No two holders share a name, the marked ids are those of the held names, and releasing a
held name frees its id only. -/
structure NamesKept (s : Names) : Prop where
  distinct : s.held.Nodup
  named : ∀ tunid ∈ s.held, ∃ i, tunid = tunName i
  marked : ∀ i, s.tunids.tunset i = true ↔ tunName i ∈ s.held
  freed : ∀ i, tunName i ∈ s.held →
    unsetTunName (tunName i) s.tunids = ⟨Function.update s.tunids.tunset i false⟩

/-- A name is asked for only while some id from `tunIdMin` to `tunIdMax` is not marked. -/
def FreeId (s : Names) : Event → Prop
  | .getNewTunName => ∃ i ∈ tunIds, s.tunids.tunset i = false
  | .unsetTunName _ => True

instance (s : Names) : (e : Event) → Decidable (FreeId s e)
  | .getNewTunName => inferInstanceAs (Decidable (∃ i ∈ tunIds, s.tunids.tunset i = false))
  | .unsetTunName _ => isTrue trivial

theorem digits_fold (cs : List Char) (h : ∀ c ∈ cs, c.isDigit = true) (n : ℕ) :
    cs.foldl (fun n c => n.bind fun n =>
      if c.isDigit then some (10 * n + (c.toNat - '0'.toNat)) else none) (some n) =
        some (Nat.ofDigitChars 10 cs n) := by
  induction cs generalizing n with
  | nil => rfl
  | cons c cs ih =>
    have hc : c.isDigit = true := h c List.mem_cons_self
    rw [List.foldl_cons, Option.bind_some, if_pos hc, Nat.ofDigitChars_cons]
    exact ih (fun d hd => h d (List.mem_cons_of_mem c hd)) _

theorem digits_toDigits (n : ℕ) : digits (Nat.toDigits 10 n) = some n := by
  unfold digits
  rw [if_neg Nat.toDigits_ne_nil, digits_fold, Nat.ofDigitChars_ten_toDigits]
  intro c hc
  exact Nat.isDigit_of_mem_toDigits (by omega) (by omega) hc

theorem toDigits_head (n : ℕ) : ∃ c cs, Nat.toDigits 10 n = c :: cs ∧ c.isDigit = true := by
  obtain ⟨c, cs, h⟩ := List.exists_cons_of_ne_nil (Nat.toDigits_ne_nil (n := n) (b := 10))
  refine ⟨c, cs, h, ?_⟩
  apply Nat.isDigit_of_mem_toDigits (b := 10) (n := n) (by omega) (by omega)
  simp [h]

theorem atoi_toDigits (n : ℕ) : atoi (Nat.toDigits 10 n) = n := by
  have hd := digits_toDigits n
  obtain ⟨c, cs, h, hc⟩ := toDigits_head n
  rw [h] at hd ⊢
  unfold atoi
  split
  · simp_all
  · simp_all
  · simp [hd]

theorem trimLeft_tun {s : String} {c : Char} {cs : List Char} (h : s.toList = c :: cs)
    (hc : c ∉ "tun".toList) : trimLeft ("tun" ++ s) "tun" = s.toList := by
  have hall : ∀ d ∈ "tun".toList, decide (d ∈ "tun".toList) = true := by simp
  rw [trimLeft, String.toList_append, h, List.dropWhile_append_of_pos hall]
  exact List.dropWhile_cons_of_neg (by simpa using hc)

theorem isDigit_not_stem {c : Char} (h : c.isDigit = true) : c ∉ "tun".toList := by
  intro hm
  have : c = 't' ∨ c = 'u' ∨ c = 'n' := by simpa using hm
  rcases this with rfl | rfl | rfl <;> exact absurd h (by decide)

theorem atoi_tunName (i : ℤ) : atoi (trimLeft (tunName i) "tun") = i := by
  cases i with
  | ofNat n =>
    have hs : (itoa (Int.ofNat n)).toList = Nat.toDigits 10 n := Nat.toList_repr
    obtain ⟨c, cs, h, hc⟩ := toDigits_head n
    rw [tunName, trimLeft_tun (hs.trans h) (isDigit_not_stem hc), hs, atoi_toDigits]
    rfl
  | negSucc n =>
    have hs : (itoa (Int.negSucc n)).toList = '-' :: Nat.toDigits 10 (n + 1) := by
      have : itoa (Int.negSucc n) = "-" ++ Nat.repr (n + 1) := rfl
      rw [this, String.toList_append, Nat.toList_repr]
      rfl
    rw [tunName, trimLeft_tun hs (by decide), hs]
    simp only [atoi, digits_toDigits, Option.getD_some]
    rfl

theorem tunName_injective : Function.Injective tunName := by
  intro i j h
  rw [← atoi_tunName i, h, atoi_tunName]

theorem unsetTunName_tunName (i : ℤ) (t : TunManager) :
    unsetTunName (tunName i) t = ⟨Function.update t.tunset i false⟩ := by
  rw [unsetTunName, atoi_tunName]

theorem getNewTunName_cases (t : TunManager) :
    (∃ i ∈ tunIds, t.tunset i = false ∧
      getNewTunName t = (tunName i, ⟨Function.update t.tunset i true⟩)) ∨
    ((∀ i ∈ tunIds, t.tunset i = true) ∧ getNewTunName t = (tunName 0, t)) := by
  unfold getNewTunName
  cases h : tunIds.find? fun i => !t.tunset i with
  | some i =>
    have hf := List.find?_some h
    exact .inl ⟨i, List.mem_of_find?_eq_some h, by simpa using hf, rfl⟩
  | none =>
    have hall := List.find?_eq_none.mp h
    exact .inr ⟨fun i hi => by simpa using hall i hi, rfl⟩

theorem step_getNewTunName (s : Names) : step s .getNewTunName =
    some ⟨(getNewTunName s.tunids).2, (getNewTunName s.tunids).1 :: s.held⟩ := rfl

theorem namesKept_initial {s : Names} (h : machine.initial s) : NamesKept s := by
  subst h
  constructor
  · exact List.nodup_nil
  · simp
  · simp [createTunIds]
  · simp

theorem namesKept_getNewTunName {s : Names} (h : NamesKept s) {i : ℤ}
    (hi : s.tunids.tunset i = false) :
    NamesKept ⟨⟨Function.update s.tunids.tunset i true⟩, tunName i :: s.held⟩ := by
  have hfree : tunName i ∉ s.held := by
    intro hm
    rw [(h.marked i).mpr hm] at hi
    cases hi
  constructor
  · exact List.nodup_cons.mpr ⟨hfree, h.distinct⟩
  · intro tunid hm
    rcases List.mem_cons.mp hm with rfl | hm
    · exact ⟨i, rfl⟩
    · exact h.named tunid hm
  · intro j
    by_cases hj : j = i
    · simp [hj]
    · have hne : tunName j ≠ tunName i := fun he => hj (tunName_injective he)
      simp [Function.update_of_ne hj, hne, h.marked j]
  · intro j _
    exact unsetTunName_tunName j _

theorem namesKept_unsetTunName {s : Names} (h : NamesKept s) {tunid : String}
    (hm : tunid ∈ s.held) :
    NamesKept ⟨unsetTunName tunid s.tunids, s.held.erase tunid⟩ := by
  obtain ⟨i, rfl⟩ := h.named tunid hm
  rw [unsetTunName_tunName]
  constructor
  · exact h.distinct.erase _
  · intro name hn
    exact h.named name (List.mem_of_mem_erase hn)
  · intro j
    by_cases hj : j = i
    · subst hj
      simp [h.distinct.mem_erase_iff]
    · have hne : tunName j ≠ tunName i := fun he => hj (tunName_injective he)
      simp [Function.update_of_ne hj, List.mem_erase_of_ne hne, h.marked j]
  · intro j _
    exact unsetTunName_tunName j _

theorem namesKept_step {s t : Names} {e : Event} (h : NamesKept s) (ok : FreeId s e)
    (hst : step s e = some t) : NamesKept t := by
  cases e with
  | getNewTunName =>
    rw [step_getNewTunName] at hst
    rcases getNewTunName_cases s.tunids with ⟨i, -, hi, he⟩ | ⟨hall, -⟩
    · rw [he] at hst
      obtain rfl := Option.some.inj hst
      exact namesKept_getNewTunName h hi
    · obtain ⟨i, hi, hf⟩ := ok
      rw [hall i hi] at hf
      cases hf
  | unsetTunName tunid =>
    simp only [step, Option.ite_none_right_eq_some, Option.some.injEq] at hst
    obtain ⟨hm, rfl⟩ := hst
    exact namesKept_unsetTunName h hm

/-- With every id marked the caller gets the name of a holder. -/
theorem duplicate_of_exhausted {s t : Names} (h : NamesKept s)
    (hall : ∀ i ∈ tunIds, s.tunids.tunset i = true)
    (hst : step s .getNewTunName = some t) : ¬t.held.Nodup := by
  rw [step_getNewTunName] at hst
  rcases getNewTunName_cases s.tunids with ⟨i, hi, hf, -⟩ | ⟨-, he⟩
  · rw [hall i hi] at hf
    cases hf
  · rw [he] at hst
    obtain rfl := Option.some.inj hst
    intro hn
    exact (List.nodup_cons.mp hn).1 ((h.marked 0).mp (hall 0 (by decide)))

/-- While an id is free whenever a name is asked for, holders are told apart; the first call
that finds none free breaks it. -/
theorem namesKept_of_freeId (s : Names) (h : machine.Reachable FreeId s) :
    NamesKept s ∧ ∀ t, step s .getNewTunName = some t →
      (NamesKept t ↔ FreeId s .getNewTunName) := by
  have hs : NamesKept s :=
    h.invariant (fun _ => namesKept_initial) fun _ _ _ => namesKept_step
  refine ⟨hs, ?_⟩
  intro t hst
  constructor
  · intro ht
    by_contra hfull
    apply duplicate_of_exhausted hs _ hst ht.distinct
    intro i hi
    by_contra hf
    exact hfull ⟨i, hi, by simpa using hf⟩
  · intro ok
    exact namesKept_step hs ok hst

theorem start_reachable (ok : Names → Event → Prop) :
    machine.Reachable ok ⟨createTunIds, []⟩ := .start rfl

/-- A released name is handed out again. -/
theorem namesKept_of_freeId_reused :
    ∃ s, machine.Reachable FreeId s ∧ s.held = ["tun0", "tun1"] ∧ NamesKept s := by
  have hrun : (machine.runMeeting FreeId ⟨createTunIds, []⟩ [.getNewTunName, .getNewTunName,
      .unsetTunName "tun0", .getNewTunName]).map Names.held = some ["tun0", "tun1"] := by
    decide +kernel
  obtain ⟨s, hs, hh⟩ := Option.map_eq_some_iff.mp hrun
  have hr := (start_reachable FreeId).runMeeting _ hs
  exact ⟨s, hr, hh, (namesKept_of_freeId s hr).1⟩

/-- The seventeenth holder gets the name of the first, and when one of the two releases it, it is
free although the other holds it. -/
theorem seventeenth_name_shared :
    ∃ s, machine.Reachable Machine.Any s ∧ s.held.count "tun0" = 2 ∧ ¬NamesKept s := by
  have hrun : (machine.run ⟨createTunIds, []⟩ (List.replicate 17 .getNewTunName)).map
      (fun s => s.held.count "tun0") = some 2 := by decide +kernel
  obtain ⟨s, hs, hc⟩ := Option.map_eq_some_iff.mp hrun
  refine ⟨s, (start_reachable Machine.Any).run _ hs, hc, ?_⟩
  intro hk
  have := List.nodup_iff_count_le_one.mp hk.distinct "tun0"
  omega

end RpiCc2520.TunnelNames
