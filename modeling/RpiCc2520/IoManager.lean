import RpiCc2520.EventMachine

/-! The table of descriptors the sleeping process waits on. An entry of 1 means nothing is
registered, and the table is filled with it on the first registration. -/
namespace RpiCc2520.IoManager

/-- `map`, `rfds` and `is_init` of the component with `n` ids, and what its users have
registered. -/
structure Table (n : ℕ) where
  map : Fin n → UInt8
  rfds : Finset ℕ
  isInit : Bool
  registered : Fin n → Option ℕ

variable {n : ℕ}

def boot : Table n := ⟨fun _ => 0, ∅, false, fun _ => none⟩

/-- `IO.registerFileDescriptor`. The entry keeps the low byte. -/
def registerFileDescriptor (id : Fin n) (fd : ℕ) (s : Table n) : Table n :=
  let map := if s.isInit then s.map else fun _ => 0x01
  { s with
    map := Function.update map id (UInt8.ofNat fd)
    isInit := true
    registered := Function.update s.registered id (some fd) }

/-- `IO.unregisterFileDescriptor`; the descriptor it is given is not looked at. -/
def unregisterFileDescriptor (id : Fin n) (s : Table n) : Table n :=
  if s.isInit then
    { s with
      map := Function.update s.map id 1
      registered := Function.update s.registered id none }
  else s

/-- One turn of the loop that fills the set. The sum is an `int`, `nfds` is not. -/
def watchEntry (entry : UInt8) (acc : UInt8 × Finset ℕ) : UInt8 × Finset ℕ :=
  if entry ≠ 1 then
    (if entry.toNat + 1 > acc.1.toNat then UInt8.ofNat (entry.toNat + 1) else acc.1,
      insert entry.toNat acc.2)
  else acc

/-- What `BlockingIO.waitForIO` gives to `select`: `nfds` and the read set. -/
def watched (s : Table n) : UInt8 × Finset ℕ :=
  (List.finRange n).foldl (fun acc i => watchEntry (s.map i) acc) (0, ∅)

/-- The loop after `select`: the ids whose `receiveReady` is signalled, in order. -/
def signalled (ready : Finset ℕ) (s : Table n) : List (Fin n) :=
  (List.finRange n).filter fun j => (s.map j).toNat ∈ ready

inductive Event (n : ℕ)
  | registerFileDescriptor (id : Fin n) (fd : ℕ)
  | unregisterFileDescriptor (id : Fin n)
  | waitForIo (ready : Finset ℕ)

/-- Descriptors run to 1023, and 1 is the process's standard output. Both commands are
synchronous, so the asynchronous events the second loop signals cannot call them. -/
def step (s : Table n) : Event n → Option (Table n)
  | .registerFileDescriptor id fd =>
      if fd ≤ 1023 ∧ fd ≠ 1 then some (registerFileDescriptor id fd s) else none
  | .unregisterFileDescriptor id => some (unregisterFileDescriptor id s)
  | .waitForIo ready => if ready ⊆ (watched s).2 then some { s with rfds := ready } else none

def machine (n : ℕ) : Machine (Table n) (Event n) := ⟨fun s => s = boot, step⟩

/-- A wait made in this state watches what is registered, whatever turns out ready. -/
structure Watches (s : Table n) : Prop where
  readSet : ∀ fd, fd ∈ (watched s).2 ↔ ∃ id, s.registered id = some fd
  above : ∀ id fd, s.registered id = some fd → fd < (watched s).1.toNat
  signals : ∀ ready ⊆ (watched s).2, ∀ id, (signalled ready s).count id =
    if ∃ fd ∈ ready, s.registered id = some fd then 1 else 0

/-- Some registration has been made, if there are ids at all, and no registered descriptor is
past 254. -/
def FitsByte (s : Table n) : Prop :=
  (n = 0 ∨ s.isInit = true) ∧ ∀ id fd, s.registered id = some fd → fd ≤ 254

/-- How an entry stands for a registration, once the table is filled. -/
def entryOf : Option ℕ → UInt8
  | none => 1
  | some fd => UInt8.ofNat fd

structure Recorded (s : Table n) : Prop where
  empty : s.isInit = false → ∀ id, s.map id = 0 ∧ s.registered id = none
  filled : s.isInit = true → ∀ id, s.map id = entryOf (s.registered id)
  range : ∀ id fd, s.registered id = some fd → fd ≤ 1023 ∧ fd ≠ 1

theorem recorded_boot : Recorded (boot : Table n) := by
  constructor
  · intro _ id
    exact ⟨rfl, rfl⟩
  · intro h
    cases h
  · intro id fd h
    cases h

theorem recorded_register {s : Table n} (h : Recorded s) {id : Fin n} {fd : ℕ}
    (hr : fd ≤ 1023 ∧ fd ≠ 1) : Recorded (registerFileDescriptor id fd s) := by
  have hmap (j : Fin n) : (if s.isInit then s.map else fun _ => 0x01) j =
      entryOf (s.registered j) := by
    cases hi : s.isInit with
    | false => simp [h.empty hi j, entryOf]
    | true => simp [h.filled hi j]
  constructor
  · intro hi
    cases hi
  · intro _ j
    by_cases hj : j = id
    · subst hj
      simp [registerFileDescriptor, entryOf]
    · simp [registerFileDescriptor, Function.update_of_ne hj, hmap j]
  · intro j fd' hj
    by_cases hid : j = id
    · subst hid
      have : fd = fd' := by simpa [registerFileDescriptor] using hj
      exact this ▸ hr
    · apply h.range j fd'
      simpa [registerFileDescriptor, Function.update_of_ne hid] using hj

theorem recorded_unregister {s : Table n} (h : Recorded s) (id : Fin n) :
    Recorded (unregisterFileDescriptor id s) := by
  unfold unregisterFileDescriptor
  cases hi : s.isInit with
  | false => simpa using h
  | true =>
    rw [if_pos rfl]
    constructor
    · intro hf
      cases hf
    · intro _ j
      by_cases hj : j = id
      · subst hj
        simp [entryOf]
      · simp [Function.update_of_ne hj, h.filled hi j]
    · intro j fd hj
      by_cases hid : j = id
      · subst hid
        simp at hj
      · apply h.range j fd
        simpa [Function.update_of_ne hid] using hj

theorem recorded_step {s t : Table n} {e : Event n} (h : Recorded s)
    (hst : step s e = some t) : Recorded t := by
  cases e with
  | registerFileDescriptor id fd =>
    simp only [step, Option.ite_none_right_eq_some, Option.some.injEq] at hst
    obtain ⟨hr, rfl⟩ := hst
    exact recorded_register h hr
  | unregisterFileDescriptor id =>
    cases hst
    exact recorded_unregister h id
  | waitForIo ready =>
    simp only [step, Option.ite_none_right_eq_some, Option.some.injEq] at hst
    obtain ⟨-, rfl⟩ := hst
    exact ⟨h.empty, h.filled, h.range⟩

theorem mem_watchEntries (map : Fin n → UInt8) (ids : List (Fin n)) (acc : UInt8 × Finset ℕ)
    (fd : ℕ) : fd ∈ (ids.foldl (fun acc i => watchEntry (map i) acc) acc).2 ↔
      fd ∈ acc.2 ∨ ∃ i ∈ ids, map i ≠ 1 ∧ (map i).toNat = fd := by
  induction ids generalizing acc with
  | nil => simp
  | cons i ids ih =>
    rw [List.foldl_cons, ih]
    by_cases hi : map i = 1
    · simp [watchEntry, hi]
    · simp only [watchEntry, ne_eq, hi, not_false_eq_true, if_true, Finset.mem_insert,
        List.mem_cons, exists_eq_or_imp, true_and]
      constructor
      · rintro ((rfl | h) | h)
        · exact .inr (.inl rfl)
        · exact .inl h
        · exact .inr (.inr h)
      · rintro (h | rfl | h)
        · exact .inl (.inr h)
        · exact .inl (.inl rfl)
        · exact .inr h

theorem mem_watched (s : Table n) (fd : ℕ) :
    fd ∈ (watched s).2 ↔ ∃ i, s.map i ≠ 1 ∧ (s.map i).toNat = fd := by
  simp [watched, mem_watchEntries]

theorem nfds_watchEntry {entry : UInt8} (h : entry.toNat ≤ 254) (acc : UInt8 × Finset ℕ) :
    acc.1.toNat ≤ (watchEntry entry acc).1.toNat ∧
      (entry ≠ 1 → entry.toNat < (watchEntry entry acc).1.toNat) := by
  unfold watchEntry
  by_cases he : entry = 1
  · simp [he]
  · by_cases hn : entry.toNat + 1 > acc.1.toNat
    · have hw : (UInt8.ofNat (entry.toNat + 1)).toNat = entry.toNat + 1 := by
        rw [UInt8.toNat_ofNat']
        omega
      simp only [ne_eq, he, not_false_eq_true, if_true, hn, hw]
      omega
    · simp only [ne_eq, he, not_false_eq_true, if_true, hn, if_false]
      omega

theorem nfds_watchEntries (map : Fin n → UInt8) (h : ∀ i, (map i).toNat ≤ 254)
    (ids : List (Fin n)) (acc : UInt8 × Finset ℕ) :
    acc.1.toNat ≤ (ids.foldl (fun acc i => watchEntry (map i) acc) acc).1.toNat ∧
      ∀ i ∈ ids, map i ≠ 1 →
        (map i).toNat < (ids.foldl (fun acc i => watchEntry (map i) acc) acc).1.toNat := by
  induction ids generalizing acc with
  | nil => simp
  | cons i ids ih =>
    obtain ⟨hle, hlt⟩ := nfds_watchEntry (h i) acc
    obtain ⟨ihle, ihlt⟩ := ih (watchEntry (map i) acc)
    rw [List.foldl_cons]
    constructor
    · omega
    · intro j hj hne
      rcases List.mem_cons.mp hj with rfl | hj
      · have := hlt hne
        omega
      · exact ihlt j hj hne

theorem entry_cases {s : Table n} (h : Recorded s) (fits : FitsByte s) (i : Fin n) :
    (s.registered i = none ∧ s.map i = 1) ∨
      ∃ fd, s.registered i = some fd ∧ (s.map i).toNat = fd ∧ s.map i ≠ 1 ∧ fd ≤ 254 := by
  have hinit : s.isInit = true := by
    rcases fits.1 with hn | hi
    · exact absurd i.2 (by omega)
    · exact hi
  have hmap := h.filled hinit i
  cases hr : s.registered i with
  | none =>
    rw [hr] at hmap
    exact .inl ⟨rfl, hmap⟩
  | some fd =>
    rw [hr] at hmap
    have hle := fits.2 i fd hr
    have hnat : (s.map i).toNat = fd := by
      rw [hmap, entryOf, UInt8.toNat_ofNat']
      omega
    refine .inr ⟨fd, rfl, hnat, ?_, hle⟩
    intro h1
    rw [h1] at hnat
    exact (h.range i fd hr).2 hnat.symm

theorem entry_le {s : Table n} (h : Recorded s) (fits : FitsByte s) (i : Fin n) :
    (s.map i).toNat ≤ 254 := by
  rcases entry_cases h fits i with ⟨-, h1⟩ | ⟨fd, -, hnat, -, hle⟩
  · rw [h1]
    decide
  · omega

theorem readSet_of_fits {s : Table n} (h : Recorded s) (fits : FitsByte s) (fd : ℕ) :
    fd ∈ (watched s).2 ↔ ∃ id, s.registered id = some fd := by
  rw [mem_watched]
  constructor
  · rintro ⟨i, hne, hfd⟩
    rcases entry_cases h fits i with ⟨-, h1⟩ | ⟨fd', hr, hnat, -, -⟩
    · exact absurd h1 hne
    · exact ⟨i, by rw [hr, ← hnat, hfd]⟩
  · rintro ⟨i, hi⟩
    rcases entry_cases h fits i with ⟨hr, -⟩ | ⟨fd', hr, hnat, hne, -⟩
    · rw [hr] at hi
      cases hi
    · rw [hr] at hi
      exact ⟨i, hne, hnat.trans (Option.some.inj hi)⟩

theorem above_of_fits {s : Table n} (h : Recorded s) (fits : FitsByte s) {id : Fin n} {fd : ℕ}
    (hr : s.registered id = some fd) : fd < (watched s).1.toNat := by
  rcases entry_cases h fits id with ⟨hr', -⟩ | ⟨fd', hr', hnat, hne, -⟩
  · rw [hr'] at hr
    cases hr
  · rw [hr'] at hr
    obtain rfl := Option.some.inj hr
    have hlt := (nfds_watchEntries s.map (entry_le h fits) (List.finRange n) (0, ∅)).2 id
      (List.mem_finRange id) hne
    rwa [hnat] at hlt

theorem count_signalled (s : Table n) (ready : Finset ℕ) (id : Fin n) :
    (signalled ready s).count id = if (s.map id).toNat ∈ ready then 1 else 0 := by
  have hnodup : (signalled ready s).Nodup := (List.nodup_finRange n).filter _
  rw [hnodup.count]
  simp [signalled]

theorem signals_of_fits {s : Table n} (h : Recorded s) (fits : FitsByte s) {ready : Finset ℕ}
    (hsub : ready ⊆ (watched s).2) (id : Fin n) : (signalled ready s).count id =
      if ∃ fd ∈ ready, s.registered id = some fd then 1 else 0 := by
  rw [count_signalled]
  apply if_congr _ rfl rfl
  rcases entry_cases h fits id with ⟨hr, h1⟩ | ⟨fd, hr, hnat, -, -⟩
  · -- an entry of 1 is not in the read set, so it cannot turn out ready
    constructor
    · intro hm
      obtain ⟨i, hne, hi⟩ := (mem_watched s _).mp (hsub hm)
      rw [h1] at hi
      exact absurd (UInt8.toNat_inj.mp hi) hne
    · rintro ⟨fd, -, hfd⟩
      rw [hr] at hfd
      cases hfd
  · rw [hnat, hr]
    simp

theorem fits_of_watches {s : Table n} (h : Recorded s) (hw : Watches s) : FitsByte s := by
  constructor
  · by_contra hempty
    obtain ⟨hn, hi⟩ := not_or.mp hempty
    obtain ⟨hmap, -⟩ := h.empty (by simpa using hi) ⟨0, by omega⟩
    have hzero : 0 ∈ (watched s).2 :=
      (mem_watched s 0).mpr ⟨⟨0, by omega⟩, by rw [hmap]; decide, by rw [hmap]; rfl⟩
    obtain ⟨id, hid⟩ := (hw.readSet 0).mp hzero
    rw [(h.empty (by simpa using hi) id).2] at hid
    cases hid
  · intro id fd hr
    have hlt := hw.above id fd hr
    have := (watched s).1.toNat_lt
    omega

/-- The waits that watch exactly what is registered. -/
theorem watches_iff_fitsByte (n : ℕ) (s : Table n)
    (h : (machine n).Reachable Machine.Any s) : Watches s ↔ FitsByte s := by
  have hs : Recorded s := by
    apply h.invariant
    · rintro s rfl
      exact recorded_boot
    · intro s e t hs _ hst
      exact recorded_step hs hst
  constructor
  · exact fits_of_watches hs
  · intro fits
    constructor
    · exact readSet_of_fits hs fits
    · intro id fd hr
      exact above_of_fits hs fits hr
    · intro ready hsub id
      exact signals_of_fits hs fits hsub id

theorem boot_reachable (n : ℕ) : (machine n).Reachable Machine.Any boot := .start rfl

/-- Two descriptors, one of them replaced and the other dropped. -/
theorem watches_iff_fitsByte_replaced :
    ∃ s : Table 3, (watched s).1 = 255 ∧ (watched s).2 = {254} ∧ (Watches s ↔ FitsByte s) := by
  have hrun : ((machine 3).run boot [.registerFileDescriptor 0 5, .registerFileDescriptor 2 7,
      .waitForIo {5}, .registerFileDescriptor 2 254, .unregisterFileDescriptor 0]).map watched =
        some (255, {254}) := by decide +kernel
  obtain ⟨s, hs, hw⟩ := Option.map_eq_some_iff.mp hrun
  exact ⟨s, by rw [hw], by rw [hw], watches_iff_fitsByte 3 s ((boot_reachable 3).run _ hs)⟩

/-- Before the first registration the wait is on standard input, and with descriptor 255 registered
`nfds` is 0, and 300 is watched as 44. -/
theorem unfitting_tables_miswatch :
    ¬Watches (boot : Table 1) ∧
      (watched (registerFileDescriptor 0 255 (boot : Table 1))).1 = 0 ∧
      (watched (registerFileDescriptor 0 300 (boot : Table 1))).2 = {44} ∧
      ¬∀ s : Table 1, (machine 1).Reachable Machine.Any s → Watches s := by
  have hb : ¬Watches (boot : Table 1) := by
    intro hw
    obtain ⟨id, hid⟩ := (hw.readSet 0).mp (by decide +kernel)
    cases hid
  refine ⟨hb, by decide +kernel, by decide +kernel, ?_⟩
  intro hall
  exact hb (hall boot (boot_reachable 1))

end RpiCc2520.IoManager
