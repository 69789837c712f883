import RpiCc2520.TunnelNames

/-! The TUN names among any number of users, each with one name at most and an interface of that
name when it has opened it. -/
namespace RpiCc2520.TunnelNamePool
open TunnelNames (TunManager unsetTunName tunIds tunName)

/-- A TUN name in a user's hands, and whether its interface is open. -/
structure Held where
  name : String
  isOpen : Bool

/-- What a user can do with the names, the marked ids and the open interfaces; a name is
taken when it `asks`. -/
inductive NameMove (asks : Prop) (tunids : TunManager) (devices : Finset String) :
    Option Held → TunManager → Finset String → Option Held → Prop
  | same (a : Option Held) : NameMove asks tunids devices a tunids devices a
  | takes {n : ℤ} (asked : asks) (free : tunids.tunset n = false) :
      NameMove asks tunids devices none ⟨Function.update tunids.tunset n true⟩ devices
        (some ⟨tunName n, false⟩)
  | doubles (asked : asks) (full : ∀ n ∈ tunIds, tunids.tunset n = true) :
      NameMove asks tunids devices none tunids devices (some ⟨tunName 0, false⟩)
  | opens {name : String} : NameMove asks tunids devices (some ⟨name, false⟩) tunids
      (insert name devices) (some ⟨name, true⟩)
  | closes {name : String} : NameMove asks tunids devices (some ⟨name, true⟩) tunids
      (devices.erase name) (some ⟨name, false⟩)
  | gives {name : String} : NameMove asks tunids devices (some ⟨name, false⟩)
      (unsetTunName name tunids) devices none

/-- Every name in somebody's hands is in nobody else's, the marked ids are those of the names in
use, and the open interfaces are the users'. -/
structure NamesSound (use : ℕ → Option Held) (tunids : TunManager) (devices : Finset String) :
    Prop where
  own : ∀ i j a b, use i = some a → use j = some b → a.name = b.name → i = j
  named : ∀ i a, use i = some a → ∃ n, a.name = tunName n
  marked : ∀ n, tunids.tunset n = true ↔ ∃ i a, use i = some a ∧ a.name = tunName n
  devices : ∀ name, name ∈ devices ↔ ∃ i a, use i = some a ∧ a.name = name ∧ a.isOpen = true

section
variable {use : ℕ → Option Held} {tunids tunids' : TunManager} {devices devices' : Finset String}
  {i : ℕ} {a' : Option Held} {asks : Prop}

theorem exists_user (i : ℕ) (P : Held → Prop) : (∃ j a, use j = some a ∧ P a) ↔
    (∃ a, use i = some a ∧ P a) ∨ ∃ j a, j ≠ i ∧ use j = some a ∧ P a := by
  constructor
  · rintro ⟨j, a, hj, hp⟩
    by_cases hji : j = i
    · exact .inl ⟨a, hji ▸ hj, hp⟩
    · exact .inr ⟨j, a, hji, hj, hp⟩
  · rintro (⟨a, hi, hp⟩ | ⟨j, a, -, hj, hp⟩)
    · exact ⟨i, a, hi, hp⟩
    · exact ⟨j, a, hj, hp⟩

theorem exists_user_update (P : Held → Prop) :
    (∃ j a, Function.update use i a' j = some a ∧ P a) ↔
      (∃ a, a' = some a ∧ P a) ∨ ∃ j a, j ≠ i ∧ use j = some a ∧ P a := by
  rw [exists_user i, Function.update_self]
  apply or_congr_right
  constructor
  · rintro ⟨j, a, hj, hu, hp⟩
    rw [Function.update_of_ne hj] at hu
    exact ⟨j, a, hj, hu, hp⟩
  · rintro ⟨j, a, hj, hu, hp⟩
    refine ⟨j, a, hj, ?_, hp⟩
    rwa [Function.update_of_ne hj]

theorem NamesSound.update (h : NamesSound use tunids devices)
    (fresh : ∀ a, a' = some a → ∀ j b, j ≠ i → use j = some b → b.name ≠ a.name)
    (named : ∀ a, a' = some a → ∃ n, a.name = tunName n)
    (marked : ∀ n, tunids'.tunset n = true ↔ (∃ a, a' = some a ∧ a.name = tunName n) ∨
      ∃ j a, j ≠ i ∧ use j = some a ∧ a.name = tunName n)
    (open' : ∀ name, name ∈ devices' ↔ (∃ a, a' = some a ∧ a.name = name ∧ a.isOpen = true) ∨
      ∃ j a, j ≠ i ∧ use j = some a ∧ a.name = name ∧ a.isOpen = true) :
    NamesSound (Function.update use i a') tunids' devices' := by
  constructor
  · intro j k a b hj hk hab
    by_cases hji : j = i <;> by_cases hki : k = i
    · exact hji.trans hki.symm
    · rw [hji, Function.update_self] at hj
      rw [Function.update_of_ne hki] at hk
      exact absurd hab.symm (fresh a hj k b hki hk)
    · rw [hki, Function.update_self] at hk
      rw [Function.update_of_ne hji] at hj
      exact absurd hab (fresh b hk j a hji hj)
    · rw [Function.update_of_ne hji] at hj
      rw [Function.update_of_ne hki] at hk
      exact h.own j k a b hj hk hab
  · intro j a hj
    by_cases hji : j = i
    · rw [hji, Function.update_self] at hj
      exact named a hj
    · rw [Function.update_of_ne hji] at hj
      exact h.named j a hj
  · intro n
    rw [marked, exists_user_update]
  · intro name
    rw [open', exists_user_update]

theorem NamesSound.others_ne (h : NamesSound use tunids devices) {a b : Held} {j : ℕ}
    (hi : use i = some a) (hj : j ≠ i) (hb : use j = some b) : b.name ≠ a.name :=
  fun he => hj (h.own j i b a hb hi he)

theorem NamesSound.marked_user (h : NamesSound use tunids devices) (i : ℕ) (n : ℤ) :
    tunids.tunset n = true ↔ (∃ a, use i = some a ∧ a.name = tunName n) ∨
      ∃ j a, j ≠ i ∧ use j = some a ∧ a.name = tunName n :=
  (h.marked n).trans (exists_user i fun a => a.name = tunName n)

theorem NamesSound.devices_user (h : NamesSound use tunids devices) (i : ℕ) (name : String) :
    name ∈ devices ↔ (∃ a, use i = some a ∧ a.name = name ∧ a.isOpen = true) ∨
      ∃ j a, j ≠ i ∧ use j = some a ∧ a.name = name ∧ a.isOpen = true :=
  (h.devices name).trans (exists_user i fun a => a.name = name ∧ a.isOpen = true)

theorem NamesSound.takes (h : NamesSound use tunids devices) (hi : use i = none) {n : ℤ}
    (free : tunids.tunset n = false) :
    NamesSound (Function.update use i (some ⟨tunName n, false⟩))
      ⟨Function.update tunids.tunset n true⟩ devices := by
  apply h.update
  · rintro a ⟨⟩ j b - hb he
    have hm := (h.marked n).mpr ⟨j, b, hb, he⟩
    rw [free] at hm
    cases hm
  · rintro a ⟨⟩
    exact ⟨n, rfl⟩
  · intro m
    by_cases hm : m = n
    · simp [hm]
    · have hne : tunName n ≠ tunName m := fun he => hm (TunnelNames.tunName_injective he).symm
      simp [Function.update_of_ne hm, h.marked_user i m, hi, hne]
  · intro name
    simp [h.devices_user i name, hi]

theorem NamesSound.reopens (h : NamesSound use tunids devices) {a : Held} (hi : use i = some a)
    (isOpen : Bool) (others : ∀ name, name ≠ a.name → (name ∈ devices' ↔ name ∈ devices))
    (own : a.name ∈ devices' ↔ isOpen = true) :
    NamesSound (Function.update use i (some ⟨a.name, isOpen⟩)) tunids devices' := by
  apply h.update
  · rintro b ⟨⟩ j c hj hc he
    exact h.others_ne hi hj hc he
  · rintro b ⟨⟩
    exact h.named i a hi
  · intro n
    simp [h.marked_user i n, hi]
  · intro name
    by_cases hn : name = a.name
    · subst hn
      rw [own]
      constructor
      · intro ho
        exact .inl ⟨_, rfl, rfl, ho⟩
      · rintro (⟨b, ⟨⟩, -, ho⟩ | ⟨j, b, hj, hb, hname, -⟩)
        · exact ho
        · exact absurd hname (h.others_ne hi hj hb)
    · have hne : a.name ≠ name := Ne.symm hn
      rw [others name hn, h.devices_user i name]
      simp [hi, hne]

theorem NamesSound.gives (h : NamesSound use tunids devices) {name : String}
    (hi : use i = some ⟨name, false⟩) :
    NamesSound (Function.update use i none) (unsetTunName name tunids) devices := by
  obtain ⟨k, hk⟩ := h.named i _ hi
  obtain rfl : name = tunName k := hk
  rw [TunnelNames.unsetTunName_tunName]
  apply h.update
  · nofun
  · nofun
  · intro m
    by_cases hm : m = k
    · subst hm
      dsimp only
      rw [Function.update_self]
      constructor
      · nofun
      · rintro (⟨a, ⟨⟩, -⟩ | ⟨j, b, hj, hb, he⟩)
        exact absurd he (h.others_ne hi hj hb)
    · have hne : tunName k ≠ tunName m := fun he => hm (TunnelNames.tunName_injective he).symm
      simp [Function.update_of_ne hm, h.marked_user i m, hi, hne]
  · intro name
    simp [h.devices_user i name, hi]

/-- While an id is free whenever a name is taken, the names stay apart. -/
theorem namesSound_move (h : NamesSound use tunids devices)
    (m : NameMove asks tunids devices (use i) tunids' devices' a')
    (room : asks → ∃ n ∈ tunIds, tunids.tunset n = false) :
    NamesSound (Function.update use i a') tunids' devices' := by
  generalize hi : use i = a at m
  cases m with
  | same =>
    rw [← hi, Function.update_eq_self]
    exact h
  | takes asked free => exact h.takes hi free
  | doubles asked full =>
    obtain ⟨n, hn, hf⟩ := room asked
    rw [full n hn] at hf
    cases hf
  | @opens name =>
    apply h.reopens hi true
    · intro name' hn
      exact Finset.mem_insert.trans (or_iff_right hn)
    · exact iff_of_true (Finset.mem_insert_self _ _) rfl
  | @closes name =>
    apply h.reopens hi false
    · intro name' hn
      exact Finset.mem_erase.trans (and_iff_right hn)
    · exact iff_of_false (Finset.notMem_erase _ _) nofun
  | gives => exact h.gives hi

/-- The other users' names stay marked and their interfaces open, with an id free or not. -/
theorem NamesSound.others (h : NamesSound use tunids devices)
    (m : NameMove asks tunids devices (use i) tunids' devices' a') {j : ℕ} {b : Held} (hj : j ≠ i)
    (hb : use j = some b) :
    (∀ n, b.name = tunName n → tunids'.tunset n = true) ∧
      (b.isOpen = true → b.name ∈ devices') := by
  have hmarked (n : ℤ) (hn : b.name = tunName n) : tunids.tunset n = true :=
    (h.marked n).mpr ⟨j, b, hb, hn⟩
  have hopen (ho : b.isOpen = true) : b.name ∈ devices :=
    (h.devices b.name).mpr ⟨j, b, hb, rfl, ho⟩
  generalize hi : use i = a at m
  cases m with
  | same | doubles => exact ⟨hmarked, hopen⟩
  | @takes n asked free =>
    refine ⟨fun m hm => ?_, hopen⟩
    by_cases hmn : m = n
    · simp [hmn]
    · simp only [Function.update_of_ne hmn]
      exact hmarked m hm
  | opens => exact ⟨hmarked, fun ho => Finset.mem_insert_of_mem (hopen ho)⟩
  | closes => exact ⟨hmarked, fun ho => Finset.mem_erase.mpr ⟨h.others_ne hi hj hb, hopen ho⟩⟩
  | gives =>
    obtain ⟨k, hk⟩ := h.named i _ hi
    refine ⟨fun m hm => ?_, hopen⟩
    have hmk : m ≠ k := by
      rintro rfl
      exact h.others_ne hi hj hb (hm.trans hk.symm)
    dsimp only at hk
    rw [hk, TunnelNames.unsetTunName_tunName]
    simp only [Function.update_of_ne hmk]
    exact hmarked m hm

end

end RpiCc2520.TunnelNamePool
