import RpiCc2520.AddressBytes
import RpiCc2520.EventMachine
import RpiCc2520.JsonText

/-! The server's prefix manager: every client id gets a /64 of the configured range, the same
one on every connection. -/
namespace RpiCc2520.TunnelPrefix
open AddressBytes

abbrev Assignments := Finmap fun _ : String => String

/-- The library functions in use: the text of a 16-byte address, and the JSON text of the
assignments with its parser. -/
structure Library where
  ipString : List UInt8 → String
  marshal : Assignments → List UInt8
  unmarshal : List UInt8 → Option Assignments

/-- `net.IP.String` gives different addresses different texts. -/
def Library.TextInjective (lib : Library) : Prop :=
  ∀ a b, a.length = 16 → b.length = 16 → lib.ipString a = lib.ipString b → a = b

/-- A parsed IPv6 CIDR. `ParseCIDR` reads the same address and length as `ParseIP` and `Atoi`
do from the two sides of the slash. -/
structure Cidr where
  ip : List UInt8
  prefixlen : ℕ
  ip_length : ip.length = 16
  one_le : 1 ≤ prefixlen
  le_64 : prefixlen ≤ 64

/-- `prefixfile` is what the assignments file holds. -/
structure PrefixManager where
  prefixfile : List UInt8
  prefixes : Assignments
  inuse : Finmap fun _ : String => Bool
  prefixcidr : IPNet
  prefixstart : UInt64

def markInuse (inuse : Finmap fun _ : String => Bool) (e : Σ _ : String, String) :
    Finmap fun _ : String => Bool :=
  inuse.insert e.2 true

instance : RightCommutative markInuse where
  right_comm inuse a b := by
    by_cases h : a.2 = b.2
    · simp [markInuse, h]
    · exact Finmap.insert_insert_of_ne inuse h

/-- All of the assigned prefixes put in the used set. Ranging over the map in any order gives
the same set. -/
def inuseOf (prefixes : Assignments) : Finmap fun _ : String => Bool :=
  prefixes.entries.foldl markInuse ∅

def startOf (range : Cidr) : UInt64 :=
  let shift := 64 - UInt64.ofNat range.prefixlen
  (uint64 range.ip >>> shift) <<< shift

/-- `Create` after it has read the assignments. -/
def createFrom (prefixes : Assignments) (prefixfile : List UInt8) (range : Cidr) :
    PrefixManager :=
  ⟨prefixfile, prefixes, inuseOf prefixes, network range.ip range.prefixlen, startOf range⟩

def assignbufLen : ℕ := 12000

/-- `Create`. One read fills the buffer as far as the file goes; an error loads nothing. -/
def create (lib : Library) (prefixfile : List UInt8) (range : Cidr) : PrefixManager :=
  createFrom ((lib.unmarshal (prefixfile.take assignbufLen)).getD ∅) prefixfile range

/-- The address of the network with upper half `i`. -/
def networkAddress (i : UInt64) : List UInt8 := putUint64 i ++ putUint64 0

def prefixText (lib : Library) (i : UInt64) : String := lib.ipString (networkAddress i) ++ "/64"

/-- The loop of `getPrefix` from counter `i` on, for `fuel` rounds. `some none` is the way out
with an error. No `networkAddress` is an IPv4-mapped address, so `Contains` compares all
bytes. -/
def search (lib : Library) (pm : PrefixManager) : ℕ → UInt64 → Option (Option String)
  | 0, _ => none
  | fuel + 1, i =>
      let possiblePrefix := prefixText lib i
      if pm.prefixcidr.contains (networkAddress i) then
        if pm.inuse.lookup possiblePrefix = some true then search lib pm fuel (i + 1)
        else some (some possiblePrefix)
      else some none

/-- The file is written from the start and not cut off. -/
def writeFile (lib : Library) (pm : PrefixManager) : PrefixManager :=
  let b := lib.marshal pm.prefixes
  { pm with prefixfile := b ++ pm.prefixfile.drop b.length }

/-- `getPrefix`. The search has one round more than there are used prefixes. -/
def getPrefix (lib : Library) (id : String) (pm : PrefixManager) :
    Option (Except String String × PrefixManager) :=
  match pm.prefixes.lookup id with
  | some p => some (.ok p, writeFile lib pm)
  | none =>
      match search lib pm (pm.inuse.keys.card + 1) pm.prefixstart with
      | none => none
      | some none => some (.error "Out of prefixes", pm)
      | some (some p) => some (.ok p, writeFile lib { pm with
          prefixes := pm.prefixes.insert id p
          inuse := pm.inuse.insert p true })

inductive Answered (lib : Library) (id : String) (pm : PrefixManager) :
    Except String String → PrefixManager → Prop
  | known {p : String} (old : pm.prefixes.lookup id = some p) :
      Answered lib id pm (.ok p) (writeFile lib pm)
  | assigned {i : UInt64} (new : pm.prefixes.lookup id = none)
      (range : pm.prefixcidr.contains (networkAddress i) = true)
      (free : pm.inuse.lookup (prefixText lib i) ≠ some true) :
      Answered lib id pm (.ok (prefixText lib i)) (writeFile lib { pm with
        prefixes := pm.prefixes.insert id (prefixText lib i)
        inuse := pm.inuse.insert (prefixText lib i) true })
  | refused (new : pm.prefixes.lookup id = none) :
      Answered lib id pm (.error "Out of prefixes") pm

variable {lib : Library} {pm : PrefixManager} {id : String}

theorem search_eq_some {fuel : ℕ} {i : UInt64} {p : String}
    (h : search lib pm fuel i = some (some p)) :
    ∃ j, p = prefixText lib j ∧ pm.prefixcidr.contains (networkAddress j) = true ∧
      pm.inuse.lookup (prefixText lib j) ≠ some true := by
  induction fuel generalizing i with
  | zero => cases h
  | succ fuel ih =>
    rw [search] at h
    by_cases hc : pm.prefixcidr.contains (networkAddress i) = true
    · by_cases hu : pm.inuse.lookup (prefixText lib i) = some true
      · simp only [hc, hu, if_true] at h
        exact ih h
      · simp only [hc, hu, if_true, if_false] at h
        cases h
        exact ⟨i, rfl, hc, hu⟩
    · simp [hc] at h

theorem answered_of_getPrefix {answer : Except String String} {pm' : PrefixManager}
    (h : getPrefix lib id pm = some (answer, pm')) : Answered lib id pm answer pm' := by
  unfold getPrefix at h
  cases hl : pm.prefixes.lookup id with
  | some p =>
    simp only [hl] at h
    cases h
    exact .known hl
  | none =>
    simp only [hl] at h
    rcases hs : search lib pm (pm.inuse.keys.card + 1) pm.prefixstart with _ | _ | p
    · simp [hs] at h
    · simp only [hs] at h
      cases h
      exact .refused hl
    · simp only [hs] at h
      cases h
      obtain ⟨i, rfl, hc, hu⟩ := search_eq_some hs
      exact .assigned hl hc hu

theorem search_eq_none {fuel : ℕ} {i : UInt64} (h : search lib pm fuel i = none) {k : ℕ}
    (hk : k < fuel) :
    pm.prefixcidr.contains (networkAddress (i + UInt64.ofNat k)) = true ∧
      pm.inuse.lookup (prefixText lib (i + UInt64.ofNat k)) = some true := by
  induction fuel generalizing i k with
  | zero => omega
  | succ fuel ih =>
    rw [search] at h
    by_cases hc : pm.prefixcidr.contains (networkAddress i) = true
    · by_cases hu : pm.inuse.lookup (prefixText lib i) = some true
      · simp only [hc, hu, if_true] at h
        cases k with
        | zero =>
          rw [show i + UInt64.ofNat 0 = i from UInt64.add_zero i]
          exact ⟨hc, hu⟩
        | succ k =>
          have hnext : i + UInt64.ofNat (k + 1) = i + 1 + UInt64.ofNat k := by
            rw [UInt64.ofNat_add, UInt64.add_comm (UInt64.ofNat k), ← UInt64.add_assoc]
            rfl
          rw [hnext]
          exact ih h (Nat.lt_of_succ_lt_succ hk)
      · simp [hc, hu] at h
    · simp [hc] at h

theorem networkAddress_length (i : UInt64) : (networkAddress i).length = 16 := by
  simp [networkAddress]

theorem networkAddress_take (i : UInt64) : (networkAddress i).take 8 = putUint64 i :=
  List.take_left' (putUint64_length i)

theorem prefixText_injective (text : lib.TextInjective) {i j : UInt64}
    (h : prefixText lib i = prefixText lib j) : i = j := by
  have hs : lib.ipString (networkAddress i) = lib.ipString (networkAddress j) :=
    (String.append_left_inj "/64").mp h
  have hb := text _ _ (networkAddress_length i) (networkAddress_length j) hs
  exact putUint64_injective (by rw [← networkAddress_take, hb, networkAddress_take])

theorem exists_outside (range : Cidr) :
    ∃ i, (network range.ip range.prefixlen).contains (networkAddress i) = false := by
  by_contra hall
  push Not at hall
  have hin (i : UInt64) :
      (network range.ip range.prefixlen).contains (networkAddress i) = true := by
    simpa using hall i
  exact absurd (network_contains_head range.one_le (hin 0) (hin 0x8000000000000000)) (by decide)

/-- One round more than there are used prefixes is enough. -/
theorem search_isSome (text : lib.TextInjective) {range : Cidr}
    (hr : pm.prefixcidr = network range.ip range.prefixlen) (i : UInt64) :
    (search lib pm (pm.inuse.keys.card + 1) i).isSome = true := by
  rw [Option.isSome_iff_ne_none]
  intro hnone
  have htaken {k : ℕ} (hk : k < pm.inuse.keys.card + 1) := search_eq_none hnone hk
  have hkeys : ∀ k ∈ Finset.range (pm.inuse.keys.card + 1),
      prefixText lib (i + UInt64.ofNat k) ∈ pm.inuse.keys := by
    intro k hk
    exact Finmap.mem_keys.mpr (Finmap.mem_of_lookup_eq_some (htaken (Finset.mem_range.mp hk)).2)
  obtain ⟨k, hk, k', hk', hne, heq⟩ :=
    Finset.exists_ne_map_eq_of_card_lt_of_maps_to (by simp) hkeys
  have hwrap : UInt64.ofNat k = UInt64.ofNat k' :=
    (UInt64.add_right_inj i).mp (prefixText_injective text heq)
  -- the counter has come round, so it has taken every value
  have hlong : 2 ^ 64 ≤ pm.inuse.keys.card := by
    by_contra hlt
    have := Finset.mem_range.mp hk
    have := Finset.mem_range.mp hk'
    have hmod := congrArg UInt64.toNat hwrap
    rw [UInt64.toNat_ofNat', UInt64.toNat_ofNat', Nat.mod_eq_of_lt (by omega),
      Nat.mod_eq_of_lt (by omega)] at hmod
    exact hne hmod
  obtain ⟨j, hj⟩ := exists_outside range
  have hjlt := (j - i).toNat_lt
  have hin := (htaken (k := (j - i).toNat) (by omega)).1
  rw [UInt64.ofNat_toNat, UInt64.add_comm, UInt64.sub_add_cancel, hr, hj] at hin
  cases hin

/-- The calls of one run, one after the other; `pm.lock` keeps them apart. -/
def getPrefixes (lib : Library) : List String → PrefixManager → Option PrefixManager
  | [], pm => some pm
  | id :: ids, pm => (getPrefix lib id pm).bind fun (_, pm) => getPrefixes lib ids pm

/-- The assignments runs of the server have saved, each starting from an earlier one's. -/
inductive Saved (lib : Library) : Assignments → Prop
  | empty : Saved lib ∅
  | run {m : Assignments} {prefixfile : List UInt8} {range : Cidr} {ids : List String}
      {pm : PrefixManager} (earlier : Saved lib m)
      (calls : getPrefixes lib ids (createFrom m prefixfile range) = some pm) :
      Saved lib pm.prefixes

/-- A run of the server: the manager, the assignments it started from and the answers given so
far, newest first. -/
structure Serving where
  pm : PrefixManager
  loaded : Assignments
  answers : List (String × Except String String)

def serve (lib : Library) (s : Serving) (id : String) : Option Serving :=
  (getPrefix lib id s.pm).map fun (answer, pm) => ⟨pm, s.loaded, (id, answer) :: s.answers⟩

def machine (lib : Library) (range : Cidr) : Machine Serving String :=
  ⟨fun s => ∃ m prefixfile, Saved lib m ∧ s = ⟨createFrom m prefixfile range, m, []⟩, serve lib⟩

/-- A /64 of the range: every address in it is an address of the range. -/
def Inside (lib : Library) (range : Cidr) (p : String) : Prop :=
  ∃ i, p = prefixText lib i ∧ ∀ addr : List UInt8, addr.length = 16 → addr.take 8 = putUint64 i →
    (network range.ip range.prefixlen).contains addr = true

/-- What clients can count on, whoever else asks and in whatever order. -/
structure Allocates (lib : Library) (range : Cidr) (s : Serving) : Prop where
  unique : ∀ id id' p, s.pm.prefixes.lookup id = some p → s.pm.prefixes.lookup id' = some p →
    id = id'
  kept : ∀ id p, (id, .ok p) ∈ s.answers ∨ s.loaded.lookup id = some p →
    ∃ pm, getPrefix lib id s.pm = some (.ok p, pm)
  marked : ∀ p, s.pm.inuse.lookup p = some true ↔ ∃ id, s.pm.prefixes.lookup id = some p
  onlyTrue : ∀ p, s.pm.inuse.lookup p ≠ some false
  inside : ∀ id p, s.pm.prefixes.lookup id = some p →
    s.loaded.lookup id = some p ∨ Inside lib range p
  refused : ∀ id error pm, getPrefix lib id s.pm = some (.error error, pm) →
    pm.prefixes = s.pm.prefixes ∧ pm.inuse = s.pm.inuse
  answers : ∀ id, (getPrefix lib id s.pm).isSome = true

/-- Two maps that agree: distinct prefixes for distinct ids, and the used set is their image. -/
structure Consistent (pm : PrefixManager) : Prop where
  unique : ∀ id id' p, pm.prefixes.lookup id = some p → pm.prefixes.lookup id' = some p → id = id'
  marked : ∀ p b, pm.inuse.lookup p = some b ↔ b = true ∧ ∃ id, pm.prefixes.lookup id = some p

theorem lookup_foldl_markInuse (es : Multiset (Σ _ : String, String))
    (inuse : Finmap fun _ : String => Bool) (p : String) :
    (es.foldl markInuse inuse).lookup p =
      if p ∈ es.map Sigma.snd then some true else inuse.lookup p := by
  induction es using Multiset.induction generalizing inuse with
  | empty => simp
  | cons e es ih =>
    rw [Multiset.foldl_cons, ih, Multiset.map_cons]
    simp only [Multiset.mem_cons]
    by_cases hes : p ∈ es.map Sigma.snd
    · rw [if_pos hes, if_pos (.inr hes)]
    · by_cases he : p = e.2
      · rw [if_neg hes, if_pos (.inl he), he]
        exact Finmap.lookup_insert inuse
      · rw [if_neg hes, if_neg (not_or.mpr ⟨he, hes⟩), markInuse, Finmap.lookup_insert_of_ne _ he]

theorem lookup_inuseOf (m : Assignments) (p : String) (b : Bool) :
    (inuseOf m).lookup p = some b ↔ b = true ∧ ∃ id, m.lookup id = some p := by
  have hmem : p ∈ m.entries.map Sigma.snd ↔ ∃ id, m.lookup id = some p := by
    rw [Multiset.mem_map]
    constructor
    · rintro ⟨⟨id, p'⟩, he, rfl⟩
      exact ⟨id, Finmap.lookup_eq_some_iff.mpr he⟩
    · rintro ⟨id, hp⟩
      exact ⟨⟨id, p⟩, Finmap.lookup_eq_some_iff.mp hp, rfl⟩
  rw [inuseOf, lookup_foldl_markInuse, ← hmem]
  by_cases he : p ∈ m.entries.map Sigma.snd
  · rw [if_pos he]
    simp only [Option.some.injEq, he, and_true, eq_comm]
  · rw [if_neg he]
    simp [he]

theorem consistent_createFrom {m : Assignments} {prefixfile : List UInt8} {range : Cidr}
    (h : ∀ id id' p, m.lookup id = some p → m.lookup id' = some p → id = id') :
    Consistent (createFrom m prefixfile range) :=
  ⟨h, lookup_inuseOf m⟩

theorem lookup_insert_eq_some {m : Assignments} {id id' p p' : String} :
    (m.insert id p).lookup id' = some p' ↔
      id' = id ∧ p' = p ∨ id' ≠ id ∧ m.lookup id' = some p' := by
  by_cases hid : id' = id
  · subst hid
    simp [Finmap.lookup_insert, eq_comm]
  · rw [Finmap.lookup_insert_of_ne _ hid]
    simp [hid]

theorem consistent_answered {answer : Except String String} {pm' : PrefixManager}
    (h : Consistent pm) (a : Answered lib id pm answer pm') : Consistent pm' := by
  cases a with
  | known => exact ⟨h.unique, h.marked⟩
  | refused => exact h
  | @assigned i new range free =>
    -- nobody holds a prefix that is not marked
    have hfree (id' : String) : pm.prefixes.lookup id' ≠ some (prefixText lib i) := by
      intro hl
      exact free ((h.marked _ true).mpr ⟨rfl, id', hl⟩)
    constructor
    · intro id' id'' p hl hl'
      rcases lookup_insert_eq_some.mp hl with ⟨hid, hp⟩ | ⟨-, hold⟩
      · rcases lookup_insert_eq_some.mp hl' with ⟨hid', -⟩ | ⟨-, hold'⟩
        · exact hid.trans hid'.symm
        · exact absurd (hp ▸ hold') (hfree id'')
      · rcases lookup_insert_eq_some.mp hl' with ⟨-, hp⟩ | ⟨-, hold'⟩
        · exact absurd (hp ▸ hold) (hfree id')
        · exact h.unique _ _ _ hold hold'
    · intro p b
      change (pm.inuse.insert (prefixText lib i) true).lookup p = some b ↔
        b = true ∧ ∃ id', (pm.prefixes.insert id (prefixText lib i)).lookup id' = some p
      by_cases hp : p = prefixText lib i
      · subst hp
        rw [Finmap.lookup_insert]
        constructor
        · intro hb
          exact ⟨(Option.some.inj hb).symm, id, Finmap.lookup_insert _⟩
        · rintro ⟨rfl, -⟩
          rfl
      · rw [Finmap.lookup_insert_of_ne _ hp, h.marked]
        apply and_congr_right
        intro _
        constructor
        · rintro ⟨id', hl⟩
          refine ⟨id', lookup_insert_eq_some.mpr (.inr ⟨?_, hl⟩)⟩
          rintro rfl
          cases new.symm.trans hl
        · rintro ⟨id', hl⟩
          rcases lookup_insert_eq_some.mp hl with ⟨-, he⟩ | ⟨-, hl⟩
          · exact absurd he hp
          · exact ⟨id', hl⟩

theorem consistent_getPrefixes {ids : List String} {pm' : PrefixManager} (h : Consistent pm)
    (calls : getPrefixes lib ids pm = some pm') : Consistent pm' := by
  induction ids generalizing pm with
  | nil => cases calls; exact h
  | cons id ids ih =>
    obtain ⟨⟨answer, u⟩, hu, calls⟩ := Option.bind_eq_some_iff.mp calls
    exact ih (consistent_answered h (answered_of_getPrefix hu)) calls

theorem saved_unique {m : Assignments} (h : Saved lib m) (id id' p : String)
    (hl : m.lookup id = some p) (hl' : m.lookup id' = some p) : id = id' := by
  induction h generalizing id id' p with
  | empty => simp at hl
  | run _ calls ih => exact (consistent_getPrefixes (consistent_createFrom ih) calls).unique _ _ _ hl hl'

structure Sound (lib : Library) (range : Cidr) (s : Serving) : Prop where
  consistent : Consistent s.pm
  cidr : s.pm.prefixcidr = network range.ip range.prefixlen
  kept : ∀ id p, (id, .ok p) ∈ s.answers ∨ s.loaded.lookup id = some p →
    s.pm.prefixes.lookup id = some p
  inside : ∀ id p, s.pm.prefixes.lookup id = some p →
    s.loaded.lookup id = some p ∨ Inside lib range p

theorem inside_of_contains {range : Cidr} {i : UInt64}
    (h : (network range.ip range.prefixlen).contains (networkAddress i) = true) :
    Inside lib range (prefixText lib i) := by
  refine ⟨i, rfl, fun addr hlen htake => ?_⟩
  rw [network_contains_congr range.le_64 hlen (networkAddress_length i)
    (htake.trans (networkAddress_take i).symm)]
  exact h

theorem lookup_answered {id' : String} {answer : Except String String} {pm' : PrefixManager}
    {p : String} (a : Answered lib id pm answer pm') (h : pm.prefixes.lookup id' = some p) :
    pm'.prefixes.lookup id' = some p := by
  cases a with
  | known => exact h
  | refused => exact h
  | assigned new =>
    have hid : id' ≠ id := by
      rintro rfl
      cases new.symm.trans h
    exact lookup_insert_eq_some.mpr (.inr ⟨hid, h⟩)

theorem lookup_of_answered_ok {p : String} {pm' : PrefixManager}
    (a : Answered lib id pm (.ok p) pm') : pm'.prefixes.lookup id = some p := by
  cases a with
  | known old => exact old
  | assigned => exact Finmap.lookup_insert _

theorem inside_answered {range : Cidr} (hr : pm.prefixcidr = network range.ip range.prefixlen)
    {id' p : String} {answer : Except String String} {pm' : PrefixManager}
    (a : Answered lib id pm answer pm') (h : pm'.prefixes.lookup id' = some p) :
    pm.prefixes.lookup id' = some p ∨ Inside lib range p := by
  cases a with
  | known => exact .inl h
  | refused => exact .inl h
  | assigned new contained =>
    rcases lookup_insert_eq_some.mp h with ⟨-, rfl⟩ | ⟨-, hold⟩
    · rw [hr] at contained
      exact .inr (inside_of_contains contained)
    · exact .inl hold

theorem cidr_answered {answer : Except String String} {pm' : PrefixManager}
    (a : Answered lib id pm answer pm') : pm'.prefixcidr = pm.prefixcidr := by
  cases a <;> rfl

theorem start_answered {answer : Except String String} {pm' : PrefixManager}
    (a : Answered lib id pm answer pm') : pm'.prefixstart = pm.prefixstart := by
  cases a <;> rfl

theorem sound_step {range : Cidr} {s t : Serving} (h : Sound lib range s)
    (hst : serve lib s id = some t) : Sound lib range t := by
  obtain ⟨⟨answer, pm⟩, hg, hst⟩ := Option.map_eq_some_iff.mp hst
  cases hst
  have ha := answered_of_getPrefix hg
  constructor
  · exact consistent_answered h.consistent ha
  · exact (cidr_answered ha).trans h.cidr
  · intro id' p hk
    rcases hk with hk | hk
    · rcases List.mem_cons.mp hk with hk | hk
      · cases hk
        exact lookup_of_answered_ok ha
      · exact lookup_answered ha (h.kept _ _ (.inl hk))
    · exact lookup_answered ha (h.kept _ _ (.inr hk))
  · intro id' p hl
    rcases inside_answered h.cidr ha hl with hold | hin
    · exact h.inside _ _ hold
    · exact .inr hin

/-- Every reachable state of a run of the server allocates well. -/
theorem allocates_of_reachable (lib : Library) (text : lib.TextInjective) (range : Cidr)
    (s : Serving) (h : (machine lib range).Reachable Machine.Any s) : Allocates lib range s := by
  have hs : Sound lib range s := by
    refine h.invariant (I := Sound lib range) ?_ fun _ _ _ hs _ hst => sound_step hs hst
    rintro _ ⟨m, prefixfile, saved, rfl⟩
    exact ⟨consistent_createFrom (saved_unique saved), rfl,
      fun _ _ hk => hk.resolve_left List.not_mem_nil, fun _ _ hl => .inl hl⟩
  constructor
  · exact hs.consistent.unique
  · intro id p hk
    refine ⟨writeFile lib s.pm, ?_⟩
    simp only [getPrefix, hs.kept id p hk]
  · intro p
    rw [hs.consistent.marked]
    simp
  · intro p hf
    have := (hs.consistent.marked p false).mp hf
    cases this.1
  · exact hs.inside
  · intro id error pm hg
    cases answered_of_getPrefix hg with
    | refused => exact ⟨rfl, rfl⟩
  · intro id
    have hfound := search_isSome text hs.cidr s.pm.prefixstart
    unfold getPrefix
    cases s.pm.prefixes.lookup id with
    | some p => rfl
    | none =>
      rcases hf : search lib s.pm (s.pm.inuse.keys.card + 1) s.pm.prefixstart with _ | _ | p
      · rw [hf] at hfound
        cases hfound
      · rfl
      · rfl

/-- How many bits of a /64's number are free in the range. -/
def Cidr.freeBits (range : Cidr) : ℕ := 64 - range.prefixlen

theorem contains_networkAddress (range : Cidr) (i : UInt64) :
    (network range.ip range.prefixlen).contains (networkAddress i) = true ↔
      i.toNat / 2 ^ range.freeBits = (uint64 range.ip).toNat / 2 ^ range.freeBits := by
  rw [network_contains_iff range.le_64 range.ip_length (networkAddress_length i),
    networkAddress, uint64_putUint64, Cidr.freeBits]

theorem startOf_toNat (range : Cidr) : (startOf range).toNat =
    (uint64 range.ip).toNat / 2 ^ range.freeBits * 2 ^ range.freeBits := by
  have hone := range.one_le
  have hle := range.le_64
  have hshift : (64 - UInt64.ofNat range.prefixlen).toNat % 64 = range.freeBits := by
    have hlen : (UInt64.ofNat range.prefixlen).toNat = range.prefixlen := by
      rw [UInt64.toNat_ofNat']
      omega
    rw [UInt64.toNat_sub_of_le _ _ (by rw [UInt64.le_iff_toNat_le, hlen]; exact hle), hlen]
    change (64 - range.prefixlen) % 64 = range.freeBits
    rw [Cidr.freeBits]
    omega
  have hlt := (uint64 range.ip).toNat_lt
  have hlow := Nat.div_mul_le_self (uint64 range.ip).toNat (2 ^ range.freeBits)
  rw [startOf, UInt64.toNat_shiftLeft, UInt64.toNat_shiftRight, hshift, Nat.shiftRight_eq_div_pow,
    Nat.shiftLeft_eq]
  exact Nat.mod_eq_of_lt (by omega)

/-- A search that starts at or below a free /64, with the range not left in between, finds one. -/
theorem search_ne_refused {j : UInt64} (free : pm.inuse.lookup (prefixText lib j) ≠ some true)
    {fuel : ℕ} {i : UInt64} (hle : i.toNat ≤ j.toNat)
    (range : ∀ k : UInt64, i.toNat ≤ k.toNat → k.toNat ≤ j.toNat →
      pm.prefixcidr.contains (networkAddress k) = true) : search lib pm fuel i ≠ some none := by
  induction fuel generalizing i with
  | zero => nofun
  | succ fuel ih =>
    rw [search, if_pos (range i le_rfl hle)]
    by_cases hu : pm.inuse.lookup (prefixText lib i) = some true
    · have hne : i ≠ j := by
        rintro rfl
        exact free hu
      have hlt : i.toNat < j.toNat :=
        lt_of_le_of_ne hle fun he => hne (UInt64.toNat_inj.mp he)
      have hnext : (i + 1).toNat = i.toNat + 1 := by
        have := j.toNat_lt
        rw [UInt64.toNat_add]
        exact Nat.mod_eq_of_lt (by change i.toNat + 1 < 2 ^ 64; omega)
      rw [if_pos hu]
      apply ih
      · omega
      · intro k hk hkj
        exact range k (by omega) hkj
    · rw [if_neg hu]
      nofun

/-- A new client is refused just when every /64 of the range is in use. -/
theorem refused_iff_full (text : lib.TextInjective) {range : Cidr}
    (hr : pm.prefixcidr = network range.ip range.prefixlen)
    (hs : pm.prefixstart = startOf range) :
    search lib pm (pm.inuse.keys.card + 1) pm.prefixstart = some none ↔
      ∀ i, pm.prefixcidr.contains (networkAddress i) = true →
        pm.inuse.lookup (prefixText lib i) = some true := by
  constructor
  · intro href j hj
    by_contra free
    rw [hr, contains_networkAddress] at hj
    have hstart := startOf_toNat range
    refine search_ne_refused free ?_ ?_ href
    · rw [hs, hstart, ← hj]
      exact Nat.div_mul_le_self _ _
    · intro k hk hkj
      rw [hr, contains_networkAddress]
      rw [hs, hstart] at hk
      apply le_antisymm
      · rw [← hj]
        exact Nat.div_le_div_right hkj
      · exact (Nat.le_div_iff_mul_le (by positivity)).mpr hk
  · intro full
    have hfound : (search lib pm (pm.inuse.keys.card + 1) pm.prefixstart).isSome = true :=
      search_isSome text hr pm.prefixstart
    rcases hf : search lib pm (pm.inuse.keys.card + 1) pm.prefixstart with _ | _ | p
    · rw [hf] at hfound
      cases hfound
    · rfl
    · obtain ⟨j, -, hc, hu⟩ := search_eq_some hf
      exact absurd (full j hc) hu

/-- Only a new client is refused, and only when the range is used up. -/
theorem getPrefix_refused_iff (text : lib.TextInjective) {range : Cidr}
    (hr : pm.prefixcidr = network range.ip range.prefixlen)
    (hs : pm.prefixstart = startOf range) :
    (∃ error pm', getPrefix lib id pm = some (.error error, pm')) ↔
      pm.prefixes.lookup id = none ∧ ∀ i, pm.prefixcidr.contains (networkAddress i) = true →
        pm.inuse.lookup (prefixText lib i) = some true := by
  rw [← refused_iff_full text hr hs]
  unfold getPrefix
  cases hl : pm.prefixes.lookup id with
  | some p => simp
  | none =>
    rcases hf : search lib pm (pm.inuse.keys.card + 1) pm.prefixstart with _ | _ | p
    · simp
    · simp
    · simp

def firstNetwork : List UInt8 := networkAddress 0x20010DB800000000
def secondNetwork : List UInt8 := networkAddress 0x20010DB800000001

/-- The texts of the two /64 of 2001:db8::/63; those given to other addresses are longer. -/
def sampleText (ip : List UInt8) : String :=
  if ip = firstNetwork then "2001:db8::"
  else if ip = secondNetwork then "2001:db8:0:1::"
  else String.ofList (ip.map fun b => Char.ofNat b.toNat)

def sampleLibrary : Library := ⟨sampleText, JsonText.marshal, JsonText.unmarshal⟩

def sampleRange : Cidr := ⟨firstNetwork, 63, rfl, by decide, by decide⟩

theorem char_ofNat_injective {a b : UInt8} (h : Char.ofNat a.toNat = Char.ofNat b.toNat) :
    a = b := by
  have hvalid (c : UInt8) : c.toNat.isValidChar := .inl (by have := c.toNat_lt; omega)
  have hn := congrArg Char.toNat h
  rw [Char.toNat_ofNat, Char.toNat_ofNat, if_pos (hvalid a), if_pos (hvalid b)] at hn
  exact UInt8.toNat_inj.mp hn

theorem sampleText_length {ip : List UInt8} (h : ip.length = 16) :
    (sampleText ip).length = if ip = firstNetwork then 10
      else if ip = secondNetwork then 14 else 16 := by
  unfold sampleText
  split
  · rfl
  · split
    · rfl
    · simp [h]

theorem sampleLibrary_textInjective : sampleLibrary.TextInjective := by
  intro a b ha hb h
  have hlen := congrArg String.length h
  rw [sampleLibrary, sampleText_length ha, sampleText_length hb] at hlen
  by_cases ha1 : a = firstNetwork
  · by_cases hb1 : b = firstNetwork
    · exact ha1.trans hb1.symm
    · rw [if_pos ha1, if_neg hb1] at hlen
      split at hlen <;> omega
  · by_cases hb1 : b = firstNetwork
    · rw [if_neg ha1, if_pos hb1] at hlen
      split at hlen <;> omega
    · rw [if_neg ha1, if_neg hb1] at hlen
      by_cases ha2 : a = secondNetwork
      · by_cases hb2 : b = secondNetwork
        · exact ha2.trans hb2.symm
        · rw [if_pos ha2, if_neg hb2] at hlen
          omega
      · by_cases hb2 : b = secondNetwork
        · rw [if_neg ha2, if_pos hb2] at hlen
          omega
        · change sampleText a = sampleText b at h
          rw [sampleText, sampleText, if_neg ha1, if_neg ha2, if_neg hb1, if_neg hb2,
            String.ofList_inj] at h
          exact List.map_injective_iff.mpr (fun _ _ => char_ofNat_injective) h

/-- Two clients fill the range, a third is refused, and the first gets its prefix again. -/
theorem allocates_of_reachable_full :
    ∃ s, (machine sampleLibrary sampleRange).Reachable Machine.Any s ∧
      s.answers = [("a", .ok "2001:db8::/64"), ("c", .error "Out of prefixes"),
        ("b", .ok "2001:db8:0:1::/64"), ("a", .ok "2001:db8::/64")] ∧
      Allocates sampleLibrary sampleRange s := by
  let boot : Serving := ⟨createFrom ∅ [] sampleRange, ∅, []⟩
  have h0 : (machine sampleLibrary sampleRange).Reachable Machine.Any boot :=
    .start ⟨∅, [], .empty, rfl⟩
  have hrun : (((machine sampleLibrary sampleRange).run boot ["a", "b", "c", "a"]).map
      Serving.answers) = some [("a", .ok "2001:db8::/64"), ("c", .error "Out of prefixes"),
        ("b", .ok "2001:db8:0:1::/64"), ("a", .ok "2001:db8::/64")] := by decide +kernel
  obtain ⟨s, hr, hs⟩ := Option.map_eq_some_iff.mp hrun
  have hreach := h0.run ["a", "b", "c", "a"] hr
  exact ⟨s, hreach, hs, allocates_of_reachable sampleLibrary sampleLibrary_textInjective
    sampleRange s hreach⟩

end RpiCc2520.TunnelPrefix
