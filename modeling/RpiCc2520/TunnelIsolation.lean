import RpiCc2520.TunnelPrefix
import RpiCc2520.TunnelServerNames

/-! What the clients of the tunnel server share: the prefixes of the range and the TUN names. A
client that finds none left must not cost the others theirs. -/
namespace RpiCc2520.TunnelIsolation
open TunnelNames (getNewTunName tunIds tunName)
open TunnelNamePool (NamesSound namesSound_move)
open TunnelPrefix (Library Cidr PrefixManager Answered Consistent getPrefix createFrom prefixText
  networkAddress)
open TunnelServer (Server Event AsksName ServerMove Stepped handlerOf handlerStep held serverStep
  bootServer serverMove_hello serverMove_openTun serverMove_of_stepped serverMove_readFails
  serverMove_session serverStep_handler stepped_of_handlerStep)

/-- What the process ended for want of. -/
inductive Exhausted
  | prefixes
  | tunNames
  deriving DecidableEq

/-- The server with its prefix manager; `given` holds the `prefix` of each handler and `devices`
the names of the TUN interfaces the kernel has open. -/
structure Host where
  server : Server
  pm : PrefixManager
  given : ℕ → Option String
  devices : Finset String
  exhausted : Option Exhausted

/-- The pools decide what `getPrefix` returns, and `tuntap.Open` fails on a name that is open
already; what else can fail is the environment's choice. -/
def step (lib : Library) (s : Host) (e : Event) : Option Host :=
  match e with
  | .handler h ok =>
      let hd := s.server.handlers h
      match hd.pc with
      | .getPrefix =>
          (getPrefix lib hd.id s.pm).bind fun (answer, pm) =>
            match answer with
            | .ok p => (serverStep s.server (.handler h true)).map fun server =>
                { s with server := server, pm := pm, given := Function.update s.given h (some p) }
            | .error _ => (serverStep s.server (.handler h false)).map fun server =>
                { s with server := server, pm := pm, exhausted := some .prefixes }
      | .openTun =>
          if hd.tunname ∈ s.devices then
            (serverStep s.server (.handler h false)).map fun server =>
              { s with server := server, exhausted := some .tunNames }
          else
            (serverStep s.server (.handler h ok)).map fun server =>
              { s with
                server := server
                devices := if ok then insert hd.tunname s.devices else s.devices }
      | _ => (serverStep s.server e).map fun server => { s with server := server }
  | .session h .tunClose =>
      (serverStep s.server e).map fun server =>
        { s with server := server, devices := s.devices.erase (s.server.handlers h).tunname }
  | _ => (serverStep s.server e).map fun server => { s with server := server }

/-- The server as `main` starts it, with the prefixes of earlier runs. -/
def boot (pm : PrefixManager) : Host := ⟨bootServer, pm, fun _ => none, ∅, none⟩

def machine (lib : Library) (range : Cidr) : Machine Host Event :=
  ⟨fun s => ∃ m prefixfile, TunnelPrefix.Saved lib m ∧ s = boot (createFrom m prefixfile range),
    step lib⟩

/-- What handler `j` has is as it was: its session and its prefix, which stays its client's, and
its TUN name, which stays marked, with its interface. -/
structure Unchanged (s t : Host) (j : ℕ) : Prop where
  handler : t.server.handlers j = s.server.handlers j
  given : t.given j = s.given j
  assigned : ∀ p, s.pm.prefixes.lookup (s.server.handlers j).id = some p →
    t.pm.prefixes.lookup (s.server.handlers j).id = some p
  marked : ∀ a n, held (s.server.handlers j) = some a → a.name = tunName n →
    t.server.tunids.tunset n = true
  device : ∀ a, held (s.server.handlers j) = some a → a.isOpen = true → a.name ∈ t.devices

/-- The process has not ended for want of a prefix or a name, no two handlers have one name and no
two clients one prefix, and a handler's step costs no other handler anything. -/
structure Isolated (lib : Library) (s : Host) : Prop where
  running : s.exhausted = none
  ownName : ∀ i j a b, held (s.server.handlers i) = some a → held (s.server.handlers j) = some b →
    a.name = b.name → i = j
  ownPrefix : ∀ id id' p, s.pm.prefixes.lookup id = some p → s.pm.prefixes.lookup id' = some p →
    id = id'
  given : ∀ i p, s.given i = some p → s.pm.prefixes.lookup (s.server.handlers i).id = some p
  apart : ∀ e t, step lib s e = some t → ∀ j, j ≠ handlerOf e → Unchanged s t j

def AsksPrefix (s : Server) : Event → Prop
  | .handler h _ => (s.handlers h).pc = .getPrefix
  | _ => False

/-- `getPrefix` is called for a client that has a prefix or while a /64 of the range is not in
use, and `getNewTunName` while an id is not marked. -/
def RoomLeft (lib : Library) (s : Host) (e : Event) : Prop :=
  (AsksPrefix s.server e →
    (s.pm.prefixes.lookup (s.server.handlers (handlerOf e)).id).isSome ∨
      ∃ i, s.pm.prefixcidr.contains (networkAddress i) = true ∧
        s.pm.inuse.lookup (prefixText lib i) ≠ some true) ∧
  (AsksName s.server e → ∃ i ∈ tunIds, s.server.tunids.tunset i = false)

/-- What a step does to the prefixes, and whether it ends the process. -/
inductive Outcome (lib : Library) (s : Host) (e : Event) (t : Host) : Prop
  | plain (asks : ¬AsksPrefix s.server e) (pm : t.pm = s.pm) (given : t.given = s.given)
      (exhausted : t.exhausted = s.exhausted)
  | answered {p : String} (asks : AsksPrefix s.server e)
      (answer : Answered lib (s.server.handlers (handlerOf e)).id s.pm (.ok p) t.pm)
      (given : t.given = Function.update s.given (handlerOf e) (some p))
      (exhausted : t.exhausted = s.exhausted)
      (got : getPrefix lib (s.server.handlers (handlerOf e)).id s.pm = some (.ok p, t.pm))
  | noPrefix (asks : AsksPrefix s.server e)
      (refused : ∃ error pm,
        getPrefix lib (s.server.handlers (handlerOf e)).id s.pm = some (.error error, pm))
      (pm : t.pm = s.pm) (given : t.given = s.given) (exhausted : t.exhausted = some .prefixes)
  | noTunName (pc : (s.server.handlers (handlerOf e)).pc = .openTun)
      (taken : (s.server.handlers (handlerOf e)).tunname ∈ s.devices)
      (pm : t.pm = s.pm) (given : t.given = s.given) (exhausted : t.exhausted = some .tunNames)

/-- Everything a step does to names and prefixes. -/
structure Moved (lib : Library) (s : Host) (e : Event) (t : Host) : Prop where
  taken : ∃ e', serverStep s.server e' = some t.server
  server : ServerMove s.server e t.server s.devices t.devices
  outcome : Outcome lib s e t

theorem moved_of_step {lib : Library} {s t : Host} {e : Event}
    (sound : TunnelServer.Sound s.server) (hst : step lib s e = some t) : Moved lib s e t := by
  cases e with
  | hello i id =>
    obtain ⟨server, hs, rfl⟩ := Option.map_eq_some_iff.mp hst
    exact ⟨⟨_, hs⟩, serverMove_hello hs, .plain not_false rfl rfl rfl⟩
  | readFails i =>
    obtain ⟨server, hs, rfl⟩ := Option.map_eq_some_iff.mp hst
    exact ⟨⟨_, hs⟩, serverMove_readFails hs, .plain not_false rfl rfl rfl⟩
  | session i e =>
    cases e with
    | tunClose =>
      obtain ⟨server, hs, rfl⟩ := Option.map_eq_some_iff.mp hst
      exact ⟨⟨_, hs⟩, serverMove_session sound hs, .plain not_false rfl rfl rfl⟩
    | _ =>
      obtain ⟨server, hs, rfl⟩ := Option.map_eq_some_iff.mp hst
      exact ⟨⟨_, hs⟩, serverMove_session sound hs, .plain not_false rfl rfl rfl⟩
  | handler i ok =>
    have hstepped {ok : Bool} {server : Server}
        (hs : serverStep s.server (.handler i ok) = some server) : Stepped s.server i ok server :=
      stepped_of_handlerStep (serverStep_handler hs)
    cases hpc : (s.server.handlers i).pc with
    | getPrefix =>
      have hplain {ok : Bool} (h : (s.server.handlers i).pc = .openTun) : ok = false :=
        absurd (h.symm.trans hpc) nofun
      simp only [step, hpc] at hst
      obtain ⟨⟨answer, pm⟩, hg, hst⟩ := Option.bind_eq_some_iff.mp hst
      have ha := TunnelPrefix.answered_of_getPrefix hg
      cases answer with
      | ok p =>
        obtain ⟨server, hs, rfl⟩ := Option.map_eq_some_iff.mp hst
        exact ⟨⟨_, hs⟩, serverMove_of_stepped (hstepped hs) hplain ok,
          .answered hpc ha rfl rfl hg⟩
      | error error =>
        obtain ⟨server, hs, rfl⟩ := Option.map_eq_some_iff.mp hst
        cases ha
        exact ⟨⟨_, hs⟩, serverMove_of_stepped (hstepped hs) hplain ok,
          .noPrefix hpc ⟨_, _, hg⟩ rfl rfl rfl⟩
    | openTun =>
      have hasks : ¬AsksPrefix s.server (.handler i ok) := fun h => absurd (h.symm.trans hpc) nofun
      simp only [step, hpc] at hst
      split at hst
      · obtain ⟨server, hs, rfl⟩ := Option.map_eq_some_iff.mp hst
        exact ⟨⟨_, hs⟩, serverMove_of_stepped (hstepped hs) (fun _ => rfl) ok,
          .noTunName hpc ‹_› rfl rfl rfl⟩
      · obtain ⟨server, hs, rfl⟩ := Option.map_eq_some_iff.mp hst
        cases ok with
        | true =>
          exact ⟨⟨_, hs⟩, serverMove_openTun hpc (serverStep_handler hs),
            .plain hasks rfl rfl rfl⟩
        | false =>
          exact ⟨⟨_, hs⟩, serverMove_of_stepped (hstepped hs) (fun _ => rfl) false,
            .plain hasks rfl rfl rfl⟩
    | _ =>
      have hasks : ¬AsksPrefix s.server (.handler i ok) := fun h => absurd (h.symm.trans hpc) nofun
      have hplain (h : (s.server.handlers i).pc = .openTun) : ok = false :=
        absurd (h.symm.trans hpc) nofun
      simp only [step, hpc] at hst
      obtain ⟨server, hs, rfl⟩ := Option.map_eq_some_iff.mp hst
      exact ⟨⟨_, hs⟩, serverMove_of_stepped (hstepped hs) hplain ok, .plain hasks rfl rfl rfl⟩

structure Sound (range : Cidr) (s : Host) : Prop where
  server : TunnelServer.Sound s.server
  names : NamesSound (fun i => held (s.server.handlers i)) s.server.tunids s.devices
  consistent : Consistent s.pm
  cidr : s.pm.prefixcidr = AddressBytes.network range.ip range.prefixlen
  start : s.pm.prefixstart = TunnelPrefix.startOf range
  given : ∀ i p, s.given i = some p → (s.server.handlers i).pc ≠ .hello ∧
    s.pm.prefixes.lookup (s.server.handlers i).id = some p
  running : s.exhausted = none

variable {lib : Library} {range : Cidr} {s t : Host} {e : Event}

theorem sound_boot {m : TunnelPrefix.Assignments} (saved : TunnelPrefix.Saved lib m)
    (prefixfile : List UInt8) : Sound range (boot (createFrom m prefixfile range)) := by
  have hnobody (i : ℕ) : held ((boot (createFrom m prefixfile range)).server.handlers i) = none :=
    rfl
  constructor
  · exact TunnelServer.sound_boot
  · constructor
    · intro i j a b hi
      cases hi
    · intro i a hi
      cases hi
    · intro n
      constructor
      · nofun
      · rintro ⟨i, a, hi, -⟩
        cases hi
    · intro name
      constructor
      · intro hm
        exact absurd hm (Finset.notMem_empty name)
      · rintro ⟨i, a, hi, -⟩
        cases hi
  · exact TunnelPrefix.consistent_createFrom (TunnelPrefix.saved_unique saved)
  · rfl
  · rfl
  · nofun
  · rfl

theorem asksPrefix_pc {s : Server} {e : Event} (h : AsksPrefix s e) :
    (s.handlers (handlerOf e)).pc = .getPrefix := by
  cases e with
  | handler i ok => exact h
  | _ => exact absurd h not_false

theorem not_refused (text : lib.TextInjective) (h : Sound range s) (ok : RoomLeft lib s e)
    (asks : AsksPrefix s.server e) : ¬∃ error pm,
      getPrefix lib (s.server.handlers (handlerOf e)).id s.pm = some (.error error, pm) := by
  intro refused
  obtain ⟨hnew, hfull⟩ := (TunnelPrefix.getPrefix_refused_iff text h.cidr h.start).mp refused
  rcases ok.1 asks with hknown | ⟨i, hc, hfree⟩
  · rw [hnew] at hknown
    cases hknown
  · exact hfree (hfull i hc)

theorem not_taken (h : Sound range s) {i : ℕ} (pc : (s.server.handlers i).pc = .openTun) :
    (s.server.handlers i).tunname ∉ s.devices := by
  intro hm
  obtain ⟨j, a, hj, hname, hopen⟩ := (h.names.devices _).mp hm
  have hheld : held (s.server.handlers i) = some ⟨(s.server.handlers i).tunname, false⟩ := by
    rw [held, pc]
  obtain rfl := h.names.own j i a _ hj hheld hname
  obtain rfl := Option.some.inj (hj.symm.trans hheld)
  cases hopen

theorem Moved.keeps (m : Moved lib s e t) {j : ℕ} (hpc : (s.server.handlers j).pc ≠ .hello) :
    (t.server.handlers j).pc ≠ .hello ∧
      (t.server.handlers j).id = (s.server.handlers j).id := by
  by_cases hj : j = handlerOf e
  · rw [hj] at hpc ⊢
    exact m.server.kept hpc
  · rw [m.server.other j hj]
    exact ⟨hpc, rfl⟩

theorem Sound.names_step (h : Sound range s) (ok : RoomLeft lib s e) (m : Moved lib s e t) :
    NamesSound (fun i => held (t.server.handlers i)) t.server.tunids t.devices := by
  have huse : (fun j => held (t.server.handlers j)) = Function.update
      (fun j => held (s.server.handlers j)) (handlerOf e)
      (held (t.server.handlers (handlerOf e))) := by
    funext j
    by_cases hj : j = handlerOf e
    · rw [hj, Function.update_self]
    · rw [Function.update_of_ne hj, m.server.other j hj]
  rw [huse]
  exact namesSound_move h.names m.server.names ok.2

theorem sound_step (text : lib.TextInjective) (h : Sound range s) (ok : RoomLeft lib s e)
    (hst : step lib s e = some t) : Sound range t := by
  have hm := moved_of_step h.server hst
  obtain ⟨e', he'⟩ := hm.taken
  have hserver := TunnelServer.sound_step h.server he'
  have hnames := h.names_step ok hm
  cases hm.outcome with
  | plain _ pm given exhausted =>
    refine ⟨hserver, hnames, pm ▸ h.consistent, pm ▸ h.cidr, pm ▸ h.start, ?_,
      exhausted.trans h.running⟩
    intro i p hp
    rw [given] at hp
    obtain ⟨hpc, hl⟩ := h.given i p hp
    obtain ⟨hpc, hid⟩ := hm.keeps hpc
    exact ⟨hpc, by rw [pm, hid, hl]⟩
  | @answered p asks answer given exhausted =>
    refine ⟨hserver, hnames, TunnelPrefix.consistent_answered h.consistent answer,
      (TunnelPrefix.cidr_answered answer).trans h.cidr,
      (TunnelPrefix.start_answered answer).trans h.start, ?_, exhausted.trans h.running⟩
    intro i p' hp
    rw [given] at hp
    by_cases hi : i = handlerOf e
    · subst hi
      rw [Function.update_self] at hp
      obtain rfl := Option.some.inj hp
      have hpc := asksPrefix_pc asks
      obtain ⟨hpc, hid⟩ := hm.keeps (j := handlerOf e) (by rw [hpc]; nofun)
      exact ⟨hpc, by rw [hid, TunnelPrefix.lookup_of_answered_ok answer]⟩
    · rw [Function.update_of_ne hi] at hp
      obtain ⟨hpc, hl⟩ := h.given i p' hp
      obtain ⟨hpc, hid⟩ := hm.keeps hpc
      exact ⟨hpc, by rw [hid, TunnelPrefix.lookup_answered answer hl]⟩
  | noPrefix asks refused => exact absurd refused (not_refused text h ok asks)
  | noTunName pc taken => exact absurd taken (not_taken h pc)

theorem Sound.unchanged (h : Sound range s) (hst : step lib s e = some t) {j : ℕ}
    (hj : j ≠ handlerOf e) : Unchanged s t j := by
  have hm := moved_of_step h.server hst
  constructor
  · exact hm.server.other j hj
  · cases hm.outcome with
    | answered _ _ given => rw [given, Function.update_of_ne hj]
    | plain _ _ given => rw [given]
    | noPrefix _ _ _ given => rw [given]
    | noTunName _ _ _ given => rw [given]
  · intro p hp
    cases hm.outcome with
    | answered _ answer => exact TunnelPrefix.lookup_answered answer hp
    | plain _ pm => rwa [pm]
    | noPrefix _ _ pm => rwa [pm]
    | noTunName _ _ pm => rwa [pm]
  · intro a n ha hn
    exact (h.names.others hm.server.names hj ha).1 n hn
  · intro a ha hopen
    exact (h.names.others hm.server.names hj ha).2 hopen

theorem Sound.isolated (h : Sound range s) : Isolated lib s := by
  constructor
  · exact h.running
  · exact h.names.own
  · exact h.consistent.unique
  · intro i p hp
    exact (h.given i p hp).2
  · intro e t hst j hj
    exact h.unchanged hst hj

theorem held_of_asksName (asks : AsksName s.server e) (hst : step lib s e = some t) :
    held (s.server.handlers (handlerOf e)) = none ∧
      held (t.server.handlers (handlerOf e)) =
        some ⟨(getNewTunName s.server.tunids).1, false⟩ := by
  cases e with
  | handler i ok =>
    have hpc : (s.server.handlers i).pc = .getNewTunName := asks
    simp only [step, hpc] at hst
    obtain ⟨server, hs, rfl⟩ := Option.map_eq_some_iff.mp hst
    have hs := serverStep_handler hs
    simp only [handlerStep, hpc] at hs
    cases hs
    constructor
    · rw [handlerOf, held, hpc]
    · simp only [handlerOf, Server.set, Function.update_self]
      rfl
  | _ => exact absurd asks not_false

/-- A handler that finds every id marked gets the name of another. -/
theorem not_isolated_of_doubled (h : Sound range s) (asks : AsksName s.server e)
    (full : ∀ n ∈ tunIds, s.server.tunids.tunset n = true) (hst : step lib s e = some t) :
    ¬Isolated lib t := by
  intro ht
  obtain ⟨hnone, htaken⟩ := held_of_asksName asks hst
  obtain ⟨j, a, hj, hname⟩ := (h.names.marked 0).mp (full 0 (by decide))
  have hne : j ≠ handlerOf e := by
    rintro rfl
    exact absurd (hj.symm.trans hnone) nofun
  have hgot : (getNewTunName s.server.tunids).1 = tunName 0 := by
    rcases TunnelNames.getNewTunName_cases s.server.tunids with ⟨n, hn, hf, -⟩ | ⟨-, he⟩
    · rw [full n hn] at hf
      cases hf
    · rw [he]
  rw [← (moved_of_step h.server hst).server.other j hne] at hj
  exact hne (ht.ownName j (handlerOf e) a _ hj htaken (hname.trans hgot.symm))

/-- A client that finds the range used up ends the process. -/
theorem not_isolated_of_refused (h : Sound range s) (asks : AsksPrefix s.server e)
    (refused : ∃ error pm,
      getPrefix lib (s.server.handlers (handlerOf e)).id s.pm = some (.error error, pm))
    (hst : step lib s e = some t) : ¬Isolated lib t := by
  intro ht
  have hrun := ht.running
  cases (moved_of_step h.server hst).outcome with
  | plain not => exact not asks
  | answered _ _ _ _ got =>
    obtain ⟨error, pm, hg⟩ := refused
    cases got.symm.trans hg
  | noPrefix _ _ _ _ exhausted => exact absurd (exhausted.symm.trans hrun) nofun
  | noTunName _ _ _ _ exhausted => exact absurd (exhausted.symm.trans hrun) nofun

/-- The step that finds nothing left costs the others. -/
theorem not_isolated_of_full (text : lib.TextInjective) (h : Sound range s)
    (full : ¬RoomLeft lib s e) (hst : step lib s e = some t) : ¬Isolated lib t := by
  rw [RoomLeft, not_and_or] at full
  push Not at full
  rcases full with ⟨asks, hnew, hused⟩ | ⟨asks, hmarked⟩
  · apply not_isolated_of_refused h asks _ hst
    rw [TunnelPrefix.getPrefix_refused_iff text h.cidr h.start]
    exact ⟨by simpa using hnew, hused⟩
  · apply not_isolated_of_doubled h asks _ hst
    intro n hn
    simpa using hmarked n hn

/-- Any number of clients with any ids, coming and going in any order: as long as prefixes and
names last, no client costs another anything. -/
theorem isolated_of_roomLeft (lib : Library) (text : lib.TextInjective) (range : Cidr) (s : Host)
    (h : (machine lib range).Reachable (RoomLeft lib) s) :
    Isolated lib s ∧ ∀ e t, step lib s e = some t → (Isolated lib t ↔ RoomLeft lib s e) := by
  have hs : Sound range s := by
    apply h.invariant (I := Sound range)
    · rintro _ ⟨m, prefixfile, saved, rfl⟩
      exact sound_boot saved prefixfile
    · intro u e v hu ok hst
      exact sound_step text hu ok hst
  refine ⟨hs.isolated, ?_⟩
  intro e t hst
  constructor
  · intro ht
    by_contra full
    exact not_isolated_of_full text hs full hst ht
  · intro ok
    exact (sound_step text hs ok hst).isolated

instance (s : Server) : (e : Event) → Decidable (AsksPrefix s e)
  | .handler h _ => inferInstanceAs (Decidable ((s.handlers h).pc = .getPrefix))
  | .hello _ _ => isFalse not_false
  | .session _ _ => isFalse not_false
  | .readFails _ => isFalse not_false

instance (s : Server) : (e : Event) → Decidable (AsksName s e)
  | .handler h _ => inferInstanceAs (Decidable ((s.handlers h).pc = .getNewTunName))
  | .hello _ _ => isFalse not_false
  | .session _ _ => isFalse not_false
  | .readFails _ => isFalse not_false

/-- Room left, with the free /64 among those named. -/
def RoomAmong (lib : Library) (free : List UInt64) (s : Host) (e : Event) : Prop :=
  (AsksPrefix s.server e →
    (s.pm.prefixes.lookup (s.server.handlers (handlerOf e)).id).isSome ∨
      ∃ i ∈ free, s.pm.prefixcidr.contains (networkAddress i) = true ∧
        s.pm.inuse.lookup (prefixText lib i) ≠ some true) ∧
  (AsksName s.server e → ∃ i ∈ tunIds, s.server.tunids.tunset i = false)

instance (lib : Library) (free : List UInt64) (s : Host) (e : Event) :
    Decidable (RoomAmong lib free s e) := inferInstanceAs (Decidable (_ ∧ _))

theorem RoomAmong.roomLeft {free : List UInt64} (h : RoomAmong lib free s e) :
    RoomLeft lib s e := by
  refine ⟨fun asks => ?_, h.2⟩
  rcases h.1 asks with hknown | ⟨i, -, hi⟩
  · exact .inl hknown
  · exact .inr ⟨i, hi⟩

def sampleBoot : Host := boot (createFrom ∅ [] TunnelPrefix.sampleRange)

theorem sampleBoot_reachable (ok : Host → Event → Prop) :
    (machine TunnelPrefix.sampleLibrary TunnelPrefix.sampleRange).Reachable ok sampleBoot :=
  .start ⟨∅, [], .empty, rfl⟩

def connects (h : ℕ) (id : String) (statements : ℕ) : List Event :=
  .hello h (some id) :: List.replicate statements (.handler h true)

def disconnects (h : ℕ) : List Event :=
  [.session h (.tcpRead []), .session h .tcpQuit, .session h .sendQuit, .session h (.wakeUp [1]),
    .session h .tunRead, .session h .tunCheck, .session h .tunClose, .session h .tunQuit2,
    .session h .unsetTunName] ++ List.replicate 5 (.handler h true)

/-- Two clients fill the range; the first leaves, comes back and finds its prefix. -/
theorem isolated_of_roomLeft_back :
    ∃ s, s.given 2 = some "2001:db8::/64" ∧ s.devices = {"tun0", "tun1"} ∧
      Isolated TunnelPrefix.sampleLibrary s := by
  have hrun : ((machine TunnelPrefix.sampleLibrary TunnelPrefix.sampleRange).runMeeting
      (RoomAmong TunnelPrefix.sampleLibrary [0x20010DB800000000, 0x20010DB800000001]) sampleBoot
      (connects 0 "a" 10 ++ connects 1 "b" 10 ++ disconnects 0 ++ connects 2 "a" 10)).map
        (fun s => (s.given 2, s.devices)) =
          some (some "2001:db8::/64", {"tun0", "tun1"}) := by decide +kernel
  obtain ⟨s, hs, he⟩ := Option.map_eq_some_iff.mp hrun
  obtain ⟨hgiven, hdevices⟩ := Prod.mk.inj he
  have hreach := ((sampleBoot_reachable _).runMeeting _ hs).imp fun _ _ h => h.roomLeft
  exact ⟨s, hgiven, hdevices, (isolated_of_roomLeft TunnelPrefix.sampleLibrary
    TunnelPrefix.sampleLibrary_textInjective TunnelPrefix.sampleRange s hreach).1⟩

/-- A third client finds the range used up: the process ends, with the sessions of the others. -/
theorem third_client_ends_server :
    ∃ s, (machine TunnelPrefix.sampleLibrary TunnelPrefix.sampleRange).Reachable Machine.Any s ∧
      (s.server.handlers 0).pc = .loop ∧ s.server.exited = true ∧
      ¬Isolated TunnelPrefix.sampleLibrary s := by
  have hrun : ((machine TunnelPrefix.sampleLibrary TunnelPrefix.sampleRange).run sampleBoot
      (connects 0 "a" 10 ++ connects 1 "b" 10 ++ connects 2 "c" 6)).map
        (fun s => ((s.server.handlers 0).pc, s.server.exited, s.exhausted)) =
          some (.loop, true, some .prefixes) := by decide +kernel
  obtain ⟨s, hs, he⟩ := Option.map_eq_some_iff.mp hrun
  obtain ⟨hpc, he⟩ := Prod.mk.inj he
  obtain ⟨hexited, hexhausted⟩ := Prod.mk.inj he
  refine ⟨s, (sampleBoot_reachable _).run _ hs, hpc, hexited, ?_⟩
  intro hi
  exact absurd (hexhausted.symm.trans hi.running) nofun

end RpiCc2520.TunnelIsolation
