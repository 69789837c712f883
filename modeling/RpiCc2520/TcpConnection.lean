import RpiCc2520.EventMachine
import RpiCc2520.RadioMessage

/-! The TCP socket that reconnects by itself: its descriptor, its entry in the table of watched
descriptors and the sockets the kernel holds for it. -/
namespace RpiCc2520.TcpConnection
open RadioMessage

/-- How far an attempt gets: `getaddrinfo` fails, `socket` fails, `connect` fails on the new
socket, or it is connected. -/
inductive Attempt
  | unresolved
  | noSocket
  | refused (fd : ℤ)
  | established (fd : ℤ)
  deriving DecidableEq, Repr

/-- What `recv` returns: bytes, -1 with `EAGAIN`, 0, or -1 with another error. -/
inductive Recv
  | data (bytes : List UInt8)
  | again
  | closed
  | error
  deriving DecidableEq, Repr

/-- The variables of the component, what the scheduler, the timer and the table of watched
descriptors hold for it, and the kernel's sockets: those open and, of these, those connected.
`failed` keeps the open sockets and `sock` as each `connect` that returned `FAIL` left them,
newest first. -/
structure Connection where
  remote : String × UInt16
  sock : ℤ
  msg : List UInt8
  receivePosted : Bool
  reconnectPosted : Bool
  reconnectTimer : Bool
  registered : Option ℤ
  opened : Finset ℤ
  connected : Finset ℤ
  exited : Bool
  failed : List (Finset ℤ × ℤ)

def boot : Connection :=
  ⟨("", 0), -1, [], false, false, false, none, ∅, ∅, false, []⟩

def giveFail (s : Connection) : UInt8 × Connection :=
  (fail, { s with failed := (s.opened, s.sock) :: s.failed })

def connect (host : String) (port : UInt16) (attempt : Attempt) (s : Connection) :
    UInt8 × Connection :=
  let s := { s with remote := (host, port) }
  match attempt with
  | .unresolved => giveFail s
  | .noSocket => giveFail { s with sock := -1 }
  | .refused fd => giveFail { s with sock := fd, opened := insert fd s.opened }
  | .established fd =>
      (success, { s with
        sock := fd
        opened := insert fd s.opened
        connected := insert fd s.connected
        registered := some fd })

def reconnectHelper (attempt : Attempt) (s : Connection) : Connection :=
  let (result, s) := connect s.remote.1 s.remote.2 attempt s
  if result ≠ success then { s with sock := -1, reconnectTimer := true } else s

/-- The socket is taken out of the watched table and forgotten. -/
def forget (s : Connection) : Connection := { s with registered := none, sock := -1 }

def reconnect (attempt : Attempt) (s : Connection) : Connection :=
  if s.sock = -1 then s else reconnectHelper attempt (forget s)

/-- `TcpSocket.close`. The descriptor is gone also when `close` reports an error. -/
def close (s : Connection) : UInt8 × Connection :=
  if s.sock = -1 then (fail, s)
  else (success, { s with
    opened := s.opened.erase s.sock
    connected := s.connected.erase s.sock
    registered := none
    sock := -1 })

def receiveReady (r : Recv) (s : Connection) : Connection :=
  match r with
  | .again => s
  | .error => { s with exited := true }
  | .closed => { s with reconnectPosted := true }
  | .data bytes => { s with msg := bytes, receivePosted := true }

/-- `TcpSocket.send`. Bytes for a peer that has gone raise `SIGPIPE`, which nothing ignores. -/
def send (brokenPipe : Bool) (s : Connection) : Connection :=
  if s.sock = -1 then s else { s with exited := s.exited || brokenPipe }

inductive Event
  | connect (host : String) (port : UInt16) (attempt : Attempt)
  | close
  | send (brokenPipe : Bool)
  | receiveReady (r : Recv)
  | receiveTask
  | reconnectTask (attempt : Attempt)
  | fired (attempt : Attempt)

/-- A new socket has a descriptor that is not in use. -/
def Attempt.Fresh (opened : Finset ℤ) : Attempt → Prop
  | .refused fd => 0 ≤ fd ∧ fd ∉ opened
  | .established fd => 0 ≤ fd ∧ fd ∉ opened
  | _ => True

instance (opened : Finset ℤ) : (attempt : Attempt) → Decidable (attempt.Fresh opened)
  | .unresolved => isTrue trivial
  | .noSocket => isTrue trivial
  | .refused fd => inferInstanceAs (Decidable (0 ≤ fd ∧ fd ∉ opened))
  | .established fd => inferInstanceAs (Decidable (0 ≤ fd ∧ fd ∉ opened))

/-- The watched table signals only what is registered; a task or a one-shot timer is no longer
posted or armed while it runs. -/
def step (s : Connection) (e : Event) : Option Connection :=
  if s.exited then none
  else
    match e with
    | .connect host port attempt =>
        if attempt.Fresh s.opened then some (connect host port attempt s).2 else none
    | .close => some (close s).2
    | .send brokenPipe => some (send brokenPipe s)
    | .receiveReady r => if s.registered.isSome then some (receiveReady r s) else none
    | .receiveTask => if s.receivePosted then some { s with receivePosted := false } else none
    | .reconnectTask attempt =>
        if s.reconnectPosted ∧ attempt.Fresh s.opened then
          some (reconnect attempt { s with reconnectPosted := false })
        else none
    | .fired attempt =>
        if s.reconnectTimer ∧ attempt.Fresh s.opened then
          some (reconnectHelper attempt { s with reconnectTimer := false })
        else none

def machine : Machine Connection Event := ⟨fun s => s = boot, step⟩

/-- One socket at most, known to the component, watched when it is connected; an attempt that
fails leaves nothing behind. -/
structure OwnsOne (s : Connection) : Prop where
  atMostOne : s.opened.card ≤ 1
  known : ∀ fd ∈ s.opened, fd = s.sock
  watched : ∀ fd, s.registered = some fd ↔ fd = s.sock ∧ fd ∈ s.connected
  failures : ∀ left ∈ s.failed, left = (∅, -1)

/-- An attempt is made only while there is no socket, and no new socket is refused. -/
def NoSocketYet (s : Connection) : Event → Prop
  | .connect _ _ attempt => s.sock = -1 ∧ ∀ fd, attempt ≠ .refused fd
  | .reconnectTask _ => s.sock = -1
  | .fired attempt => s.sock = -1 ∧ ∀ fd, attempt ≠ .refused fd
  | _ => True

/-- Either nothing is left anywhere, or one connected socket that everyone agrees on. -/
inductive Holding (s : Connection) : Prop
  | nothing (sock : s.sock = -1) (opened : s.opened = ∅) (connected : s.connected = ∅)
      (registered : s.registered = none)
  | socket (sock : s.sock ≠ -1) (opened : s.opened = {s.sock}) (connected : s.connected = {s.sock})
      (registered : s.registered = some s.sock)

structure Own (s : Connection) : Prop where
  holding : Holding s
  clean : ∀ left ∈ s.failed, left = (∅, -1)

/-- An attempt left a socket behind, or there is one nobody will close. -/
def Leaked (s : Connection) : Prop :=
  (∃ left ∈ s.failed, left ≠ (∅, -1)) ∨ ∃ fd ∈ s.opened, fd ≠ s.sock ∧ fd ≠ -1

theorem own_boot : Own boot :=
  ⟨.nothing rfl rfl rfl rfl, nofun⟩

theorem own_connect {s : Connection} (h : Own s) (host : String) (port : UInt16)
    {attempt : Attempt} (fresh : attempt.Fresh s.opened) (hs : s.sock = -1)
    (ok : ∀ fd, attempt ≠ .refused fd) : Own (connect host port attempt s).2 := by
  obtain ⟨holding, clean⟩ := h
  cases holding with
  | socket sock => exact absurd hs sock
  | nothing sock opened connected registered =>
    cases attempt with
    | refused fd => exact absurd rfl (ok fd)
    | unresolved =>
      refine ⟨.nothing sock opened connected registered, ?_⟩
      intro left hm
      rcases List.mem_cons.mp hm with rfl | hm
      · exact Prod.ext opened sock
      · exact clean left hm
    | noSocket =>
      refine ⟨.nothing rfl opened connected registered, ?_⟩
      intro left hm
      rcases List.mem_cons.mp hm with rfl | hm
      · exact Prod.ext opened rfl
      · exact clean left hm
    | established fd =>
      have hfd : fd ≠ -1 := by
        have := fresh.1
        omega
      refine ⟨.socket hfd ?_ ?_ rfl, clean⟩
      · simp [connect, opened]
      · simp [connect, connected]

theorem connect_result (host : String) (port : UInt16) (attempt : Attempt) (s : Connection) :
    (connect host port attempt s).1 = success ↔ ∃ fd, attempt = .established fd := by
  cases attempt <;> simp [connect, giveFail, success, fail]

theorem reconnectHelper_cases (attempt : Attempt) (s : Connection) :
    ((∃ fd, attempt = .established fd) ∧
      reconnectHelper attempt s = (connect s.remote.1 s.remote.2 attempt s).2) ∨
    ((∀ fd, attempt ≠ .established fd) ∧ reconnectHelper attempt s =
      { (connect s.remote.1 s.remote.2 attempt s).2 with sock := -1, reconnectTimer := true }) := by
  have hr := connect_result s.remote.1 s.remote.2 attempt s
  unfold reconnectHelper
  dsimp only
  by_cases he : ∃ fd, attempt = .established fd
  · rw [if_neg (not_not.mpr (hr.mpr he))]
    exact .inl ⟨he, rfl⟩
  · rw [if_pos (fun hs => he (hr.mp hs))]
    exact .inr ⟨fun fd hfd => he ⟨fd, hfd⟩, rfl⟩

theorem own_reconnectHelper {s : Connection} (h : Own s) {attempt : Attempt}
    (fresh : attempt.Fresh s.opened) (hs : s.sock = -1) (ok : ∀ fd, attempt ≠ .refused fd) :
    Own (reconnectHelper attempt s) := by
  have hc := own_connect h s.remote.1 s.remote.2 fresh hs ok
  rcases reconnectHelper_cases attempt s with ⟨-, he⟩ | ⟨hne, he⟩
  · rw [he]
    exact hc
  · -- a failed attempt that was not refused had no socket to give up
    have hsock : (connect s.remote.1 s.remote.2 attempt s).2.sock = -1 := by
      cases attempt with
      | unresolved => exact hs
      | noSocket => rfl
      | refused fd => exact absurd rfl (ok fd)
      | established fd => exact absurd rfl (hne fd)
    rw [he]
    obtain ⟨holding, clean⟩ := hc
    cases holding with
    | socket sock => exact absurd hsock sock
    | nothing _ opened connected registered =>
      exact ⟨.nothing rfl opened connected registered, clean⟩

theorem own_close {s : Connection} (h : Own s) : Own (close s).2 := by
  unfold close
  by_cases hs : s.sock = -1
  · rw [if_pos hs]
    exact h
  · rw [if_neg hs]
    obtain ⟨holding, clean⟩ := h
    cases holding with
    | nothing sock => exact absurd sock hs
    | socket _ opened connected =>
      refine ⟨.nothing rfl ?_ ?_ rfl, clean⟩
      · simp [opened]
      · simp [connected]

structure SameSocket (s t : Connection) : Prop where
  sock : t.sock = s.sock
  opened : t.opened = s.opened
  connected : t.connected = s.connected
  registered : t.registered = s.registered
  failed : t.failed = s.failed

theorem Own.same {s t : Connection} (h : Own s) (st : SameSocket s t) : Own t := by
  obtain ⟨holding, clean⟩ := h
  obtain ⟨hs, ho, hc, hr, hf⟩ := st
  refine ⟨?_, by rwa [hf]⟩
  cases holding with
  | nothing sock opened connected registered =>
    exact .nothing (hs.trans sock) (ho.trans opened) (hc.trans connected) (hr.trans registered)
  | socket sock opened connected registered =>
    exact .socket (by rwa [hs]) (by rw [ho, hs, opened]) (by rw [hc, hs, connected])
      (by rw [hr, hs, registered])

theorem Leaked.same {s t : Connection} (h : Leaked s) (st : SameSocket s t) : Leaked t := by
  unfold Leaked
  rw [st.sock, st.opened, st.failed]
  exact h

theorem sameSocket_receiveReady (r : Recv) (s : Connection) :
    SameSocket s (receiveReady r s) := by
  cases r <;> exact ⟨rfl, rfl, rfl, rfl, rfl⟩

theorem sameSocket_send (brokenPipe : Bool) (s : Connection) :
    SameSocket s (send brokenPipe s) := by
  unfold send
  split <;> exact ⟨rfl, rfl, rfl, rfl, rfl⟩

theorem step_cases {s t : Connection} {e : Event} (hst : step s e = some t) :
    (∃ host port attempt, e = .connect host port attempt ∧ attempt.Fresh s.opened ∧
      t = (connect host port attempt s).2) ∨
    (e = .close ∧ t = (close s).2) ∨
    (∃ attempt, e = .reconnectTask attempt ∧ attempt.Fresh s.opened ∧ s.reconnectPosted = true ∧
      t = reconnect attempt { s with reconnectPosted := false }) ∨
    (∃ attempt, e = .fired attempt ∧ attempt.Fresh s.opened ∧
      t = reconnectHelper attempt { s with reconnectTimer := false }) ∨
    (SameSocket s t ∧ ((∃ r, e = .receiveReady r ∧ t = receiveReady r s) ∨
      (∃ brokenPipe, e = .send brokenPipe ∧ t = send brokenPipe s) ∨
      (e = .receiveTask ∧ t = { s with receivePosted := false }))) := by
  have hx : ¬s.exited = true := by
    intro hx
    simp [step, hx] at hst
  unfold step at hst
  rw [if_neg hx] at hst
  cases e with
  | connect host port attempt =>
    simp only [Option.ite_none_right_eq_some, Option.some.injEq] at hst
    obtain ⟨fresh, rfl⟩ := hst
    exact .inl ⟨host, port, attempt, rfl, fresh, rfl⟩
  | close =>
    cases hst
    exact .inr (.inl ⟨rfl, rfl⟩)
  | send brokenPipe =>
    cases hst
    exact .inr (.inr (.inr (.inr ⟨sameSocket_send brokenPipe s, .inr (.inl ⟨_, rfl, rfl⟩)⟩)))
  | receiveReady r =>
    simp only [Option.ite_none_right_eq_some, Option.some.injEq] at hst
    obtain ⟨-, rfl⟩ := hst
    exact .inr (.inr (.inr (.inr ⟨sameSocket_receiveReady r s, .inl ⟨r, rfl, rfl⟩⟩)))
  | receiveTask =>
    simp only [Option.ite_none_right_eq_some, Option.some.injEq] at hst
    obtain ⟨-, rfl⟩ := hst
    exact .inr (.inr (.inr (.inr ⟨⟨rfl, rfl, rfl, rfl, rfl⟩, .inr (.inr ⟨rfl, rfl⟩)⟩)))
  | reconnectTask attempt =>
    simp only [Option.ite_none_right_eq_some, Option.some.injEq] at hst
    obtain ⟨⟨posted, fresh⟩, rfl⟩ := hst
    exact .inr (.inr (.inl ⟨attempt, rfl, fresh, posted, rfl⟩))
  | fired attempt =>
    simp only [Option.ite_none_right_eq_some, Option.some.injEq] at hst
    obtain ⟨⟨-, fresh⟩, rfl⟩ := hst
    exact .inr (.inr (.inr (.inl ⟨attempt, rfl, fresh, rfl⟩)))

theorem own_step {s t : Connection} {e : Event} (h : Own s) (ok : NoSocketYet s e)
    (hst : step s e = some t) : Own t := by
  rcases step_cases hst with ⟨host, port, attempt, rfl, fresh, rfl⟩ | ⟨rfl, rfl⟩ |
    ⟨attempt, rfl, -, -, rfl⟩ | ⟨attempt, rfl, fresh, rfl⟩ | ⟨same, -⟩
  · exact own_connect h host port fresh ok.1 ok.2
  · exact own_close h
  · have hs : s.sock = -1 := ok
    rw [reconnect, if_pos hs]
    exact h.same ⟨rfl, rfl, rfl, rfl, rfl⟩
  · exact own_reconnectHelper (s := { s with reconnectTimer := false })
      (h.same ⟨rfl, rfl, rfl, rfl, rfl⟩) fresh ok.1 ok.2
  · exact h.same same

theorem leaked_connect {s : Connection} (h : Leaked s) (host : String) (port : UInt16)
    {attempt : Attempt} (fresh : attempt.Fresh s.opened) :
    Leaked (connect host port attempt s).2 := by
  rcases h with ⟨left, hm, hne⟩ | ⟨fd, hm, hs, hn⟩
  · left
    refine ⟨left, ?_, hne⟩
    cases attempt with
    | established fd => exact hm
    | _ => exact List.mem_cons_of_mem _ hm
  · right
    cases attempt with
    | unresolved => exact ⟨fd, hm, hs, hn⟩
    | noSocket => exact ⟨fd, hm, hn, hn⟩
    | refused fd' =>
      exact ⟨fd, Finset.mem_insert_of_mem hm, fun he : fd = fd' => fresh.2 (he ▸ hm), hn⟩
    | established fd' =>
      exact ⟨fd, Finset.mem_insert_of_mem hm, fun he : fd = fd' => fresh.2 (he ▸ hm), hn⟩

theorem leaked_reconnectHelper {s : Connection} {attempt : Attempt}
    (h : Leaked (connect s.remote.1 s.remote.2 attempt s).2) :
    Leaked (reconnectHelper attempt s) := by
  rcases reconnectHelper_cases attempt s with ⟨-, he⟩ | ⟨-, he⟩
  · rwa [he]
  · rw [he]
    rcases h with hleft | ⟨fd, hm, -, hn⟩
    · exact .inl hleft
    · exact .inr ⟨fd, hm, hn, hn⟩

theorem leaked_forget {s : Connection} (h : Leaked s) : Leaked (forget s) := by
  rcases h with hleft | ⟨fd, hm, -, hn⟩
  · exact .inl hleft
  · exact .inr ⟨fd, hm, hn, hn⟩

theorem leaked_close {s : Connection} (h : Leaked s) : Leaked (close s).2 := by
  unfold close
  by_cases hs : s.sock = -1
  · rw [if_pos hs]
    exact h
  · rw [if_neg hs]
    rcases h with hleft | ⟨fd, hm, hne, hn⟩
    · exact .inl hleft
    · exact .inr ⟨fd, Finset.mem_erase.mpr ⟨hne, hm⟩, hn, hn⟩

theorem leaked_step {s t : Connection} {e : Event} (h : Leaked s) (hst : step s e = some t) :
    Leaked t := by
  rcases step_cases hst with ⟨host, port, attempt, rfl, fresh, rfl⟩ | ⟨rfl, rfl⟩ |
    ⟨attempt, rfl, fresh, -, rfl⟩ | ⟨attempt, rfl, fresh, rfl⟩ | ⟨same, -⟩
  · exact leaked_connect h host port fresh
  · exact leaked_close h
  · unfold reconnect
    split
    · exact h.same ⟨rfl, rfl, rfl, rfl, rfl⟩
    · have hf : Leaked (forget { s with reconnectPosted := false }) :=
        leaked_forget (h.same ⟨rfl, rfl, rfl, rfl, rfl⟩)
      exact leaked_reconnectHelper (leaked_connect hf _ _ fresh)
  · have hf : Leaked { s with reconnectTimer := false } := h.same ⟨rfl, rfl, rfl, rfl, rfl⟩
    exact leaked_reconnectHelper (leaked_connect hf _ _ fresh)
  · exact h.same same

/-- An attempt with a socket at hand, or one that is refused, leaves a socket behind. -/
theorem leaked_of_attempt {s : Connection} (h : Own s) (host : String) (port : UInt16)
    {attempt : Attempt} (fresh : attempt.Fresh s.opened)
    (bad : ¬(s.sock = -1 ∧ ∀ fd, attempt ≠ .refused fd)) :
    Leaked (connect host port attempt s).2 := by
  by_cases hrefused : ∃ fd, attempt = .refused fd
  · obtain ⟨fd, rfl⟩ := hrefused
    refine .inl ⟨_, List.mem_cons_self, ?_⟩
    intro he
    exact absurd (congrArg Prod.fst he) (Finset.insert_ne_empty _ _)
  · have hok : ∀ fd, attempt ≠ .refused fd := fun fd he => hrefused ⟨fd, he⟩
    have hs : s.sock ≠ -1 := fun hs => bad ⟨hs, hok⟩
    cases h.holding with
    | nothing sock => exact absurd sock hs
    | socket _ opened =>
      have hmem : s.sock ∈ s.opened := by rw [opened]; exact Finset.mem_singleton_self _
      have hne : s.opened ≠ ∅ := Finset.ne_empty_of_mem hmem
      cases attempt with
      | refused fd => exact absurd rfl (hok fd)
      | unresolved =>
        exact .inl ⟨_, List.mem_cons_self, fun he => hne (congrArg Prod.fst he)⟩
      | noSocket =>
        exact .inl ⟨_, List.mem_cons_self, fun he => hne (congrArg Prod.fst he)⟩
      | established fd =>
        exact .inr ⟨s.sock, Finset.mem_insert_of_mem hmem,
          fun he : s.sock = fd => fresh.2 (he ▸ hmem), hs⟩

theorem leaked_of_not_ok {s t : Connection} {e : Event} (h : Own s) (bad : ¬NoSocketYet s e)
    (hst : step s e = some t) : Leaked t := by
  rcases step_cases hst with ⟨host, port, attempt, rfl, fresh, rfl⟩ | ⟨rfl, rfl⟩ |
    ⟨attempt, rfl, fresh, -, rfl⟩ | ⟨attempt, rfl, fresh, rfl⟩ | ⟨-, hother⟩
  · exact leaked_of_attempt h host port fresh bad
  · exact absurd trivial bad
  · -- the socket is taken out of the table and forgotten, but not closed
    have hs : s.sock ≠ -1 := bad
    cases h.holding with
    | nothing sock => exact absurd sock hs
    | socket _ opened =>
      have hmem : s.sock ∈ s.opened := by rw [opened]; exact Finset.mem_singleton_self _
      have hf : Leaked (forget { s with reconnectPosted := false }) :=
        .inr ⟨s.sock, hmem, hs, hs⟩
      rw [reconnect, if_neg hs]
      exact leaked_reconnectHelper (leaked_connect hf _ _ fresh)
  · have hf : Own { s with reconnectTimer := false } := h.same ⟨rfl, rfl, rfl, rfl, rfl⟩
    exact leaked_reconnectHelper (leaked_of_attempt hf _ _ fresh bad)
  · rcases hother with ⟨r, rfl, -⟩ | ⟨b, rfl, -⟩ | ⟨rfl, -⟩ <;> exact absurd trivial bad

theorem Own.ownsOne {s : Connection} (h : Own s) : OwnsOne s := by
  obtain ⟨holding, clean⟩ := h
  cases holding with
  | nothing sock opened connected registered =>
    refine ⟨by simp [opened], by simp [opened], ?_, clean⟩
    simp [registered, connected]
  | socket sock opened connected registered =>
    refine ⟨by simp [opened], by simp [opened], ?_, clean⟩
    intro fd
    rw [registered, connected, Finset.mem_singleton, Option.some.injEq]
    constructor
    · rintro rfl
      exact ⟨rfl, rfl⟩
    · rintro ⟨he, -⟩
      exact he.symm

theorem leaked_not_ownsOne {s : Connection} (h : Leaked s) : ¬OwnsOne s := by
  intro hown
  rcases h with ⟨left, hm, hne⟩ | ⟨fd, hm, hs, -⟩
  · exact hne (hown.failures left hm)
  · exact hs (hown.known fd hm)

/-- Its one socket is accounted for exactly as long as every attempt finds none and is not
refused. -/
theorem ownsOne_iff_noSocketYet (s : Connection) (h : machine.Reachable Machine.Any s) :
    OwnsOne s ↔ machine.Reachable NoSocketYet s := by
  have hown {u : Connection} (hr : machine.Reachable NoSocketYet u) : Own u := by
    apply hr.invariant
    · rintro u rfl
      exact own_boot
    · intro u e v
      exact own_step
  constructor
  · intro ho
    have hor : machine.Reachable NoSocketYet s ∨ Leaked s := h.ok_or_broken
      (fun _ _ _ hr hne hst => leaked_of_not_ok (hown hr) hne hst)
      (fun _ _ _ hl hst => leaked_step hl hst)
    exact hor.resolve_right fun hl => leaked_not_ownsOne hl ho
  · intro hr
    exact (hown hr).ownsOne

theorem boot_reachable : machine.Reachable Machine.Any boot := .start rfl

/-- A host that cannot be resolved at first, then a connection that the user closes. -/
theorem ownsOne_iff_noSocketYet_closed :
    ∃ s, s.opened = {7} ∧ (OwnsOne s ↔ machine.Reachable NoSocketYet s) := by
  have hrun : (machine.run boot [.connect "host" 7000 .unresolved,
      .connect "host" 7000 (.established 5), .receiveReady (.data [1]), .receiveTask, .close,
      .connect "host" 7000 (.established 7)]).map Connection.opened = some {7} := by
    decide +kernel
  obtain ⟨s, hs, ho⟩ := Option.map_eq_some_iff.mp hrun
  exact ⟨s, ho, ownsOne_iff_noSocketYet s (boot_reachable.run _ hs)⟩

/-- The peer closes the connection and the component reconnects: the old socket stays open. -/
theorem reconnect_leaks_socket :
    ∃ s, machine.Reachable Machine.Any s ∧ s.opened = {5, 6} ∧ s.sock = 6 ∧ ¬OwnsOne s := by
  have hrun : (machine.run boot [.connect "host" 7000 (.established 5), .receiveReady .closed,
      .reconnectTask (.established 6)]).map (fun s => (s.opened, s.sock)) =
        some ({5, 6}, 6) := by decide +kernel
  obtain ⟨s, hs, he⟩ := Option.map_eq_some_iff.mp hrun
  obtain ⟨ho, hsock⟩ := Prod.mk.inj he
  refine ⟨s, boot_reachable.run _ hs, ho, hsock, ?_⟩
  intro hown
  have h5 := hown.known 5 (by rw [ho]; decide)
  rw [hsock] at h5
  exact absurd h5 (by decide)

end RpiCc2520.TcpConnection
