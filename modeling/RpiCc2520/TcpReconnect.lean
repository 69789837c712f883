import RpiCc2520.TcpConnection

/-! A connection once made is made again and again: what is left to do it, and what ends the
process instead. -/
namespace RpiCc2520.TcpConnection
open RadioMessage

/-- From a `connect` that succeeded, whatever came before it, with a user that never closes. -/
def startedMachine : Machine Connection Event where
  initial s := ∃ s₀ host port fd, machine.Reachable Machine.Any s₀ ∧
    step s₀ (.connect host port (.established fd)) = some s
  step s e := match e with
    | .close => none
    | e => step s e

/-- It is connected and watched, or a new attempt is on its way, and the process is alive. -/
structure NeverGivesUp (s : Connection) : Prop where
  goesOn : (s.sock ∈ s.connected ∧ s.registered = some s.sock) ∨ s.reconnectPosted = true ∨
    s.reconnectTimer = true
  alive : s.exited = false

/-- The attempt has overwritten `sock` when it fails. -/
def Attempt.losesSocket : Attempt → Bool
  | .noSocket => true
  | .refused _ => true
  | .unresolved => false
  | .established _ => false

def Retrying (s : Connection) : Prop := s.reconnectPosted = true ∨ s.reconnectTimer = true

instance (s : Connection) : Decidable (Retrying s) :=
  inferInstanceAs (Decidable (s.reconnectPosted = true ∨ s.reconnectTimer = true))

/-- `recv` reports no error but `EAGAIN`, no bytes are sent to a peer that has gone, an attempt
of the user that costs the socket is made only with another one on its way, and the task finds a
socket or the timer armed. -/
def PeerBehaves (s : Connection) : Event → Prop
  | .receiveReady r => r ≠ .error
  | .send brokenPipe => brokenPipe = true → s.sock = -1
  | .connect _ _ attempt => attempt.losesSocket = true → Retrying s
  | .reconnectTask _ => s.sock ≠ -1 ∨ s.reconnectTimer = true
  | _ => True

instance (s : Connection) : (e : Event) → Decidable (PeerBehaves s e)
  | .receiveReady r => inferInstanceAs (Decidable (r ≠ .error))
  | .send brokenPipe => inferInstanceAs (Decidable (brokenPipe = true → s.sock = -1))
  | .connect _ _ attempt =>
      inferInstanceAs (Decidable (attempt.losesSocket = true → Retrying s))
  | .reconnectTask _ => inferInstanceAs (Decidable (s.sock ≠ -1 ∨ s.reconnectTimer = true))
  | .close => isTrue trivial
  | .receiveTask => isTrue trivial
  | .fired _ => isTrue trivial

/-- The kernel's descriptors are not negative, and a connected socket is open. -/
structure Descriptors (s : Connection) : Prop where
  nonneg : ∀ fd ∈ s.opened, 0 ≤ fd
  connected : s.connected ⊆ s.opened

theorem Descriptors.sock_ne {s : Connection} (h : Descriptors s) : -1 ∉ s.connected := by
  intro hm
  have := h.nonneg _ (h.connected hm)
  omega

theorem Descriptors.same {s t : Connection} (h : Descriptors s) (ho : t.opened = s.opened)
    (hc : t.connected = s.connected) : Descriptors t := by
  refine ⟨?_, ?_⟩
  · rw [ho]
    exact h.nonneg
  · rw [ho, hc]
    exact h.connected

theorem descriptors_connect {s : Connection} (h : Descriptors s) (host : String) (port : UInt16)
    {attempt : Attempt} (fresh : attempt.Fresh s.opened) :
    Descriptors (connect host port attempt s).2 := by
  cases attempt with
  | unresolved => exact h.same rfl rfl
  | noSocket => exact h.same rfl rfl
  | refused fd =>
    constructor
    · intro fd' hm
      rcases Finset.mem_insert.mp hm with rfl | hm
      · exact fresh.1
      · exact h.nonneg fd' hm
    · exact h.connected.trans (Finset.subset_insert fd s.opened)
  | established fd =>
    constructor
    · intro fd' hm
      rcases Finset.mem_insert.mp hm with rfl | hm
      · exact fresh.1
      · exact h.nonneg fd' hm
    · exact Finset.insert_subset_insert fd h.connected

theorem descriptors_reconnectHelper {s : Connection} (h : Descriptors s) {attempt : Attempt}
    (fresh : attempt.Fresh s.opened) : Descriptors (reconnectHelper attempt s) := by
  have hc := descriptors_connect h s.remote.1 s.remote.2 fresh
  rcases reconnectHelper_cases attempt s with ⟨-, he⟩ | ⟨-, he⟩
  · rwa [he]
  · rw [he]
    exact hc.same rfl rfl

theorem descriptors_step {s t : Connection} {e : Event} (h : Descriptors s)
    (hst : step s e = some t) : Descriptors t := by
  rcases step_cases hst with ⟨host, port, attempt, rfl, fresh, rfl⟩ | ⟨rfl, rfl⟩ |
    ⟨attempt, rfl, fresh, -, rfl⟩ | ⟨attempt, rfl, fresh, rfl⟩ | ⟨same, -⟩
  · exact descriptors_connect h host port fresh
  · unfold close
    split
    · exact h
    · exact ⟨fun fd hm => h.nonneg fd (Finset.mem_of_mem_erase hm),
        Finset.erase_subset_erase _ h.connected⟩
  · have hf : Descriptors (forget { s with reconnectPosted := false }) := h.same rfl rfl
    unfold reconnect
    split
    · exact h.same rfl rfl
    · exact descriptors_reconnectHelper hf fresh
  · have hf : Descriptors { s with reconnectTimer := false } := h.same rfl rfl
    exact descriptors_reconnectHelper hf fresh
  · exact h.same same.opened same.connected

theorem goesOn_reconnectHelper (attempt : Attempt) (s : Connection) :
    ((reconnectHelper attempt s).sock ∈ (reconnectHelper attempt s).connected ∧
      (reconnectHelper attempt s).registered = some (reconnectHelper attempt s).sock) ∨
        (reconnectHelper attempt s).reconnectTimer = true := by
  rcases reconnectHelper_cases attempt s with ⟨⟨fd, rfl⟩, he⟩ | ⟨-, he⟩
  · rw [he]
    exact .inl ⟨Finset.mem_insert_self fd s.connected, rfl⟩
  · rw [he]
    exact .inr rfl

theorem exited_connect (host : String) (port : UInt16) (attempt : Attempt) (s : Connection) :
    (connect host port attempt s).2.exited = s.exited := by
  cases attempt <;> rfl

theorem exited_reconnectHelper (attempt : Attempt) (s : Connection) :
    (reconnectHelper attempt s).exited = s.exited := by
  have hc := exited_connect s.remote.1 s.remote.2 attempt s
  rcases reconnectHelper_cases attempt s with ⟨-, he⟩ | ⟨-, he⟩
  · rwa [he]
  · rw [he]
    exact hc

theorem neverGivesUp_connect {s : Connection} (h : NeverGivesUp s) (hd : Descriptors s)
    (host : String) (port : UInt16) {attempt : Attempt} (fresh : attempt.Fresh s.opened) :
    NeverGivesUp (connect host port attempt s).2 ↔
      (attempt.losesSocket = true → Retrying s) := by
  have halive : (connect host port attempt s).2.exited = false := by
    rw [exited_connect, h.alive]
  cases attempt with
  | unresolved => exact iff_of_true ⟨h.goesOn, halive⟩ nofun
  | established fd =>
    exact iff_of_true ⟨.inl ⟨Finset.mem_insert_self fd s.connected, rfl⟩, halive⟩ nofun
  | noSocket =>
    constructor
    · rintro ⟨⟨hm, -⟩ | hretry, -⟩ _
      · exact absurd hm hd.sock_ne
      · exact hretry
    · intro hretry
      exact ⟨.inr (hretry rfl), halive⟩
  | refused fd =>
    constructor
    · rintro ⟨⟨hm, -⟩ | hretry, -⟩ _
      · exact absurd (hd.connected hm) fresh.2
      · exact hretry
    · intro hretry
      exact ⟨.inr (hretry rfl), halive⟩

theorem neverGivesUp_reconnectTask {s : Connection} (h : NeverGivesUp s) (hd : Descriptors s)
    (attempt : Attempt) : NeverGivesUp (reconnect attempt { s with reconnectPosted := false }) ↔
      s.sock ≠ -1 ∨ s.reconnectTimer = true := by
  unfold reconnect
  by_cases hs : s.sock = -1
  · -- the task does nothing and is used up
    rw [if_pos hs]
    constructor
    · rintro ⟨⟨hm, -⟩ | hposted | htimer, -⟩
      · simp only [hs] at hm
        exact absurd hm hd.sock_ne
      · cases hposted
      · exact .inr htimer
    · rintro (hne | htimer)
      · exact absurd hs hne
      · exact ⟨.inr (.inr htimer), h.alive⟩
  · rw [if_neg hs]
    refine iff_of_true ⟨?_, ?_⟩ (.inl hs)
    · exact (goesOn_reconnectHelper attempt _).imp_right .inr
    · rw [exited_reconnectHelper]
      exact h.alive

theorem neverGivesUp_receiveReady {s : Connection} (h : NeverGivesUp s) (r : Recv) :
    NeverGivesUp (receiveReady r s) ↔ r ≠ .error := by
  cases r with
  | again => exact iff_of_true h nofun
  | closed => exact iff_of_true ⟨.inr (.inl rfl), h.alive⟩ nofun
  | data bytes => exact iff_of_true ⟨h.goesOn, h.alive⟩ nofun
  | error =>
    constructor
    · rintro ⟨-, halive⟩
      cases halive
    · intro hne
      exact absurd rfl hne

theorem neverGivesUp_send {s : Connection} (h : NeverGivesUp s) (brokenPipe : Bool) :
    NeverGivesUp (send brokenPipe s) ↔ (brokenPipe = true → s.sock = -1) := by
  unfold send
  by_cases hs : s.sock = -1
  · rw [if_pos hs]
    exact iff_of_true h fun _ => hs
  · rw [if_neg hs]
    constructor
    · rintro ⟨-, halive⟩ rfl
      simp at halive
    · intro hb
      have hbroken : brokenPipe = false := by
        by_contra hne
        exact hs (hb (by simpa using hne))
      exact ⟨h.goesOn, by simp [h.alive, hbroken]⟩

theorem startedMachine_step {s t : Connection} {e : Event}
    (hst : startedMachine.step s e = some t) : step s e = some t ∧ e ≠ .close := by
  cases e with
  | close => cases hst
  | _ => exact ⟨hst, nofun⟩

/-- A step keeps the connection going exactly if it meets the condition. -/
theorem neverGivesUp_step {s t : Connection} {e : Event} (h : NeverGivesUp s)
    (hd : Descriptors s) (hst : startedMachine.step s e = some t) :
    NeverGivesUp t ↔ PeerBehaves s e := by
  obtain ⟨hst, hclose⟩ := startedMachine_step hst
  rcases step_cases hst with ⟨host, port, attempt, rfl, fresh, rfl⟩ | ⟨rfl, -⟩ |
    ⟨attempt, rfl, -, -, rfl⟩ | ⟨attempt, rfl, -, rfl⟩ |
    ⟨-, ⟨r, rfl, rfl⟩ | ⟨brokenPipe, rfl, rfl⟩ | ⟨rfl, rfl⟩⟩
  · exact neverGivesUp_connect h hd host port fresh
  · exact absurd rfl hclose
  · exact neverGivesUp_reconnectTask h hd attempt
  · refine iff_of_true ⟨?_, ?_⟩ trivial
    · exact (goesOn_reconnectHelper attempt _).imp_right .inr
    · rw [exited_reconnectHelper]
      exact h.alive
  · exact neverGivesUp_receiveReady h r
  · exact neverGivesUp_send h brokenPipe
  · exact iff_of_true ⟨h.goesOn, h.alive⟩ trivial

theorem descriptors_reachable {s : Connection} (h : machine.Reachable Machine.Any s) :
    Descriptors s := by
  apply h.invariant
  · rintro s rfl
    exact ⟨by simp [boot], by simp [boot]⟩
  · intro s e t hs _ hst
    exact descriptors_step hs hst

theorem neverGivesUp_initial {s : Connection} (h : startedMachine.initial s) :
    NeverGivesUp s ∧ Descriptors s := by
  obtain ⟨s₀, host, port, fd, hr, hst⟩ := h
  have hd := descriptors_step (descriptors_reachable hr) hst
  rcases step_cases hst with ⟨_, _, _, he, -, rfl⟩ | ⟨he, -⟩ | ⟨_, he, -⟩ | ⟨_, he, -⟩ |
    ⟨-, ⟨_, he, -⟩ | ⟨_, he, -⟩ | ⟨he, -⟩⟩
  · cases he
    refine ⟨⟨.inl ⟨Finset.mem_insert_self fd s₀.connected, rfl⟩, ?_⟩, hd⟩
    rw [exited_connect]
    by_contra hx
    simp [step, hx] at hst
  all_goals cases he

/-- While the peer and the user keep to the condition the connection is up or being made again;
the first step that does not keep to it ends that. -/
theorem neverGivesUp_of_peerBehaves (s : Connection)
    (h : startedMachine.Reachable PeerBehaves s) :
    NeverGivesUp s ∧ ∀ e t, startedMachine.step s e = some t →
      (NeverGivesUp t ↔ PeerBehaves s e) := by
  have hs : NeverGivesUp s ∧ Descriptors s := by
    apply h.invariant (I := fun s => NeverGivesUp s ∧ Descriptors s)
    · intro s
      exact neverGivesUp_initial
    · intro s e t ⟨hn, hd⟩ ok hst
      exact ⟨(neverGivesUp_step hn hd hst).mpr ok,
        descriptors_step hd (startedMachine_step hst).1⟩
  refine ⟨hs.1, ?_⟩
  intro e t hst
  exact neverGivesUp_step hs.1 hs.2 hst

def connectedOnce : Connection := (connect "host" 7000 (.established 5) boot).2

theorem connectedOnce_reachable (ok : Connection → Event → Prop) :
    startedMachine.Reachable ok connectedOnce :=
  .start ⟨boot, "host", 7000, 5, boot_reachable, rfl⟩

/-- The peer closes, two attempts fail and the timer makes a third. -/
theorem neverGivesUp_of_peerBehaves_retried :
    ∃ s, s.sock = 8 ∧ s.registered = some 8 ∧ NeverGivesUp s := by
  have hrun : (startedMachine.runMeeting PeerBehaves connectedOnce [.receiveReady .again,
      .receiveReady .closed, .reconnectTask (.refused 6), .fired .unresolved,
      .fired (.established 8)]).map (fun s => (s.sock, s.registered)) = some (8, some 8) := by
    decide +kernel
  obtain ⟨s, hs, he⟩ := Option.map_eq_some_iff.mp hrun
  obtain ⟨hsock, hr⟩ := Prod.mk.inj he
  exact ⟨s, hsock, hr, (neverGivesUp_of_peerBehaves s
    ((connectedOnce_reachable PeerBehaves).runMeeting _ hs)).1⟩

/-- The network resets the connection: `recv` fails, and the process exits. -/
theorem reset_exits :
    ∃ s, startedMachine.Reachable Machine.Any s ∧ s.exited = true ∧ ¬NeverGivesUp s := by
  have hrun : (startedMachine.run connectedOnce [.receiveReady .error]).map
      Connection.exited = some true := by decide +kernel
  obtain ⟨s, hs, hx⟩ := Option.map_eq_some_iff.mp hrun
  refine ⟨s, (connectedOnce_reachable Machine.Any).run _ hs, hx, ?_⟩
  intro hn
  exact absurd (hx.symm.trans hn.alive) (by decide)

end RpiCc2520.TcpConnection
