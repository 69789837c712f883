import RpiCc2520.TunnelSession

/-! The shutdown of a session: it goes through unless `clientTUN` looks for the quit message
too early. -/
namespace RpiCc2520.TunnelShutdown
open TunnelSession

/-- A session and the lock its handler holds for the client. -/
structure Held where
  session : Session
  locked : Bool

inductive HeldEvent
  | session (e : Event)
  | unlockClient

def heldStep (s : Held) : HeldEvent → Option Held
  | .session e => (step s.session e).map fun session => { s with session := session }
  | .unlockClient =>
      if s.session.handler = .left ∧ s.locked = true then some { s with locked := false }
      else none

def heldMachine : Machine Held HeldEvent := ⟨fun s => s = ⟨started, true⟩, heldStep⟩

/-- A step of one of the goroutines, not of the network. -/
def HeldEvent.IsInternal : HeldEvent → Prop
  | .session (.tunArrives _) => False
  | _ => True

/-- The handler and `clientTUN` do not wait for one another, and once the end of the
connection has been reported the goroutines can finish and release the lock. -/
structure ShutsDown (s : Held) : Prop where
  notStuck : s.session.handler = .sendQuit2 → ∀ pkt, s.session.tunReader ≠ .send pkt
  completes : s.session.tcpReader = .ended →
    ∃ es t, (∀ e ∈ es, e.IsInternal) ∧ heldMachine.run s es = some t ∧ t.locked = false

/-- When the handler takes the quit message `clientTUN` has no packet it looked at the quit
channel for and did not hand over, and it does not look before the handler has sent it on. -/
def QuitInTime (s : Held) (e : HeldEvent) : Prop :=
  (e = .session .tcpQuit → ∀ pkt, s.session.tunReader ≠ .send pkt) ∧
    (e = .session .tunCheck → s.session.handler ≠ .sendQuit)

/-- After the end of the connection `clientTUN` is on its way to the quit message, and a
packet is there to wake it. -/
structure Prompt (s : Session) : Prop where
  staged : Staged s
  notSending : s.tcpReader = .ended → ∀ pkt, s.tunReader ≠ .send pkt
  woken : s.handler = .sendQuit2 → s.tunReader = .read → s.device ≠ []

theorem prompt_started : Prompt started := ⟨staged_started, nofun, nofun⟩

theorem prompt_moved {s t : Session} {e : Event} (h : Prompt s) (m : Moved s e t)
    (quit : e = .tcpQuit → ∀ pkt, s.tunReader ≠ .send pkt)
    (check : e = .tunCheck → s.handler ≠ .sendQuit) : Prompt t := by
  refine ⟨staged_moved h.staged m, ?_, ?_⟩
  · cases m with
    | tcpQuit => exact fun _ => quit rfl
    | tcpData | tcpEnd | tcpChunk | tunRead | tunLeave | tunPacket | tunClose | tunQuit2 => nofun
    | tunArrives | writeTun | writeTcp | sendQuit | wakeUp | unsetTunName => exact h.notSending
    | @tunKeep pkt tun empty =>
      intro ended
      have hserving : s.tunReader.Serving := tun ▸ .check pkt
      have hsend := h.staged.stage.sendQuit_of_empty empty hserving (h.staged.tcp.mp ended)
      exact absurd hsend (check rfl)
  · cases m with
    | tunArrives => exact fun _ _ => by simp
    | wakeUp => exact fun _ _ => by simp
    | tcpChunk | tcpQuit | tunRead | tunKeep | tunLeave | tunClose | tunQuit2 | writeTun
      | writeTcp | sendQuit | unsetTunName => nofun
    | tunPacket => nofun
    | tcpData | tcpEnd => exact h.woken

theorem prompt_step {s t : Held} {e : HeldEvent} (h : Prompt s.session) (ok : QuitInTime s e)
    (hst : heldStep s e = some t) : Prompt t.session := by
  cases e with
  | session e =>
    obtain ⟨u, hu, hst⟩ := Option.map_eq_some_iff.mp hst
    cases hst
    exact prompt_moved h (moved_of_step hu) (fun he => ok.1 (congrArg _ he))
      fun he => ok.2 (congrArg _ he)
  | unlockClient =>
    simp only [heldStep, Option.ite_none_right_eq_some] at hst
    obtain ⟨-, hst⟩ := hst
    cases hst
    exact h

/-- The steps the handler has left. -/
def handlerRank : HandlerPc → ℕ
  | .sendQuit => 4
  | .wakeUp => 3
  | .sendQuit2 => 2
  | .unsetTunName => 1
  | _ => 0

/-- The steps `clientTUN` has left, once the handler has left its loop. -/
def tunRank : TunPc → ℕ
  | .read => 4
  | .check _ => 3
  | .close => 2
  | .recvQuit2 => 1
  | _ => 0

def rank (s : Session) : ℕ := handlerRank s.handler + tunRank s.tunReader

/-- A step other than an exchange with `clientTCP` brings a session in shutdown closer to its
end. -/
theorem session_progress {s : Session} (h : Prompt s) (ended : s.tcpReader = .ended)
    (busy : s.handler ≠ .left) :
    ∃ e t, (∀ pkt, e ≠ .tunArrives pkt) ∧ step s e = some t ∧ Prompt t ∧
      t.tcpReader = .ended ∧ rank t < rank s := by
  -- the step below is never one of the two that need care
  have take {e : Event} {t : Session} (hst : step s e = some t)
      (hne : (∀ pkt, e ≠ .tunArrives pkt) ∧ e ≠ .tcpQuit ∧ (e = .tunCheck → s.handler ≠ .sendQuit))
      (tcp : t.tcpReader = s.tcpReader) (less : rank t < rank s) :
      ∃ e t, (∀ pkt, e ≠ .tunArrives pkt) ∧ step s e = some t ∧ Prompt t ∧
        t.tcpReader = .ended ∧ rank t < rank s :=
    ⟨e, t, hne.1, hst, prompt_moved h (moved_of_step hst) (fun he => absurd he hne.2.1) hne.2.2,
      tcp.trans ended, less⟩
  have hloop := h.staged.tcp.mp ended
  have hstage := h.staged.stage
  obtain ⟨handler, tcpReader, tunReader, tunQuit, tunOpen, device, toTun, toTcp, teardown⟩ := s
  dsimp only at hloop hstage busy
  cases hstage with
  | shuffling loop => exact absurd loop hloop
  | leaving serving => exact take (e := .sendQuit) rfl (by simp) rfl (by simp [rank, handlerRank])
  | asked waiting serving =>
    cases waiting with
    | wakeUp => exact take (e := .wakeUp []) rfl (by simp) rfl (by simp [rank, handlerRank])
    | sendQuit2 =>
      cases serving with
      | read =>
        cases device with
        | nil => exact absurd rfl (h.woken rfl rfl)
        | cons pkt device => exact take (e := .tunRead) rfl (by simp) rfl (by simp [rank, tunRank])
      | check pkt => exact take (e := .tunCheck) rfl (by simp) rfl (by simp [rank, tunRank])
      | send pkt => exact absurd rfl (h.notSending ended pkt)
  | closing => exact take (e := .tunClose) rfl (by simp) rfl (by simp [rank, tunRank])
  | closed waiting =>
    cases waiting with
    | wakeUp => exact take (e := .wakeUp []) rfl (by simp) rfl (by simp [rank, handlerRank])
    | sendQuit2 =>
      exact take (e := .tunQuit2) rfl (by simp) rfl (by simp [rank, handlerRank, tunRank])
  | confirmed => exact take (e := .unsetTunName) rfl (by simp) rfl (by simp [rank, handlerRank])
  | left => exact absurd rfl busy

def Remaining (n : ℕ) (s : Held) : Prop :=
  Prompt s.session ∧ s.session.tcpReader = .ended ∧ n = rank s.session + s.locked.toNat

theorem remaining_progress (n : ℕ) (s : Held) (h : Remaining n s) :
    s.locked = false ∨ ∃ e t m, HeldEvent.IsInternal e ∧ m < n ∧
      heldMachine.step s e = some t ∧ Remaining m t := by
  obtain ⟨hp, ended, rfl⟩ := h
  by_cases hleft : s.session.handler = .left
  · cases hl : s.locked with
    | false => exact .inl rfl
    | true =>
      have hst : heldMachine.step s .unlockClient = some { s with locked := false } :=
        if_pos ⟨hleft, hl⟩
      exact .inr ⟨.unlockClient, _, _, trivial, by simp, hst, hp, ended, rfl⟩
  · obtain ⟨e, t, harr, hst, ht, htcp, hless⟩ := session_progress hp ended hleft
    have hinternal : HeldEvent.IsInternal (.session e) := by
      cases e with
      | tunArrives pkt => exact absurd rfl (harr pkt)
      | _ => trivial
    refine .inr ⟨.session e, { s with session := t }, _, hinternal, ?_, ?_, ht, htcp, rfl⟩
    · exact Nat.add_lt_add_right hless _
    · simp [heldMachine, heldStep, hst]

theorem Prompt.shutsDown {s : Held} (h : Prompt s.session) : ShutsDown s := by
  refine ⟨fun waiting => h.notSending (h.staged.tcp.mpr (by rw [waiting]; nofun)), fun ended => ?_⟩
  exact Machine.exists_allowed_run_of_rank remaining_progress ⟨h, ended, rfl⟩

/-- In every run in which `clientTUN` looks in time, the shutdown goes through. -/
theorem shutsDown_of_quitInTime (s : Held) (h : heldMachine.Reachable QuitInTime s) :
    ShutsDown s := by
  have hp : Prompt s.session := by
    refine h.invariant (I := fun s => Prompt s.session) ?_ fun _ _ _ => prompt_step
    rintro _ rfl
    exact prompt_started
  exact hp.shutsDown

instance (s : Held) : DecidablePred (QuitInTime s)
  | .session .tcpQuit => match h : s.session.tunReader with
      | .send pkt => .isFalse fun ok => ok.1 rfl pkt h
      | .read | .check _ | .close | .recvQuit2 | .ended =>
          .isTrue ⟨fun _ _ hsend => (by cases h.symm.trans hsend), nofun⟩
  | .session .tunCheck => decidable_of_iff (s.session.handler ≠ .sendQuit)
      ⟨fun h => ⟨nofun, fun _ => h⟩, fun h => h.2 rfl⟩
  | .session (.tunArrives _) | .session (.tcpRead _) | .session .tcpChunk | .session .tunRead
  | .session .tunPacket | .session .tunClose | .session .tunQuit2 | .session .writeTun
  | .session .writeTcp | .session .sendQuit | .session (.wakeUp _) | .session .unsetTunName
  | .unlockClient => .isTrue ⟨nofun, nofun⟩

def idleSession : List HeldEvent :=
  [.tunArrives [1], .tunRead, .tunCheck, .tunPacket, .writeTcp, .tcpRead [2], .tcpChunk, .writeTun,
    .tcpRead [], .tcpQuit].map .session

/-- A packet each way, then the client goes while `clientTUN` is reading. -/
theorem shutsDown_of_quitInTime_idle :
    ∃ s, heldMachine.Reachable QuitInTime s ∧ s.session.toTun = [[2]] ∧ s.session.toTcp = [1] ∧
      s.session.tcpReader = .ended ∧ ShutsDown s := by
  have hseen : (heldMachine.runMeeting QuitInTime ⟨started, true⟩ idleSession).map
      (fun s => (s.session.toTun, s.session.toTcp, s.session.tcpReader)) =
        some ([[2]], [1], .ended) := rfl
  obtain ⟨s, hs, he⟩ := Option.map_eq_some_iff.mp hseen
  obtain ⟨htun, he⟩ := Prod.mk.inj he
  obtain ⟨htcp, hreader⟩ := Prod.mk.inj he
  have hstart : heldMachine.Reachable QuitInTime ⟨started, true⟩ := .start rfl
  have hreach := hstart.runMeeting idleSession hs
  exact ⟨s, hreach, htun, htcp, hreader, shutsDown_of_quitInTime s hreach⟩

/-- A packet read just before the client goes: `clientTUN` found no quit message and waits to
hand the packet over, the handler waits for `clientTUN`. -/
theorem late_packet_blocks_shutdown :
    ¬∀ s, heldMachine.Reachable Machine.Any s → ShutsDown s := by
  intro h
  have h0 : heldMachine.Reachable Machine.Any ⟨started, true⟩ := .start rfl
  have hs := h _ (h0.run [.session (.tunArrives [1]), .session .tunRead,
    .session .tunCheck, .session (.tcpRead []), .session .tcpQuit, .session .sendQuit,
    .session (.wakeUp [])] rfl)
  exact hs.notStuck rfl [1] rfl

end RpiCc2520.TunnelShutdown
