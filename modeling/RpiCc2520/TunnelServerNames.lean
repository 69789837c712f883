import RpiCc2520.TunnelNamePool
import RpiCc2520.TunnelServer

/-! What the steps of the tunnel server do with the TUN names. -/
namespace RpiCc2520.TunnelServer
open TunnelNames (TunManager getNewTunName unsetTunName)
open TunnelNamePool

def handlerOf : Event → ℕ
  | .hello h _ => h
  | .handler h _ => h
  | .session h _ => h
  | .readFails h => h

def AsksName (s : Server) : Event → Prop
  | .handler h _ => (s.handlers h).pc = .getNewTunName
  | _ => False

/-- From the return of `getNewTunName` to the call of `unsetTunName`. -/
def held (hd : Handler) : Option Held :=
  match hd.pc with
  | .openTun => some ⟨hd.tunname, false⟩
  | .loop => hd.session.bind fun session =>
      if session.handler = .left then none else some ⟨hd.tunname, session.tunOpen⟩
  | _ => none

/-- What a statement of `handleClient` does to its handler and to the names. -/
inductive Stepped (s : Server) (h : ℕ) (ok : Bool) (t : Server) : Prop
  | exits (handlers : t.handlers = s.handlers) (tunids : t.tunids = s.tunids)
  | moves {hd : Handler} (handlers : t.handlers = Function.update s.handlers h hd)
      (id : hd.id = (s.handlers h).id) (pc : hd.pc ≠ .hello) (tunids : t.tunids = s.tunids)
      (same : held hd = held (s.handlers h))
  | takes {hd : Handler} (handlers : t.handlers = Function.update s.handlers h hd)
      (id : hd.id = (s.handlers h).id) (pc : hd.pc ≠ .hello)
      (tunids : t.tunids = (getNewTunName s.tunids).2)
      (before : (s.handlers h).pc = .getNewTunName)
      (taken : held hd = some ⟨(getNewTunName s.tunids).1, false⟩)
  | opens {hd : Handler} (handlers : t.handlers = Function.update s.handlers h hd)
      (id : hd.id = (s.handlers h).id) (pc : hd.pc ≠ .hello) (tunids : t.tunids = s.tunids)
      (before : (s.handlers h).pc = .openTun) (succeeds : ok = true)
      (opened : held hd = some ⟨(s.handlers h).tunname, true⟩)

section
variable {s t u : Server} {h : ℕ} {ok : Bool} {pc : Pc}

/-- The handler goes on at another statement, without a name or with the one it had. -/
theorem stepped_goto (handlers : u.handlers = s.handlers) (tunids : u.tunids = s.tunids)
    (hpc : pc ≠ .hello) (same : held { s.handlers h with pc := pc } = held (s.handlers h)) :
    Stepped s h ok (u.goto h pc) := by
  have hset : (u.goto h pc).handlers =
      Function.update s.handlers h { s.handlers h with pc := pc } := by
    simp only [Server.goto, Server.set, handlers]
  exact .moves hset rfl hpc tunids same

theorem stepped_wait {locked : Bool}
    (hst : (if locked = true then none else some (u.goto h pc)) = some t)
    (handlers : u.handlers = s.handlers) (tunids : u.tunids = s.tunids) (hpc : pc ≠ .hello)
    (same : held { s.handlers h with pc := pc } = held (s.handlers h)) : Stepped s h ok t := by
  obtain ⟨-, hst⟩ := Option.ite_none_left_eq_some.mp hst
  cases hst
  exact stepped_goto handlers tunids hpc same

theorem stepped_call (hst : some (if ok = true then s.goto h pc else { s with exited := true }) =
    some t) (hpc : pc ≠ .hello)
    (same : held { s.handlers h with pc := pc } = held (s.handlers h)) : Stepped s h ok t := by
  cases hst
  cases ok with
  | true => exact stepped_goto rfl rfl hpc same
  | false => exact .exits rfl rfl

end

theorem stepped_of_handlerStep {s t : Server} {h : ℕ} {ok : Bool}
    (hst : handlerStep h ok s = some t) : Stepped s h ok t := by
  cases hpc : (s.handlers h).pc with
  | hello | returned => simp [handlerStep, hpc] at hst
  | lockMap | unlockLockMap | lockMutex mw =>
    simp only [handlerStep, hpc] at hst
    exact stepped_wait hst rfl rfl (by simp) (by simp [held, hpc])
  | store mw | unlockMap mw | unlockLookup | unlockUnlockMap mw =>
    simp only [handlerStep, hpc] at hst
    cases hst
    exact stepped_goto rfl rfl (by simp) (by simp [held, hpc])
  | lookup =>
    simp only [handlerStep, hpc] at hst
    split at hst
    · cases hst
      exact stepped_goto rfl rfl (by simp) (by simp [held, hpc])
    · cases hst
      exact stepped_goto rfl rfl (by simp) (by simp [held, hpc])
  | getPrefix | marshal =>
    simp only [handlerStep, hpc] at hst
    exact stepped_call hst (by simp) (by simp [held, hpc])
  | writePrefix =>
    simp only [handlerStep, hpc] at hst
    cases hst
    cases ok with
    | true => exact stepped_goto rfl rfl (by simp) (by simp [held, hpc])
    | false => exact stepped_goto rfl rfl (by simp) (by simp [held, hpc])
  | getNewTunName =>
    simp only [handlerStep, hpc] at hst
    cases hst
    exact .takes rfl rfl (by simp) rfl hpc rfl
  | openTun =>
    simp only [handlerStep, hpc] at hst
    cases hst
    cases ok with
    | true => exact .opens rfl rfl (by simp) rfl hpc rfl rfl
    | false => exact .exits rfl rfl
  | loop =>
    cases hs : (s.handlers h).session with
    | none => simp [handlerStep, hpc, hs] at hst
    | some session =>
      simp only [handlerStep, hpc, hs, Option.ite_none_right_eq_some] at hst
      obtain ⟨hleft, hst⟩ := hst
      cases hst
      exact stepped_goto rfl rfl (by simp) (by simp [held, hpc, hs, hleft])
  | unlockMutex mw =>
    cases mw with
    | none =>
      simp only [handlerStep, hpc] at hst
      cases hst
      exact .exits rfl rfl
    | some mw =>
      simp only [handlerStep, hpc] at hst
      split at hst
      · cases hst
        exact stepped_goto rfl rfl (by simp) (by simp [held, hpc])
      · cases hst
        exact .exits rfl rfl

def heldIn (name : String) (session : TunnelSession.Session) : Option Held :=
  if session.handler = .left then none else some ⟨name, session.tunOpen⟩

/-- `unsetTunName` in a session gives its name back, and `Close` its interface. -/
def tunidsAfter (name : String) (tunids : TunManager) : TunnelSession.Event → TunManager
  | .unsetTunName => unsetTunName name tunids
  | _ => tunids

def devicesAfter (name : String) (devices : Finset String) : TunnelSession.Event → Finset String
  | .tunClose => devices.erase name
  | _ => devices

theorem nameMove_moved {session session' : TunnelSession.Session} {e : TunnelSession.Event}
    (staged : TunnelSession.Staged session) (m : TunnelSession.Moved session e session')
    (name : String) (tunids : TunManager) (devices : Finset String) :
    NameMove False tunids devices (heldIn name session) (tunidsAfter name tunids e)
      (devicesAfter name devices e) (heldIn name session') := by
  obtain ⟨handler, tcpReader, tunReader, tunQuit, tunOpen, device, toTun, toTcp, teardown⟩ := session
  obtain ⟨stage, tcp⟩ := staged
  dsimp only at stage tcp
  cases m with
  | tunClose ht =>
    cases ht
    cases stage with
    | closing waiting =>
      have hne : handler ≠ .left := by
        rintro rfl
        nomatch waiting
      simp only [heldIn, if_neg hne]
      exact .closes
    | shuffling _ serving | leaving serving | asked _ serving => nomatch serving
  | unsetTunName hh =>
    cases hh
    cases stage with
    | confirmed => exact .gives
    | shuffling loop => nomatch loop
    | asked waiting | closing waiting | closed waiting => nomatch waiting
  | tcpChunk hh | tcpQuit hh | tunPacket hh | tunQuit2 hh | writeTun hh | writeTcp hh
    | sendQuit hh | wakeUp hh =>
    cases hh
    exact .same _
  | tunArrives | tcpData | tcpEnd | tunRead | tunKeep | tunLeave => exact .same _

theorem held_atEnd (hd : Handler) (h : hd.pc.AtEnd) : held hd = none := by
  unfold held
  generalize hd.pc = pc at h ⊢
  cases h <;> rfl

theorem held_loop (hd : Handler) {session : TunnelSession.Session} (pc : hd.pc = .loop)
    (holds : hd.session = some session) : held hd = heldIn hd.tunname session := by
  rw [held, pc, holds]
  rfl

/-- What a goroutine of a session does to its handler and to the names. -/
theorem nameMove_sessionStep {s t : Server} {h : ℕ} {e : TunnelSession.Event}
    (sound : Sound s) (hst : sessionStep h e s = some t) (devices : Finset String) :
    ∃ hd, t.handlers = Function.update s.handlers h hd ∧ hd.id = (s.handlers h).id ∧
      hd.pc = (s.handlers h).pc ∧ NameMove False s.tunids devices (held (s.handlers h)) t.tunids
        (devicesAfter (s.handlers h).tunname devices e) (held hd) := by
  unfold sessionStep at hst
  cases hs : (s.handlers h).session with
  | none => simp [hs] at hst
  | some session =>
    simp only [hs] at hst
    obtain ⟨session', hstep, hst⟩ := Option.map_eq_some_iff.mp hst
    cases hst
    have hm := TunnelSession.moved_of_step hstep
    refine ⟨{ s.handlers h with session := some session' }, rfl, rfl, rfl, ?_⟩
    cases (sound.each h).torn with
    | unopened none => exact absurd (none.symm.trans hs) nofun
    | looping holds staged pc =>
      obtain rfl := Option.some.inj (hs.symm.trans holds)
      rw [held_loop _ pc hs, held_loop { s.handlers h with session := some session' } pc rfl]
      have hmove := nameMove_moved staged hm (s.handlers h).tunname s.tunids devices
      cases e <;> exact hmove
    | left holds staged pc left =>
      obtain rfl := Option.some.inj (hs.symm.trans holds)
      obtain ⟨⟨pkt, rfl⟩, -⟩ := moved_of_left staged left hm
      rw [held_atEnd _ pc, held_atEnd { s.handlers h with session := some session' } pc]
      exact .same none

/-- A step in the server, with the interfaces open before and after it. -/
structure ServerMove (s : Server) (e : Event) (t : Server) (devices devices' : Finset String) :
    Prop where
  other : ∀ j, j ≠ handlerOf e → t.handlers j = s.handlers j
  kept : (s.handlers (handlerOf e)).pc ≠ .hello → (t.handlers (handlerOf e)).pc ≠ .hello ∧
    (t.handlers (handlerOf e)).id = (s.handlers (handlerOf e)).id
  names : NameMove (AsksName s e) s.tunids devices (held (s.handlers (handlerOf e))) t.tunids
    devices' (held (t.handlers (handlerOf e)))

section
variable {s t : Server} {i : ℕ} {ok : Bool} {e : Event} {devices devices' : Finset String}

theorem ServerMove.of_update {hd : Handler}
    (handlers : t.handlers = Function.update s.handlers (handlerOf e) hd)
    (kept : (s.handlers (handlerOf e)).pc ≠ .hello →
      hd.pc ≠ .hello ∧ hd.id = (s.handlers (handlerOf e)).id)
    (names : NameMove (AsksName s e) s.tunids devices (held (s.handlers (handlerOf e))) t.tunids
      devices' (held hd)) : ServerMove s e t devices devices' := by
  have hself : t.handlers (handlerOf e) = hd := by rw [handlers, Function.update_self]
  constructor
  · intro j hj
    rw [handlers, Function.update_of_ne hj]
  · rw [hself]
    exact kept
  · rw [hself]
    exact names

theorem ServerMove.of_same (handlers : t.handlers = s.handlers) (tunids : t.tunids = s.tunids) :
    ServerMove s e t devices devices := by
  constructor
  · intro j _
    rw [handlers]
  · intro hpc
    rw [handlers]
    exact ⟨hpc, rfl⟩
  · rw [handlers, tunids]
    exact .same _

theorem serverMove_of_stepped (st : Stepped s i ok t)
    (plain : (s.handlers i).pc = .openTun → ok = false) (ok' : Bool) :
    ServerMove s (.handler i ok') t devices devices := by
  cases st with
  | exits handlers tunids => exact .of_same handlers tunids
  | moves handlers id pc tunids same =>
    apply ServerMove.of_update handlers (fun _ => ⟨pc, id⟩)
    rw [tunids, same]
    exact .same _
  | takes handlers id pc tunids before taken =>
    have hheld : held (s.handlers i) = none := by rw [held, before]
    apply ServerMove.of_update handlers (fun _ => ⟨pc, id⟩)
    rw [tunids, taken]
    rcases TunnelNames.getNewTunName_cases s.tunids with ⟨n, -, free, he⟩ | ⟨full, he⟩
    · rw [he]
      exact hheld ▸ .takes before free
    · rw [he]
      exact hheld ▸ .doubles before full
  | opens _ _ _ _ before succeeds => exact absurd ((plain before).symm.trans succeeds) nofun

theorem serverMove_openTun (pc : (s.handlers i).pc = .openTun)
    (hst : handlerStep i true s = some t) :
    ServerMove s (.handler i true) t devices (insert (s.handlers i).tunname devices) := by
  have hheld : held (s.handlers i) = some ⟨(s.handlers i).tunname, false⟩ := by rw [held, pc]
  simp only [handlerStep, pc] at hst
  cases hst
  apply ServerMove.of_update rfl
  · intro _
    exact ⟨by simp, rfl⟩
  · exact hheld ▸ .opens

theorem serverStep_running (hst : serverStep s e = some t) : s.exited = false := by
  unfold serverStep at hst
  split at hst
  · cases hst
  · simpa using ‹¬s.exited = true›

theorem serverStep_handler (hst : serverStep s (.handler i ok) = some t) :
    handlerStep i ok s = some t := by
  have hrun := serverStep_running hst
  simpa only [serverStep, hrun, Bool.false_eq_true, if_false] using hst

theorem serverMove_session (sound : Sound s) {e : TunnelSession.Event}
    (hst : serverStep s (.session i e) = some t) :
    ServerMove s (.session i e) t devices (devicesAfter (s.handlers i).tunname devices e) := by
  have hrun := serverStep_running hst
  simp only [serverStep, hrun, Bool.false_eq_true, if_false] at hst
  obtain ⟨hd, handlers, id, pc, names⟩ := nameMove_sessionStep sound hst devices
  have hkept (hpc : (s.handlers i).pc ≠ .hello) : hd.pc ≠ .hello ∧ hd.id = (s.handlers i).id :=
    ⟨pc ▸ hpc, id⟩
  exact ServerMove.of_update (e := .session i e) handlers hkept names

theorem serverMove_hello {id : Option String} (hst : serverStep s (.hello i id) = some t) :
    ServerMove s (.hello i id) t devices devices := by
  have hrun := serverStep_running hst
  simp only [serverStep, hrun, Bool.false_eq_true, if_false] at hst
  cases hpc : (s.handlers i).pc with
  | hello =>
    have hheld : held (s.handlers i) = none := by rw [held, hpc]
    cases id with
    | none =>
      simp only [hpc] at hst
      cases hst
      apply ServerMove.of_update rfl (fun h => absurd hpc h)
      exact hheld ▸ .same none
    | some id =>
      simp only [hpc] at hst
      cases hst
      apply ServerMove.of_update rfl (fun h => absurd hpc h)
      exact hheld ▸ .same none
  | _ => simp [hpc] at hst

theorem serverMove_readFails (hst : serverStep s (.readFails i) = some t) :
    ServerMove s (.readFails i) t devices devices := by
  have hrun := serverStep_running hst
  simp only [serverStep, hrun, Bool.false_eq_true, if_false] at hst
  split at hst
  · simp only [Option.ite_none_right_eq_some] at hst
    obtain ⟨-, hst⟩ := hst
    cases hst
    exact .of_same rfl rfl
  · cases hst

end

end RpiCc2520.TunnelServer
