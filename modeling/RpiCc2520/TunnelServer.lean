import RpiCc2520.TunnelNames
import RpiCc2520.TunnelSession

/-! The tunnel server: any number of `handleClient` goroutines, the map of client locks and
the sessions they set up and tear down. -/
namespace RpiCc2520.TunnelServer
open TunnelNames TunnelSession

/-- The statements of `handleClient`. `lockMap` to `lockMutex` are `lockClient`, `unlockLockMap`
to `unlockMutex` are `unlockClient`; `mw` is the wrapped mutex, if the map holds one. -/
inductive Pc
  | hello
  | lockMap
  | lookup
  | store (mw : ℕ)
  | unlockMap (mw : ℕ)
  | lockMutex (mw : ℕ)
  | getPrefix
  | marshal
  | writePrefix
  | getNewTunName
  | openTun
  | loop
  | unlockLockMap
  | unlockLookup
  | unlockUnlockMap (mw : Option ℕ)
  | unlockMutex (mw : Option ℕ)
  | returned
  deriving DecidableEq

structure Handler where
  pc : Pc
  id : String
  tunname : String
  session : Option Session

/-- A client lock taken (`acquire`) or given back by a handler, with the mutex it used. -/
structure LockOp where
  acquire : Bool
  handler : ℕ
  id : String
  mutex : ℕ

/-- `mapLocked` is `client_locks_lock`; `mutexes` are the mutexes allocated so far, the first
`nextMutex`, and whether each is locked. `log` holds the lock operations, newest first. -/
structure Server where
  handlers : ℕ → Handler
  mapLocked : Bool
  clientLocks : String → Option ℕ
  mutexes : ℕ → Bool
  nextMutex : ℕ
  tunids : TunManager
  exited : Bool
  log : List LockOp

def Server.set (s : Server) (h : ℕ) (hd : Handler) : Server :=
  { s with handlers := Function.update s.handlers h hd }

def Server.goto (s : Server) (h : ℕ) (pc : Pc) : Server :=
  s.set h { s.handlers h with pc := pc }

/-- The next statement of handler `h` outside its loop. `ok` says whether a call that can fail
succeeds; `log.Fatal` and the misuse of a lock end the process. -/
def handlerStep (h : ℕ) (ok : Bool) (s : Server) : Option Server :=
  let hd := s.handlers h
  match hd.pc with
  | .hello => none
  | .lockMap => if s.mapLocked then none else some ({ s with mapLocked := true }.goto h .lookup)
  | .lookup =>
      match s.clientLocks hd.id with
      | some mw => some (s.goto h (.store mw))
      | none => some ({ s with
          mutexes := Function.update s.mutexes s.nextMutex false
          nextMutex := s.nextMutex + 1 }.goto h (.store s.nextMutex))
  | .store mw => some ({ s with
      clientLocks := Function.update s.clientLocks hd.id (some mw) }.goto h (.unlockMap mw))
  | .unlockMap mw => some ({ s with mapLocked := false }.goto h (.lockMutex mw))
  | .lockMutex mw =>
      if s.mutexes mw then none
      else some ({ s with
        mutexes := Function.update s.mutexes mw true
        log := ⟨true, h, hd.id, mw⟩ :: s.log }.goto h .getPrefix)
  | .getPrefix => some (if ok then s.goto h .marshal else { s with exited := true })
  | .marshal => some (if ok then s.goto h .writePrefix else { s with exited := true })
  | .writePrefix => some (s.goto h (if ok then .getNewTunName else .unlockLockMap))
  | .getNewTunName =>
      let (tunname, tunids) := getNewTunName s.tunids
      some ({ s with tunids := tunids }.set h { hd with tunname := tunname, pc := .openTun })
  | .openTun =>
      some (if ok then s.set h { hd with session := some started, pc := .loop }
        else { s with exited := true })
  | .loop =>
      match hd.session with
      | some session => if session.handler = .left then some (s.goto h .unlockLockMap) else none
      | none => none
  | .unlockLockMap =>
      if s.mapLocked then none else some ({ s with mapLocked := true }.goto h .unlockLookup)
  | .unlockLookup => some (s.goto h (.unlockUnlockMap (s.clientLocks hd.id)))
  | .unlockUnlockMap mw => some ({ s with mapLocked := false }.goto h (.unlockMutex mw))
  | .unlockMutex mw =>
      match mw with
      | some mw =>
          if s.mutexes mw then
            some ({ s with
              mutexes := Function.update s.mutexes mw false
              log := ⟨false, h, hd.id, mw⟩ :: s.log }.goto h .returned)
          else some { s with exited := true }
      | none => some { s with exited := true }
  | .returned => none

/-- A step of the goroutines of handler `h`'s session. -/
def sessionStep (h : ℕ) (e : TunnelSession.Event) (s : Server) : Option Server :=
  let hd := s.handlers h
  match hd.session with
  | none => none
  | some session => (step session e).map fun session =>
      { s with
        tunids := match e with
          | .unsetTunName => unsetTunName hd.tunname s.tunids
          | _ => s.tunids }.set h { hd with session := some session }

/-- `hello` is a client that sends its id, or goes before it has. -/
inductive Event
  | hello (h : ℕ) (id : Option String)
  | handler (h : ℕ) (ok : Bool)
  | session (h : ℕ) (e : TunnelSession.Event)
  | readFails (h : ℕ)

def serverStep (s : Server) (e : Event) : Option Server :=
  if s.exited then none
  else
    match e with
    | .hello h id =>
        match (s.handlers h).pc, id with
        | .hello, some id => some (s.set h { s.handlers h with id := id, pc := .lockMap })
        | .hello, none => some (s.goto h .returned)
        | _, _ => none
    | .handler h ok => handlerStep h ok s
    | .session h e => sessionStep h e s
    | .readFails h =>
        match (s.handlers h).session with
        | some session =>
            if session.tunReader = .read then some { s with exited := true } else none
        | none => none

def bootServer : Server :=
  ⟨fun _ => ⟨.hello, "", "", none⟩, false, fun _ => none, fun _ => false, 0, createTunIds,
    false, []⟩

def machine : Machine Server Event := ⟨fun s => s = bootServer, serverStep⟩

namespace Pc

/-- Between the return of `lockClient` and the release of the client's mutex. -/
inductive Inside : Pc → Prop
  | getPrefix : Inside .getPrefix
  | marshal : Inside .marshal
  | writePrefix : Inside .writePrefix
  | getNewTunName : Inside .getNewTunName
  | openTun : Inside .openTun
  | loop : Inside .loop
  | unlockLockMap : Inside .unlockLockMap
  | unlockLookup : Inside .unlockLookup
  | unlockUnlockMap (mw : Option ℕ) : Inside (.unlockUnlockMap mw)
  | unlockMutex (mw : Option ℕ) : Inside (.unlockMutex mw)

/-- From the call of `unlockClient` on. -/
inductive AtEnd : Pc → Prop
  | unlockLockMap : AtEnd .unlockLockMap
  | unlockLookup : AtEnd .unlockLookup
  | unlockUnlockMap (mw : Option ℕ) : AtEnd (.unlockUnlockMap mw)
  | unlockMutex (mw : Option ℕ) : AtEnd (.unlockMutex mw)
  | returned : AtEnd .returned

/-- Holding `client_locks_lock`. -/
inductive InMap : Pc → Prop
  | lookup : InMap .lookup
  | store (mw : ℕ) : InMap (.store mw)
  | unlockMap (mw : ℕ) : InMap (.unlockMap mw)
  | unlockLookup : InMap .unlockLookup
  | unlockUnlockMap (mw : Option ℕ) : InMap (.unlockUnlockMap mw)

/-- Going to use what the map holds for the client. -/
inductive Knows : Pc → Option ℕ → Prop
  | unlockMap (mw : ℕ) : Knows (.unlockMap mw) (some mw)
  | lockMutex (mw : ℕ) : Knows (.lockMutex mw) (some mw)
  | unlockUnlockMap (mw : Option ℕ) : Knows (.unlockUnlockMap mw) mw
  | unlockMutex (mw : Option ℕ) : Knows (.unlockMutex mw) mw

end Pc

/-- How often handler `h` took, or gave back, its client's lock. -/
def lockOps (acquire : Bool) (h : ℕ) (log : List LockOp) : ℕ :=
  log.countP fun op => op.acquire == acquire && op.handler == h

/-- One session per client, gone before its lock is. -/
structure OneSession (s : Server) : Prop where
  exclusive : ∀ i j, (s.handlers i).pc.Inside → (s.handlers j).pc.Inside →
    (s.handlers i).id = (s.handlers j).id → i = j
  sameMutex : ∀ op ∈ s.log, ∀ op' ∈ s.log, op.id = op'.id → op.mutex = op'.mutex
  unlockedOnce : ∀ i, (s.handlers i).pc = .returned →
    lockOps false i s.log = lockOps true i s.log ∧ lockOps true i s.log ≤ 1
  tornDown : ∀ i session, (s.handlers i).session = some session → (s.handlers i).pc.AtEnd →
    session.tcpReader = .ended ∧ session.tunReader = .ended ∧ session.tunOpen = false ∧
      session.teardown = [.close, .unsetTunName]
  still : ∀ i session, (s.handlers i).session = some session → (s.handlers i).pc.AtEnd →
    ∀ e t, step session e = some t → ∃ pkt, e = .tunArrives pkt

/-- The lock operations of a handler that is at `pc`. -/
inductive Counted : Pc → ℕ → ℕ → Prop
  | before {pc : Pc} (outside : ¬pc.Inside) : Counted pc 0 0
  | inside {pc : Pc} (inside : pc.Inside) : Counted pc 1 0
  | unlocked : Counted .returned 1 1

/-- A handler's session is set up in its loop and torn down when it leaves it. -/
inductive Torn (hd : Handler) : Prop
  | unopened (session : hd.session = none)
  | looping {session : Session} (holds : hd.session = some session) (staged : Staged session)
      (pc : hd.pc = .loop)
  | left {session : Session} (holds : hd.session = some session) (staged : Staged session)
      (pc : hd.pc.AtEnd) (left : session.handler = .left)

/-- The mutex to store for a client is the one already there or one no other client has. -/
def Storable (s : Server) (id : String) (mw : ℕ) : Prop :=
  mw < s.nextMutex ∧
    (s.clientLocks id = some mw ∨ s.clientLocks id = none ∧ ∀ id', s.clientLocks id' ≠ some mw)

structure Local (s : Server) (i : ℕ) (hd : Handler) : Prop where
  map : hd.pc.InMap → s.mapLocked = true
  storing : ∀ mw, hd.pc = .store mw → Storable s hd.id mw
  knows : ∀ mw, hd.pc.Knows mw → s.clientLocks hd.id = mw
  inside : hd.pc.Inside → ∃ mw, s.clientLocks hd.id = some mw ∧ s.mutexes mw = true
  counted : Counted hd.pc (lockOps true i s.log) (lockOps false i s.log)
  torn : Torn hd

structure Sound (s : Server) : Prop where
  each : ∀ i, Local s i (s.handlers i)
  oneInMap : ∀ i j, (s.handlers i).pc.InMap → (s.handlers j).pc.InMap → i = j
  exclusive : ∀ i j, (s.handlers i).pc.Inside → (s.handlers j).pc.Inside →
    (s.handlers i).id = (s.handlers j).id → i = j
  fresh : ∀ id mw, s.clientLocks id = some mw → mw < s.nextMutex
  injective : ∀ id id' mw, s.clientLocks id = some mw → s.clientLocks id' = some mw → id = id'
  ops : ∀ op ∈ s.log, s.clientLocks op.id = some op.mutex

theorem sound_boot : Sound bootServer :=
  ⟨fun _ => ⟨nofun, nofun, nofun, nofun, .before nofun, .unopened rfl⟩, nofun, nofun, nofun, nofun,
    nofun⟩

variable {s : Server} {i : ℕ} {hd : Handler}

theorem lockOps_append {acquire : Bool} {ops log : List LockOp} {j : ℕ}
    (own : ∀ op ∈ ops, op.handler = i) (hne : j ≠ i) :
    lockOps acquire j (ops ++ log) = lockOps acquire j log := by
  have hzero : ops.countP (fun op => op.acquire == acquire && op.handler == j) = 0 := by
    refine List.countP_eq_zero.mpr fun op hop => ?_
    simp [own op hop, hne.symm]
  rw [lockOps, List.countP_append, hzero, Nat.zero_add, lockOps]

theorem lockOps_own (acquire b : Bool) (h : ℕ) (id : String) (mw : ℕ) (log : List LockOp) :
    lockOps acquire h ([⟨b, h, id, mw⟩] ++ log) =
      lockOps acquire h log + if b = acquire then 1 else 0 := by
  simp [lockOps, List.countP_cons]

theorem Sound.update (h : Sound s) (hd : Handler) (locked : Bool) (ops : List LockOp)
    (others : ∀ j, j ≠ i → (s.handlers j).pc.InMap → locked = true ∧ ¬hd.pc.InMap)
    (map : hd.pc.InMap → locked = true)
    (storing : ∀ mw, hd.pc = .store mw → Storable s hd.id mw)
    (knows : ∀ mw, hd.pc.Knows mw → s.clientLocks hd.id = mw)
    (inside : hd.pc.Inside → (∃ mw, s.clientLocks hd.id = some mw ∧ s.mutexes mw = true) ∧
      ∀ j, j ≠ i → (s.handlers j).pc.Inside → (s.handlers j).id ≠ hd.id)
    (counted : Counted hd.pc (lockOps true i (ops ++ s.log)) (lockOps false i (ops ++ s.log)))
    (torn : Torn hd) (own : ∀ op ∈ ops, op.handler = i ∧ s.clientLocks op.id = some op.mutex) :
    Sound ({ s with mapLocked := locked, log := ops ++ s.log }.set i hd) := by
  have hother {j : ℕ} (hne : j ≠ i) : Function.update s.handlers i hd j = s.handlers j :=
    Function.update_of_ne hne _ _
  have hself : Function.update s.handlers i hd i = hd := Function.update_self _ _ _
  constructor
  · intro j
    by_cases hne : j = i
    · subst hne
      dsimp only [Server.set]
      rw [hself]
      exact ⟨map, storing, knows, fun hi => (inside hi).1, counted, torn⟩
    · dsimp only [Server.set]
      rw [hother hne]
      have hl := h.each j
      have hown (op) (hop : op ∈ ops) := (own op hop).1
      have hcounted : Counted (s.handlers j).pc (lockOps true j (ops ++ s.log))
          (lockOps false j (ops ++ s.log)) := by
        rw [lockOps_append hown hne, lockOps_append hown hne]
        exact hl.counted
      exact ⟨fun hm => (others j hne hm).1, hl.storing, hl.knows, hl.inside, hcounted, hl.torn⟩
  · intro j k hj hk
    dsimp only [Server.set] at hj hk
    by_cases hji : j = i <;> by_cases hki : k = i
    · exact hji.trans hki.symm
    · rw [hji, hself] at hj
      rw [hother hki] at hk
      exact absurd hj (others k hki hk).2
    · rw [hki, hself] at hk
      rw [hother hji] at hj
      exact absurd hk (others j hji hj).2
    · rw [hother hji] at hj
      rw [hother hki] at hk
      exact h.oneInMap j k hj hk
  · intro j k hj hk hid
    dsimp only [Server.set] at hj hk hid
    by_cases hji : j = i <;> by_cases hki : k = i
    · exact hji.trans hki.symm
    · rw [hji, hself] at hj hid
      rw [hother hki] at hk hid
      exact absurd hid.symm ((inside hj).2 k hki hk)
    · rw [hki, hself] at hk hid
      rw [hother hji] at hj hid
      exact absurd hid ((inside hk).2 j hji hj)
    · rw [hother hji] at hj hid
      rw [hother hki] at hk hid
      exact h.exclusive j k hj hk hid
  · exact h.fresh
  · exact h.injective
  · intro op hop
    rcases List.mem_append.mp hop with hop | hop
    · exact (own op hop).2
    · exact h.ops op hop

/-- A move away from the lock operations: nothing about the locks changes. -/
theorem Sound.move (h : Sound s) (out : ¬hd.pc.InMap) (plain : ∀ mw, ¬hd.pc.Knows mw)
    (inside : hd.pc.Inside → (s.handlers i).pc.Inside ∧ hd.id = (s.handlers i).id)
    (counted : Counted hd.pc (lockOps true i s.log) (lockOps false i s.log)) (torn : Torn hd) :
    Sound (s.set i hd) := by
  apply h.update hd s.mapLocked []
  · intro j _ hm
    exact ⟨(h.each j).map hm, out⟩
  · intro hm
    exact absurd hm out
  · intro mw hs
    exact absurd (hs ▸ .store mw) out
  · intro mw hk
    exact absurd hk (plain mw)
  · intro hi
    obtain ⟨hin, hid⟩ := inside hi
    rw [hid]
    exact ⟨(h.each i).inside hin, fun j hne hj he => hne (h.exclusive j i hj hin he)⟩
  · exact counted
  · exact torn
  · simp

theorem Sound.retain (h : Sound s) (hd : Handler) (pc : hd.pc = (s.handlers i).pc)
    (id : hd.id = (s.handlers i).id) (torn : Torn hd) : Sound (s.set i hd) := by
  have hl := h.each i
  apply h.update hd s.mapLocked []
  · intro j hne hm
    exact ⟨(h.each j).map hm, fun hi => hne (h.oneInMap j i hm (pc ▸ hi))⟩
  · intro hm
    exact hl.map (pc ▸ hm)
  · intro mw hs
    exact id ▸ hl.storing mw (pc ▸ hs)
  · intro mw hk
    exact id ▸ hl.knows mw (pc ▸ hk)
  · intro hi
    rw [pc] at hi
    rw [id]
    exact ⟨hl.inside hi, fun j hne hj he => hne (h.exclusive j i hj hi he)⟩
  · exact pc ▸ hl.counted
  · exact torn
  · simp

theorem Counted.outside {pc pc' : Pc} {m n : ℕ} (h : Counted pc m n) (outside : ¬pc.Inside)
    (notReturned : pc ≠ .returned) (outside' : ¬pc'.Inside) : Counted pc' m n := by
  cases h with
  | before => exact .before outside'
  | inside hi => exact absurd hi outside
  | unlocked => exact absurd rfl notReturned

theorem Counted.within {pc pc' : Pc} {m n : ℕ} (h : Counted pc m n) (inside : pc.Inside)
    (inside' : pc'.Inside) : Counted pc' m n := by
  cases h with
  | before hi => exact absurd inside hi
  | inside => exact .inside inside'
  | unlocked => nomatch inside

theorem Counted.acquired {pc pc' : Pc} {m n : ℕ} (h : Counted pc m n) (outside : ¬pc.Inside)
    (notReturned : pc ≠ .returned) (inside : pc'.Inside) : Counted pc' (m + 1) n := by
  cases h with
  | before => exact .inside inside
  | inside hi => exact absurd hi outside
  | unlocked => exact absurd rfl notReturned

theorem Counted.released {pc : Pc} {m n : ℕ} (h : Counted pc m n) (inside : pc.Inside) :
    Counted .returned m (n + 1) := by
  cases h with
  | before hi => exact absurd inside hi
  | inside => exact .unlocked
  | unlocked => nomatch inside

theorem Torn.session_none (h : Torn hd) (loop : hd.pc ≠ .loop) (notEnd : ¬hd.pc.AtEnd) :
    hd.session = none := by
  cases h with
  | unopened session => exact session
  | looping _ _ pc => exact absurd pc loop
  | left _ _ pc => exact absurd pc notEnd

theorem Torn.atEnd (h : Torn hd) {pc : Pc} (notLoop : hd.pc ≠ .loop) (atEnd : pc.AtEnd) :
    Torn { hd with pc := pc } := by
  cases h with
  | unopened session => exact .unopened session
  | looping _ _ loop => exact absurd loop notLoop
  | left holds staged _ left => exact .left holds staged atEnd left

theorem Sound.frame (h : Sound s) (tunids : TunManager) (exited : Bool) :
    Sound { s with tunids := tunids, exited := exited } :=
  ⟨fun i => ⟨(h.each i).map, (h.each i).storing, (h.each i).knows, (h.each i).inside,
    (h.each i).counted, (h.each i).torn⟩, h.oneInMap, h.exclusive, h.fresh, h.injective, h.ops⟩

theorem Sound.alloc (h : Sound s) : Sound { s with
    mutexes := Function.update s.mutexes s.nextMutex false
    nextMutex := s.nextMutex + 1 } := by
  constructor
  · intro i
    have hl := h.each i
    constructor
    · exact hl.map
    · intro mw hs
      exact ⟨Nat.lt_succ_of_lt (hl.storing mw hs).1, (hl.storing mw hs).2⟩
    · exact hl.knows
    · intro hi
      obtain ⟨mw, hm, hmw⟩ := hl.inside hi
      refine ⟨mw, hm, ?_⟩
      rw [← hmw]
      exact Function.update_of_ne (h.fresh _ _ hm).ne _ _
    · exact hl.counted
    · exact hl.torn
  · exact h.oneInMap
  · exact h.exclusive
  · intro id mw hm
    exact Nat.lt_succ_of_lt (h.fresh id mw hm)
  · exact h.injective
  · exact h.ops

/-- What is bound stays bound to the same mutex when a storable one is stored. -/
theorem Storable.keeps {id id' : String} {mw m : ℕ} (hs : Storable s id mw)
    (hm : s.clientLocks id' = some m) :
    Function.update s.clientLocks id (some mw) id' = some m := by
  by_cases hid : id' = id
  · rw [hid, Function.update_self]
    rw [hid] at hm
    rcases hs.2 with hb | ⟨hb, -⟩
    · exact hb.symm.trans hm
    · rw [hm] at hb
      cases hb
  · rw [Function.update_of_ne hid, hm]

/-- Nobody else is bound to a storable mutex. -/
theorem Storable.unique {id id' : String} {mw : ℕ} (hs : Storable s id mw) (h : Sound s)
    (hm : s.clientLocks id' = some mw) : id' = id := by
  rcases hs.2 with hb | ⟨-, hb⟩
  · exact h.injective _ _ _ hm hb
  · exact absurd hm (hb id')

theorem bound_cases {clientLocks : String → Option ℕ} {id id' : String} {mw m : ℕ}
    (hm : Function.update clientLocks id (some mw) id' = some m) :
    clientLocks id' = some m ∨ id' = id ∧ m = mw := by
  by_cases hid : id' = id
  · rw [hid, Function.update_self] at hm
    exact .inr ⟨hid, (Option.some.inj hm).symm⟩
  · rw [Function.update_of_ne hid] at hm
    exact .inl hm

theorem Sound.bind (h : Sound s) {mw : ℕ} (hpc : (s.handlers i).pc = .store mw) :
    Sound { s with
      clientLocks := Function.update s.clientLocks (s.handlers i).id (some mw) } := by
  have hstorable : Storable s (s.handlers i).id mw := (h.each i).storing mw hpc
  constructor
  · intro j
    have hl := h.each j
    constructor
    · exact hl.map
    · intro m hs
      -- only this handler is in the map
      obtain rfl := h.oneInMap j i (hs ▸ .store m) (hpc ▸ .store mw)
      rw [hpc] at hs
      cases hs
      exact ⟨hstorable.1, .inl (Function.update_self _ _ _)⟩
    · intro m hk
      have hb := hl.knows m hk
      cases m with
      | some m => exact hstorable.keeps hb
      | none =>
        have hin : (s.handlers j).pc.Inside := by
          generalize (s.handlers j).pc = pc at hk
          cases hk
          · exact .unlockUnlockMap _
          · exact .unlockMutex _
        obtain ⟨m, hm, -⟩ := hl.inside hin
        rw [hb] at hm
        cases hm
    · intro hi
      obtain ⟨m, hm, hmw⟩ := hl.inside hi
      exact ⟨m, hstorable.keeps hm, hmw⟩
    · exact hl.counted
    · exact hl.torn
  · exact h.oneInMap
  · exact h.exclusive
  · intro id m hm
    rcases bound_cases hm with hm | ⟨-, rfl⟩
    · exact h.fresh _ _ hm
    · exact hstorable.1
  · intro id id' m hm hm'
    rcases bound_cases hm with hm | ⟨rfl, rfl⟩ <;> rcases bound_cases hm' with hm' | ⟨rfl, he⟩
    · exact h.injective _ _ _ hm hm'
    · exact hstorable.unique h (he ▸ hm)
    · exact (hstorable.unique h hm').symm
    · rfl
  · intro op hop
    exact hstorable.keeps (h.ops op hop)

theorem Sound.setMutexes (h : Sound s) (mutexes : ℕ → Bool)
    (locked : ∀ j mw, (s.handlers j).pc.Inside → s.clientLocks (s.handlers j).id = some mw →
      s.mutexes mw = true → mutexes mw = true) : Sound { s with mutexes := mutexes } := by
  constructor
  · intro j
    have hl := h.each j
    constructor
    · exact hl.map
    · exact hl.storing
    · exact hl.knows
    · intro hi
      obtain ⟨mw, hm, hmw⟩ := hl.inside hi
      exact ⟨mw, hm, locked j mw hi hm hmw⟩
    · exact hl.counted
    · exact hl.torn
  · exact h.oneInMap
  · exact h.exclusive
  · exact h.fresh
  · exact h.injective
  · exact h.ops

theorem Sound.lock (h : Sound s) (mw : ℕ) :
    Sound { s with mutexes := Function.update s.mutexes mw true } := by
  apply h.setMutexes
  intro j m _ _ hm
  rw [Function.update_apply, hm, ite_self]

/-- A mutex may be released when no handler inside uses it. -/
theorem Sound.unlock (h : Sound s) (mw : ℕ)
    (unused : ∀ j, (s.handlers j).pc.Inside → s.clientLocks (s.handlers j).id ≠ some mw) :
    Sound { s with mutexes := Function.update s.mutexes mw false } := by
  apply h.setMutexes
  intro j m hi hk hm
  have hne : m ≠ mw := by
    rintro rfl
    exact unused j hi hk
  rw [Function.update_of_ne hne, hm]

theorem Sound.takeMap (h : Sound s) (hd : Handler) (free : s.mapLocked = false)
    (plain : ∀ mw, ¬hd.pc.Knows mw) (storing : ∀ mw, hd.pc ≠ .store mw)
    (inside : hd.pc.Inside → (s.handlers i).pc.Inside ∧ hd.id = (s.handlers i).id)
    (counted : Counted hd.pc (lockOps true i s.log) (lockOps false i s.log)) (torn : Torn hd) :
    Sound ({ s with mapLocked := true }.set i hd) := by
  have hnone (j) (hm : (s.handlers j).pc.InMap) : False := by
    have := (h.each j).map hm
    rw [free] at this
    cases this
  refine h.update hd true [] (fun j _ hm => (hnone j hm).elim) (fun _ => rfl)
    (fun mw hs => absurd hs (storing mw)) (fun mw hk => absurd hk (plain mw)) (fun hi => ?_)
    counted torn (by simp)
  obtain ⟨hin, hid⟩ := inside hi
  rw [hid]
  exact ⟨(h.each i).inside hin, fun j hne hj he => hne (h.exclusive j i hj hin he)⟩

theorem Sound.inMap (h : Sound s) (inMap : (s.handlers i).pc.InMap) {pc : Pc} (locked : Bool)
    (map : pc.InMap → locked = true)
    (storing : ∀ mw, pc = .store mw → Storable s (s.handlers i).id mw)
    (knows : ∀ mw, pc.Knows mw → s.clientLocks (s.handlers i).id = mw)
    (inside : pc.Inside → (s.handlers i).pc.Inside)
    (counted : Counted pc (lockOps true i s.log) (lockOps false i s.log))
    (torn : Torn { s.handlers i with pc := pc }) :
    Sound ({ s with mapLocked := locked }.goto i pc) := by
  refine h.update { s.handlers i with pc := pc } locked []
    (fun j hne hm => absurd (h.oneInMap j i hm inMap) hne) map storing knows (fun hi => ?_)
    counted torn (by simp)
  exact ⟨(h.each i).inside (inside hi),
    fun j hne hj he => hne (h.exclusive j i hj (inside hi) he)⟩

theorem sound_lookup (h : Sound s) (hpc : (s.handlers i).pc = .lookup) {t : Server} {ok : Bool}
    (hst : handlerStep i ok s = some t) : Sound t := by
  have hcounted := (h.each i).counted
  rw [hpc] at hcounted
  have hcounted {mw : ℕ} :
      Counted (.store mw) (lockOps true i s.log) (lockOps false i s.log) :=
    hcounted.outside nofun nofun nofun
  have hnone := (h.each i).torn.session_none (by rw [hpc]; nofun) (by rw [hpc]; nofun)
  have hmap := (h.each i).map (hpc ▸ .lookup)
  simp only [handlerStep, hpc] at hst
  cases hm : s.clientLocks (s.handlers i).id with
  | some mw =>
    rw [hm] at hst
    cases hst
    refine h.inMap (hpc ▸ .lookup) s.mapLocked (fun _ => hmap) (fun m hs => ?_) nofun nofun
      hcounted (.unopened hnone)
    cases hs
    exact ⟨h.fresh _ _ hm, .inl hm⟩
  | none =>
    rw [hm] at hst
    cases hst
    refine h.alloc.inMap (i := i) (hpc ▸ .lookup) s.mapLocked (fun _ => hmap) (fun m hs => ?_)
      nofun nofun hcounted (.unopened hnone)
    cases hs
    exact ⟨Nat.lt_succ_self _, .inr ⟨hm, fun id' he => (h.fresh _ _ he).ne rfl⟩⟩

theorem sound_lockMutex (h : Sound s) {mw : ℕ} (hpc : (s.handlers i).pc = .lockMutex mw)
    (free : s.mutexes mw = false) :
    Sound ({ s with
      mutexes := Function.update s.mutexes mw true
      log := ⟨true, i, (s.handlers i).id, mw⟩ :: s.log }.goto i .getPrefix) := by
  have hknown := (h.each i).knows (some mw) (hpc ▸ .lockMutex mw)
  have hcounted := (h.each i).counted
  rw [hpc] at hcounted
  have hnone := (h.each i).torn.session_none (by rw [hpc]; nofun) (by rw [hpc]; nofun)
  refine (h.lock mw).update { s.handlers i with pc := .getPrefix } s.mapLocked
    [⟨true, i, (s.handlers i).id, mw⟩] (fun j _ hm => ⟨(h.each j).map hm, nofun⟩) nofun nofun nofun
    (fun _ => ⟨⟨mw, hknown, Function.update_self _ _ _⟩, fun j _ hj he => ?_⟩) ?_
    (.unopened hnone) (by simp [hknown])
  · -- another handler inside with this id would hold the mutex
    obtain ⟨m, hm, hmw⟩ := (h.each j).inside hj
    have he : s.clientLocks (s.handlers j).id = some mw := he ▸ hknown
    rw [he] at hm
    cases hm
    rw [free] at hmw
    cases hmw
  · rw [lockOps_own, lockOps_own]
    exact hcounted.acquired nofun nofun .getPrefix

theorem sound_unlockMutex (h : Sound s) {mw : ℕ}
    (hpc : (s.handlers i).pc = .unlockMutex (some mw)) :
    Sound ({ s with
      mutexes := Function.update s.mutexes mw false
      log := ⟨false, i, (s.handlers i).id, mw⟩ :: s.log }.goto i .returned) := by
  have hknown := (h.each i).knows (some mw) (hpc ▸ .unlockMutex _)
  have hinside : (s.handlers i).pc.Inside := hpc ▸ .unlockMutex _
  have hcounted := (h.each i).counted
  rw [hpc] at hcounted
  have hout : Sound ({ s with
      log := ⟨false, i, (s.handlers i).id, mw⟩ :: s.log }.goto i .returned) := by
    refine h.update { s.handlers i with pc := .returned } s.mapLocked
      [⟨false, i, (s.handlers i).id, mw⟩]
      (fun j _ hm => ⟨(h.each j).map hm, nofun⟩) nofun nofun nofun nofun ?_
      ((h.each i).torn.atEnd (by rw [hpc]; nofun) .returned) (fun op hop => ?_)
    · rw [lockOps_own, lockOps_own]
      exact hcounted.released (.unlockMutex _)
    · rw [List.mem_singleton.mp hop]
      exact ⟨rfl, hknown⟩
  refine hout.unlock mw fun j hj hm => ?_
  by_cases hji : j = i
  · subst hji
    simp only [Server.goto, Server.set, Function.update_self] at hj
    nomatch hj
  · simp only [Server.goto, Server.set, Function.update_of_ne hji] at hj hm
    exact hji (h.exclusive j i hj hinside (h.injective _ _ _ hm hknown))

theorem Sound.ahead (h : Sound s) (inside : (s.handlers i).pc.Inside)
    (notLoop : (s.handlers i).pc ≠ .loop) (notEnd : ¬(s.handlers i).pc.AtEnd)
    (out : ¬hd.pc.InMap) (plain : ∀ mw, ¬hd.pc.Knows mw) (still : hd.pc.Inside)
    (id : hd.id = (s.handlers i).id) (session : hd.session = (s.handlers i).session) :
    Sound (s.set i hd) :=
  h.move out plain (fun _ => ⟨inside, id⟩) ((h.each i).counted.within inside still)
    (.unopened (session.trans ((h.each i).torn.session_none notLoop notEnd)))

theorem sound_lockMap (h : Sound s) (hpc : (s.handlers i).pc = .lockMap) {t : Server} {ok : Bool}
    (hst : handlerStep i ok s = some t) : Sound t := by
  have hl := h.each i
  simp only [handlerStep, hpc] at hst
  cases hfree : s.mapLocked with
  | true => simp [hfree] at hst
  | false =>
    simp only [hfree, Bool.false_eq_true, if_false] at hst
    cases hst
    apply h.takeMap { s.handlers i with pc := .lookup } hfree
    · nofun
    · nofun
    · nofun
    · exact hl.counted.outside (by rw [hpc]; nofun) (by rw [hpc]; nofun) nofun
    · exact .unopened (hl.torn.session_none (by rw [hpc]; nofun) (by rw [hpc]; nofun))

theorem sound_store (h : Sound s) {mw : ℕ} (hpc : (s.handlers i).pc = .store mw) {t : Server}
    {ok : Bool} (hst : handlerStep i ok s = some t) : Sound t := by
  have hl := h.each i
  have hmap := hl.map (hpc ▸ .store mw)
  simp only [handlerStep, hpc] at hst
  cases hst
  apply (h.bind hpc).inMap
  · exact hpc ▸ .store mw
  · exact fun _ => hmap
  · nofun
  · intro m hk
    cases hk
    exact Function.update_self _ _ _
  · nofun
  · exact hl.counted.outside (by rw [hpc]; nofun) (by rw [hpc]; nofun) nofun
  · exact .unopened (hl.torn.session_none (by rw [hpc]; nofun) (by rw [hpc]; nofun))

theorem sound_unlockMap (h : Sound s) {mw : ℕ} (hpc : (s.handlers i).pc = .unlockMap mw)
    {t : Server} {ok : Bool} (hst : handlerStep i ok s = some t) : Sound t := by
  have hl := h.each i
  simp only [handlerStep, hpc] at hst
  cases hst
  apply h.inMap
  · exact hpc ▸ .unlockMap mw
  · nofun
  · nofun
  · intro m hk
    cases hk
    exact hl.knows _ (hpc ▸ .unlockMap mw)
  · nofun
  · exact hl.counted.outside (by rw [hpc]; nofun) (by rw [hpc]; nofun) nofun
  · exact .unopened (hl.torn.session_none (by rw [hpc]; nofun) (by rw [hpc]; nofun))

theorem sound_openTun (h : Sound s) (hpc : (s.handlers i).pc = .openTun) {t : Server} {ok : Bool}
    (hst : handlerStep i ok s = some t) : Sound t := by
  simp only [handlerStep, hpc] at hst
  cases hst
  cases ok with
  | false => exact h.frame s.tunids true
  | true =>
    apply h.move
    · nofun
    · nofun
    · exact fun _ => ⟨hpc ▸ .openTun, rfl⟩
    · exact (h.each i).counted.within (hpc ▸ .openTun) .loop
    · exact .looping rfl staged_started rfl

theorem sound_loop (h : Sound s) (hpc : (s.handlers i).pc = .loop) {t : Server} {ok : Bool}
    (hst : handlerStep i ok s = some t) : Sound t := by
  cases hs : (s.handlers i).session with
  | none => simp [handlerStep, hpc, hs] at hst
  | some session =>
    simp only [handlerStep, hpc, hs, Option.ite_none_right_eq_some] at hst
    obtain ⟨hleft, hst⟩ := hst
    cases hst
    apply h.move
    · nofun
    · nofun
    · exact fun _ => ⟨hpc ▸ .loop, rfl⟩
    · exact (h.each i).counted.within (hpc ▸ .loop) .unlockLockMap
    · cases (h.each i).torn with
      | unopened none => rw [hs] at none; cases none
      | left _ _ atEnd => rw [hpc] at atEnd; nomatch atEnd
      | looping holds staged =>
        rw [hs] at holds
        cases holds
        exact .left hs staged .unlockLockMap hleft

theorem sound_unlockLockMap (h : Sound s) (hpc : (s.handlers i).pc = .unlockLockMap) {t : Server}
    {ok : Bool} (hst : handlerStep i ok s = some t) : Sound t := by
  have hl := h.each i
  simp only [handlerStep, hpc] at hst
  cases hfree : s.mapLocked with
  | true => simp [hfree] at hst
  | false =>
    simp only [hfree, Bool.false_eq_true, if_false] at hst
    cases hst
    apply h.takeMap { s.handlers i with pc := .unlockLookup } hfree
    · nofun
    · nofun
    · exact fun _ => ⟨hpc ▸ .unlockLockMap, rfl⟩
    · exact hl.counted.within (hpc ▸ .unlockLockMap) .unlockLookup
    · exact hl.torn.atEnd (by rw [hpc]; nofun) .unlockLookup

theorem sound_unlockLookup (h : Sound s) (hpc : (s.handlers i).pc = .unlockLookup) {t : Server}
    {ok : Bool} (hst : handlerStep i ok s = some t) : Sound t := by
  have hl := h.each i
  have hmap := hl.map (hpc ▸ .unlockLookup)
  simp only [handlerStep, hpc] at hst
  cases hst
  apply h.inMap
  · exact hpc ▸ .unlockLookup
  · exact fun _ => hmap
  · nofun
  · intro m hk
    cases hk
    rfl
  · exact fun _ => hpc ▸ .unlockLookup
  · exact hl.counted.within (hpc ▸ .unlockLookup) (.unlockUnlockMap _)
  · exact hl.torn.atEnd (by rw [hpc]; nofun) (.unlockUnlockMap _)

theorem sound_unlockUnlockMap (h : Sound s) {mw : Option ℕ}
    (hpc : (s.handlers i).pc = .unlockUnlockMap mw) {t : Server} {ok : Bool}
    (hst : handlerStep i ok s = some t) : Sound t := by
  have hl := h.each i
  simp only [handlerStep, hpc] at hst
  cases hst
  apply h.inMap
  · exact hpc ▸ .unlockUnlockMap mw
  · nofun
  · nofun
  · intro m hk
    cases hk
    exact hl.knows _ (hpc ▸ .unlockUnlockMap mw)
  · exact fun _ => hpc ▸ .unlockUnlockMap mw
  · exact hl.counted.within (hpc ▸ .unlockUnlockMap mw) (.unlockMutex _)
  · exact hl.torn.atEnd (by rw [hpc]; nofun) (.unlockMutex _)

theorem sound_handlerStep (h : Sound s) {t : Server} {ok : Bool}
    (hst : handlerStep i ok s = some t) : Sound t := by
  cases hpc : (s.handlers i).pc with
  | hello => simp [handlerStep, hpc] at hst
  | returned => simp [handlerStep, hpc] at hst
  | lockMap => exact sound_lockMap h hpc hst
  | lookup => exact sound_lookup h hpc hst
  | store mw => exact sound_store h hpc hst
  | unlockMap mw => exact sound_unlockMap h hpc hst
  | lockMutex mw =>
    simp only [handlerStep, hpc] at hst
    cases hfree : s.mutexes mw with
    | true => simp [hfree] at hst
    | false =>
      simp only [hfree, Bool.false_eq_true, if_false] at hst
      cases hst
      exact sound_lockMutex h hpc hfree
  | getPrefix =>
    simp only [handlerStep, hpc] at hst
    cases hst
    cases ok with
    | false => exact h.frame s.tunids true
    | true =>
      exact h.ahead (hpc ▸ .getPrefix) (by rw [hpc]; nofun) (by rw [hpc]; nofun) nofun nofun
        .marshal rfl rfl
  | marshal =>
    simp only [handlerStep, hpc] at hst
    cases hst
    cases ok with
    | false => exact h.frame s.tunids true
    | true =>
      exact h.ahead (hpc ▸ .marshal) (by rw [hpc]; nofun) (by rw [hpc]; nofun) nofun nofun
        .writePrefix rfl rfl
  | writePrefix =>
    simp only [handlerStep, hpc] at hst
    cases hst
    cases ok with
    | false =>
      exact h.ahead (hpc ▸ .writePrefix) (by rw [hpc]; nofun) (by rw [hpc]; nofun) nofun nofun
        .unlockLockMap rfl rfl
    | true =>
      exact h.ahead (hpc ▸ .writePrefix) (by rw [hpc]; nofun) (by rw [hpc]; nofun) nofun nofun
        .getNewTunName rfl rfl
  | getNewTunName =>
    simp only [handlerStep, hpc] at hst
    cases hst
    exact (h.frame (getNewTunName s.tunids).2 s.exited).ahead (i := i) (hpc ▸ .getNewTunName)
      (by rw [hpc]; nofun) (by rw [hpc]; nofun) nofun nofun .openTun rfl rfl
  | openTun => exact sound_openTun h hpc hst
  | loop => exact sound_loop h hpc hst
  | unlockLockMap => exact sound_unlockLockMap h hpc hst
  | unlockLookup => exact sound_unlockLookup h hpc hst
  | unlockUnlockMap mw => exact sound_unlockUnlockMap h hpc hst
  | unlockMutex mw =>
    cases mw with
    | none =>
      simp only [handlerStep, hpc] at hst
      cases hst
      exact h.frame s.tunids true
    | some mw =>
      cases hm : s.mutexes mw with
      | false =>
        simp only [handlerStep, hpc, hm, Bool.false_eq_true, if_false] at hst
        cases hst
        exact h.frame s.tunids true
      | true =>
        simp only [handlerStep, hpc, hm, if_true] at hst
        cases hst
        exact sound_unlockMutex h hpc

/-- After the session only packets come, to an interface that is gone. -/
theorem moved_of_left {session t : Session} {e : TunnelSession.Event} (staged : Staged session)
    (left : session.handler = .left) (m : Moved session e t) :
    (∃ pkt, e = .tunArrives pkt) ∧ t.handler = .left := by
  obtain ⟨tun, -, -⟩ := staged.stage.teardown_of_left left
  have tcp : session.tcpReader = .ended := staged.tcp.mpr (by rw [left]; nofun)
  cases m with
  | tunArrives pkt => exact ⟨⟨pkt, rfl⟩, left⟩
  | tcpData he | tcpEnd he => rw [tcp] at he; cases he
  | tcpChunk hh | tcpQuit hh | tunPacket hh | tunQuit2 hh | writeTun hh | writeTcp hh
    | sendQuit hh | wakeUp hh | unsetTunName hh => rw [left] at hh; cases hh
  | tunRead ht | tunKeep ht | tunLeave ht | tunClose ht => rw [tun] at ht; cases ht

theorem sound_sessionStep (h : Sound s) {t : Server} {e : TunnelSession.Event}
    (hst : sessionStep i e s = some t) : Sound t := by
  have hl := h.each i
  unfold sessionStep at hst
  cases hs : (s.handlers i).session with
  | none => simp [hs] at hst
  | some session =>
    simp only [hs] at hst
    obtain ⟨u, hu, hst⟩ := Option.map_eq_some_iff.mp hst
    cases hst
    have hm := moved_of_step hu
    have hhd : Torn { s.handlers i with session := some u } := by
      cases hl.torn with
      | unopened none => rw [hs] at none; cases none
      | looping holds staged pc =>
        rw [hs] at holds
        cases holds
        exact .looping rfl (staged_moved staged hm) pc
      | left holds staged pc left =>
        rw [hs] at holds
        cases holds
        exact .left rfl (staged_moved staged hm) pc (moved_of_left staged left hm).2
    exact (h.frame _ s.exited).retain { s.handlers i with session := some u } rfl rfl hhd

theorem sound_step (h : Sound s) {t : Server} {e : Event} (hst : serverStep s e = some t) :
    Sound t := by
  unfold serverStep at hst
  cases hx : s.exited with
  | true => simp [hx] at hst
  | false =>
    simp only [hx, Bool.false_eq_true, if_false] at hst
    cases e with
    | handler i ok => exact sound_handlerStep h hst
    | session i e => exact sound_sessionStep h hst
    | readFails i =>
      dsimp only at hst
      split at hst
      · rw [Option.ite_none_right_eq_some] at hst
        obtain ⟨-, hst⟩ := hst
        cases hst
        exact h.frame s.tunids true
      · cases hst
    | hello i id =>
      have hl := h.each i
      dsimp only at hst
      cases hpc : (s.handlers i).pc with
      | hello =>
        have hcounted {pc : Pc} (hout : ¬pc.Inside) :
            Counted pc (lockOps true i s.log) (lockOps false i s.log) :=
          hl.counted.outside (by rw [hpc]; nofun) (by rw [hpc]; nofun) hout
        have hnone := hl.torn.session_none (by rw [hpc]; nofun) (by rw [hpc]; nofun)
        cases id with
        | none =>
          simp only [hpc] at hst
          cases hst
          exact h.move nofun nofun nofun (hcounted nofun) (.unopened hnone)
        | some id =>
          simp only [hpc] at hst
          cases hst
          exact h.move nofun nofun nofun (hcounted nofun) (.unopened hnone)
      | _ => simp [hpc] at hst

theorem Sound.oneSession (h : Sound s) : OneSession s := by
  have hleft (i) (session) (holds : (s.handlers i).session = some session)
      (atEnd : (s.handlers i).pc.AtEnd) : Staged session ∧ session.handler = .left := by
    cases (h.each i).torn with
    | unopened none => rw [holds] at none; cases none
    | looping _ _ pc => rw [pc] at atEnd; nomatch atEnd
    | left holds' staged _ left =>
      rw [holds] at holds'
      cases holds'
      exact ⟨staged, left⟩
  refine ⟨h.exclusive, fun op hop op' hop' hid => ?_, fun i hpc => ?_,
    fun i session holds atEnd => ?_, fun i session holds atEnd e t hst => ?_⟩
  · have hm := h.ops op hop
    rw [hid, h.ops op' hop'] at hm
    exact (Option.some.inj hm).symm
  · have hcounted := (h.each i).counted
    rw [hpc] at hcounted
    generalize lockOps true i s.log = l at hcounted
    generalize lockOps false i s.log = u at hcounted
    cases hcounted with
    | before => exact ⟨rfl, Nat.zero_le 1⟩
    | inside inside => nomatch inside
    | unlocked => exact ⟨rfl, le_rfl⟩
  · obtain ⟨staged, left⟩ := hleft i session holds atEnd
    obtain ⟨tun, shut, calls⟩ := staged.stage.teardown_of_left left
    exact ⟨staged.tcp.mpr (by rw [left]; nofun), tun, shut, calls⟩
  · obtain ⟨staged, left⟩ := hleft i session holds atEnd
    exact (moved_of_left staged left (moved_of_step hst)).1

/-- Whatever the clients do and however the goroutines interleave. -/
theorem oneSession_of_reachable (s : Server) (h : machine.Reachable Machine.Any s) :
    OneSession s := by
  have hsound : Sound s := by
    refine h.invariant (I := Sound) ?_ fun _ _ _ hs _ hst => sound_step hs hst
    rintro _ rfl
    exact sound_boot
  exact hsound.oneSession

/-- Two connections of one client: the first is set up and torn down, then the second goes on. -/
def reconnect : List Event :=
  List.flatten [[.hello 0 (some "a"), .hello 1 (some "a")],
    List.replicate 10 (.handler 0 true),
    List.replicate 4 (.handler 1 true),
    [.session 0 (.tcpRead []), .session 0 .tcpQuit, .session 0 .sendQuit,
      .session 0 (.wakeUp [1]), .session 0 .tunRead, .session 0 .tunCheck, .session 0 .tunClose,
      .session 0 .tunQuit2, .session 0 .unsetTunName],
    List.replicate 5 (.handler 0 true),
    [.handler 1 true]]

theorem oneSession_of_reachable_reconnect :
    ∃ s, machine.Reachable Machine.Any s ∧ (s.handlers 0).pc = .returned ∧
      (s.handlers 1).pc = .getPrefix ∧ (s.handlers 0).session.isSome ∧ OneSession s := by
  have h0 : machine.Reachable Machine.Any bootServer := .start rfl
  have hrun : ((machine.run bootServer reconnect).map fun s =>
      ((s.handlers 0).pc, (s.handlers 1).pc, (s.handlers 0).session.isSome)) =
        some (.returned, .getPrefix, true) := by decide +kernel
  obtain ⟨s, hr, hs⟩ := Option.map_eq_some_iff.mp hrun
  obtain ⟨hpc0, hs⟩ := Prod.mk.inj hs
  obtain ⟨hpc1, hsome⟩ := Prod.mk.inj hs
  have hreach := h0.run reconnect hr
  exact ⟨s, hreach, hpc0, hpc1, hsome, oneSession_of_reachable s hreach⟩

end RpiCc2520.TunnelServer
