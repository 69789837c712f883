import RpiCc2520.EventMachine
import RpiCc2520.RadioMessage

/-! The TUN interface of the border router: packets forwarded into it, and the completions it
owes for them. All calls share one `send_info` and one task. -/
namespace RpiCc2520.TunForward
open RadioMessage

/-- The fields of `struct send_info` the component writes. -/
structure SendInfo where
  upperData : Ptr
  linkFragments : UInt8
  linkTransmissions : UInt8
  failed : Bool
  deriving DecidableEq, Repr

/-- The component, whether the scheduler holds its task, the data pointers of the calls that
returned `SUCCESS`, and what `IPForward.sendDone` has handed up, both newest first. -/
structure Tun where
  sendInfo : SendInfo
  tsDemoFd : ℤ
  sendDonePosted : Bool
  accepted : List Ptr
  done : List (Ptr × Bool)

/-- `IPForward.send`; `ret` is what `write` returns. -/
def send (data : Ptr) (ret : ℤ) (s : Tun) : UInt8 × Tun :=
  let sendInfo : SendInfo := ⟨data, 1, 1, false⟩
  if ret < 0 then (fail, { s with sendInfo := { sendInfo with failed := true } })
  else (success, { s with
    sendInfo := sendInfo, sendDonePosted := true, accepted := data :: s.accepted })

/-- The demo's copy of each packet into a fifo: `opened` is what `open` returns if it is called
and `written` what `write` returns. -/
def demoCopy (opened written : ℤ) (s : Tun) : Tun :=
  let fd := if s.tsDemoFd < 1 then opened else s.tsDemoFd
  { s with tsDemoFd := if 1 < fd ∧ written = -1 then -1 else fd }

def demoSend (data : Ptr) (opened written ret : ℤ) (s : Tun) : UInt8 × Tun :=
  send data ret (demoCopy opened written s)

def sendDoneTask (s : Tun) : Tun :=
  { s with done := (s.sendInfo.upperData, s.sendInfo.failed) :: s.done }

inductive Event
  | send (data : Ptr) (ret : ℤ)
  | demoSend (data : Ptr) (opened written ret : ℤ)
  | sendDoneTask

/-- A posted task is not posted again, and is no longer posted while it runs. -/
def step (s : Tun) : Event → Option Tun
  | .send data ret => some (send data ret s).2
  | .demoSend data opened written ret => some (demoSend data opened written ret s).2
  | .sendDoneTask =>
      if s.sendDonePosted then some (sendDoneTask { s with sendDonePosted := false }) else none

def machine : Machine Tun Event :=
  ⟨fun s => s.sendDonePosted = false ∧ s.accepted = [] ∧ s.done = [], step⟩

/-- Every accepted call has been completed once, with its own pointer and not as failed, in
call order; what is still owed is completed by task runs alone. -/
structure Completes (s : Tun) : Prop where
  order : s.done <:+ s.accepted.map fun data => (data, false)
  owed : ∃ n t, machine.run s (List.replicate n .sendDoneTask) = some t ∧
    t.done = s.accepted.map fun data => (data, false)

/-- No packet is forwarded while the completion of another is waiting to be reported. -/
def OneAtATime (s : Tun) : Event → Prop
  | .sendDoneTask => True
  | _ => s.sendDonePosted = false

theorem send_cases (data : Ptr) (ret : ℤ) (s : Tun) :
    let t := (send data ret s).2
    t.done = s.done ∧
      ((t.accepted = data :: s.accepted ∧ t.sendDonePosted = true ∧
          t.sendInfo = ⟨data, 1, 1, false⟩) ∨
        (t.accepted = s.accepted ∧ t.sendDonePosted = s.sendDonePosted ∧
          t.sendInfo = ⟨data, 1, 1, true⟩)) := by
  unfold send
  by_cases hr : ret < 0
  · simp [hr]
  · simp [hr]

theorem step_cases {s t : Tun} {e : Event} (hst : step s e = some t) :
    (∃ data, (OneAtATime s e ↔ s.sendDonePosted = false) ∧ t.done = s.done ∧
      ((t.accepted = data :: s.accepted ∧ t.sendDonePosted = true ∧
          t.sendInfo = ⟨data, 1, 1, false⟩) ∨
        (t.accepted = s.accepted ∧ t.sendDonePosted = s.sendDonePosted ∧
          t.sendInfo = ⟨data, 1, 1, true⟩))) ∨
    (OneAtATime s e ∧ s.sendDonePosted = true ∧ t.sendDonePosted = false ∧
      t.accepted = s.accepted ∧
      t.done = (s.sendInfo.upperData, s.sendInfo.failed) :: s.done) := by
  cases e with
  | send data ret =>
    cases hst
    exact .inl ⟨data, Iff.rfl, send_cases data ret s⟩
  | demoSend data opened written ret =>
    cases hst
    exact .inl ⟨data, Iff.rfl, send_cases data ret (demoCopy opened written s)⟩
  | sendDoneTask =>
    simp only [step, Option.ite_none_right_eq_some, Option.some.injEq] at hst
    obtain ⟨hp, rfl⟩ := hst
    exact .inr ⟨trivial, hp, rfl, rfl, rfl⟩

/-- At most one completion is owed, and `send_info` is what it will say. -/
inductive Owes (s : Tun) : Prop
  | none (posted : s.sendDonePosted = false)
      (all : s.done = s.accepted.map fun data => (data, false))
  | one (posted : s.sendDonePosted = true)
      (next : (s.sendInfo.upperData, s.sendInfo.failed) :: s.done =
        s.accepted.map fun data => (data, false))

theorem owes_step {s t : Tun} {e : Event} (h : Owes s) (ok : OneAtATime s e)
    (hst : step s e = some t) : Owes t := by
  rcases step_cases hst with ⟨data, hok, hd, hcall⟩ | ⟨-, hp, hp', ha, hd⟩
  · cases h with
    | one posted => exact absurd (posted.symm.trans (hok.mp ok)) nofun
    | none posted all =>
      rcases hcall with ⟨ha, hp, hi⟩ | ⟨ha, hp, -⟩
      · exact .one hp (by rw [hi, hd, ha, all, List.map_cons])
      · exact .none (hp.trans posted) (by rw [hd, ha, all])
  · cases h with
    | none posted => exact absurd (posted.symm.trans hp) nofun
    | one _ next => exact .none hp' (by rw [hd, ha, next])

theorem step_sendDoneTask {s : Tun} (h : s.sendDonePosted = true) : step s .sendDoneTask =
    some (sendDoneTask { s with sendDonePosted := false }) := if_pos h

theorem Owes.completes {s : Tun} (h : Owes s) : Completes s := by
  cases h with
  | none posted all => exact ⟨by rw [all], 0, s, rfl, all⟩
  | one posted next =>
    constructor
    · rw [← next]
      exact List.suffix_cons _ _
    · refine ⟨1, sendDoneTask { s with sendDonePosted := false }, ?_, next⟩
      exact Option.bind_eq_some_iff.mpr ⟨_, step_sendDoneTask posted, rfl⟩

/-- A completion is lost, or one that says failed is reported or about to be. -/
structure Broken (s : Tun) : Prop where
  bound : s.done.length + s.sendDonePosted.toNat ≤ s.accepted.length
  wrong : s.done.length + s.sendDonePosted.toNat < s.accepted.length ∨
    (∃ c ∈ s.done, c.2 = true) ∨ (s.sendDonePosted = true ∧ s.sendInfo.failed = true)

/-- A call made while a completion is owed. -/
theorem broken_of_overlap {s t : Tun} {e : Event} (h : Owes s) (hne : ¬OneAtATime s e)
    (hst : step s e = some t) : Broken t := by
  rcases step_cases hst with ⟨data, hok, hd, hcall⟩ | ⟨ok, -⟩
  · cases h with
    | none posted => exact absurd (hok.mpr posted) hne
    | one posted next =>
      have hlen : s.done.length + 1 = s.accepted.length := by
        simpa using congrArg List.length next
      rcases hcall with ⟨ha, hp, -⟩ | ⟨ha, hp, hi⟩
      · constructor
        · simp [hd, ha, hp]
          omega
        · left
          simp [hd, ha, hp]
          omega
      · constructor
        · simp [hd, ha, hp, posted]
          omega
        · right; right
          simp [hp, posted, hi]
  · exact absurd ok hne

theorem broken_step {s t : Tun} {e : Event} (h : Broken s) (hst : step s e = some t) :
    Broken t := by
  obtain ⟨hbound, hwrong⟩ := h
  rcases step_cases hst with ⟨data, -, hd, hcall⟩ | ⟨-, hp, hp', ha, hd⟩
  · rcases hcall with ⟨ha, hp, -⟩ | ⟨ha, hp, hi⟩
    · constructor
      · simp [hd, ha, hp]
        omega
      · rcases hwrong with hlost | hdone | ⟨hposted, -⟩
        · left
          simp [hd, ha, hp]
          omega
        · right; left
          rwa [hd]
        · left
          simp [hd, ha, hp]
          simp [hposted] at hbound
          omega
    · constructor
      · rwa [hd, ha, hp]
      · rcases hwrong with hlost | hdone | ⟨hposted, -⟩
        · left
          rwa [hd, ha, hp]
        · right; left
          rwa [hd]
        · right; right
          rw [hp, hi]
          exact ⟨hposted, rfl⟩
  · rw [hp, Bool.toNat_true] at hbound
    constructor
    · simp [hd, ha, hp']
      omega
    · rcases hwrong with hlost | ⟨c, hc, hf⟩ | ⟨-, hfailed⟩
      · rw [hp, Bool.toNat_true] at hlost
        left
        simp [hd, ha, hp']
        omega
      · right; left
        rw [hd]
        exact ⟨c, List.mem_cons_of_mem _ hc, hf⟩
      · right; left
        rw [hd]
        exact ⟨_, List.mem_cons_self, hfailed⟩

/-- Task runs accept nothing and mend nothing. -/
theorem broken_tasks {n : ℕ} {s t : Tun} (h : Broken s)
    (hr : machine.run s (List.replicate n .sendDoneTask) = some t) :
    Broken t ∧ t.accepted = s.accepted := by
  induction n generalizing s with
  | zero =>
    cases hr
    exact ⟨h, rfl⟩
  | succ n ih =>
    rw [List.replicate_succ, Machine.run_cons] at hr
    obtain ⟨u, hu, hr⟩ := Option.bind_eq_some_iff.mp hr
    obtain ⟨hb, ha⟩ := ih (broken_step (e := .sendDoneTask) h hu) hr
    refine ⟨hb, ha.trans ?_⟩
    simp only [machine, step, Option.ite_none_right_eq_some, Option.some.injEq] at hu
    obtain ⟨-, rfl⟩ := hu
    rfl

theorem broken_not_completes {s : Tun} (h : Broken s) : ¬Completes s := by
  rintro ⟨-, n, t, hr, hall⟩
  obtain ⟨⟨hbound, hwrong⟩, ha⟩ := broken_tasks h hr
  have hlen : t.done.length = t.accepted.length := by rw [hall, ha, List.length_map]
  rcases hwrong with hlost | ⟨c, hc, hf⟩ | ⟨hp, -⟩
  · omega
  · rw [hall] at hc
    obtain ⟨data, -, rfl⟩ := List.mem_map.mp hc
    cases hf
  · rw [hp, Bool.toNat_true] at hbound
    omega

/-- Completions are right exactly as long as no packet is forwarded while one is owed. -/
theorem completes_iff_oneAtATime (s : Tun) (h : machine.Reachable Machine.Any s) :
    Completes s ↔ machine.Reachable OneAtATime s := by
  have howes {u : Tun} (hr : machine.Reachable OneAtATime u) : Owes u := by
    apply hr.invariant
    · rintro u ⟨hp, ha, hd⟩
      exact .none hp (by rw [ha, hd, List.map_nil])
    · intro u e v
      exact owes_step
  constructor
  · intro hc
    have hor : machine.Reachable OneAtATime s ∨ Broken s := h.ok_or_broken
      (fun _ _ _ hr hne hst => broken_of_overlap (howes hr) hne hst)
      (fun _ _ _ hb hst => broken_step hb hst)
    exact hor.resolve_right fun hb => broken_not_completes hb hc
  · intro hr
    exact (howes hr).completes

def bootTun : Tun := ⟨⟨0, 1, 1, false⟩, 0, false, [], []⟩

theorem bootTun_reachable : machine.Reachable Machine.Any bootTun := .start ⟨rfl, rfl, rfl⟩

/-- A refused packet between two that are completed, one of them by the demo. -/
theorem completes_iff_oneAtATime_refused :
    ∃ s, s.done = [(24, false), (8, false)] ∧
      (Completes s ↔ machine.Reachable OneAtATime s) := by
  have hrun : (machine.run bootTun [.send 8 60, .sendDoneTask, .send 16 (-1),
      .demoSend 24 3 60 60, .sendDoneTask]).map Tun.done = some [(24, false), (8, false)] := by
    decide +kernel
  obtain ⟨s, hs, hd⟩ := Option.map_eq_some_iff.mp hrun
  exact ⟨s, hd, completes_iff_oneAtATime s (bootTun_reachable.run _ hs)⟩

/-- Two packets before the task: one completion, with the second pointer. -/
theorem second_send_loses_first :
    ∃ s, machine.Reachable Machine.Any s ∧ s.accepted = [16, 8] ∧ s.done = [(16, false)] ∧
      s.sendDonePosted = false ∧ ¬Completes s := by
  have hrun : (machine.run bootTun [.send 8 60, .send 16 60, .sendDoneTask]).map
      (fun s => (s.accepted, s.done, s.sendDonePosted)) =
        some ([16, 8], [(16, false)], false) := by decide +kernel
  obtain ⟨s, hs, he⟩ := Option.map_eq_some_iff.mp hrun
  simp only [Prod.mk.injEq] at he
  obtain ⟨ha, hd, hp⟩ := he
  refine ⟨s, bootTun_reachable.run _ hs, ha, hd, hp, ?_⟩
  intro hc
  have horder := hc.order
  rw [ha, hd] at horder
  exact absurd horder (by decide)

end RpiCc2520.TunForward
