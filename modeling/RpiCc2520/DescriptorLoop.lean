import RpiCc2520.IoManager
import RpiCc2520.SchedulerSleep

/-! The components whose descriptors the mote sleeps on, under its scheduler: `select` returns, each
ready component reads into its one buffer and posts its one task, and the tasks run. -/
namespace RpiCc2520.DescriptorLoop
open IoManager (Table)
open SchedulerSleep (Mote Pc PostedWhenReceived)
open SignalMask

/-- How an event of a component comes about: `IO.receiveReady` begins, or goes on after a call, the
task runs, or something other than these acts on it. -/
inductive Kind
  | ready
  | inside
  | task
  | free
  deriving DecidableEq

/-- A component wired to an `IOFileC`. Its task is posted by its `IO.receiveReady` only. `busy` is
said of a component inside of that. -/
structure IoFile where
  State : Type
  Event : Type
  initial : State → Prop
  step : State → Event → Option State
  kind : Event → Kind
  posted : State → Bool
  busy : State → Bool
  initial_posted : ∀ s, initial s → posted s = false
  initial_busy : ∀ s, initial s → busy s = false
  posted_free : ∀ s e t, kind e = .free → step s e = some t → posted t = posted s ∧ busy t = busy s
  posted_read : ∀ s e t, kind e = .ready ∨ kind e = .inside → step s e = some t →
    posted s = true → posted t = true
  posted_task : ∀ s e t, kind e = .task → step s e = some t →
    posted t = false ∧ busy t = busy s

/-- The component on its own, if its descriptor is looked at only when its task has run. -/
def IoFile.machine (f : IoFile) : Machine f.State f.Event :=
  ⟨f.initial, fun s e =>
    if f.kind e = .ready ∧ (f.posted s = true ∨ f.busy s = true) then none else f.step s e⟩

variable {σ α : Type} {n : ℕ}

/-- The mote, the table of descriptors, the components still to be told of their descriptors, and
the components. `α` are the other tasks. -/
structure Node (σ α : Type) (files : Fin n → IoFile) where
  mote : Mote σ (Fin n ⊕ α)
  table : Table n
  due : List (Fin n)
  file : ∀ i, (files i).State

variable {files : Fin n → IoFile}

inductive Event (σ α : Type) (files : Fin n → IoFile)
  /-- the main program goes on; if in `select`, with the descriptors it finds ready -/
  | main (ready : Finset ℕ)
  | arrive (sig : σ)
  | deliver (sig : σ)
  | handlerReturn
  | post (task : α)
  | registerFileDescriptor (id : Fin n) (fd : ℕ)
  | unregisterFileDescriptor (id : Fin n)
  | file (i : Fin n) (e : (files i).Event)

def Idle (s : Node σ α files) : Prop := ∀ i, (files i).busy (s.file i) = false

instance (s : Node σ α files) : Decidable (Idle s) :=
  inferInstanceAs (Decidable (∀ i, (files i).busy (s.file i) = false))

variable [DecidableEq σ] [DecidableEq α]

def stepMote (e : SchedulerSleep.Event σ (Fin n ⊕ α)) (s : Node σ α files) :
    Option (Node σ α files) :=
  (SchedulerSleep.step s.mote e).map fun mote => { s with mote := mote }

/-- The main program. The event of a ready descriptor and the task of a component are steps of the
component. -/
def stepMain (ready : Finset ℕ) (s : Node σ α files) : Option (Node σ α files) :=
  match s.mote.pc with
  | .waitForIo | .select => do
      let table ← IoManager.step s.table (.waitForIo ready)
      let s ← stepMote (.main (decide ready.Nonempty)) s
      some { s with table := table, due := IoManager.signalled ready s.table }
  | .received => if s.due = [] ∧ Idle s then stepMote (.main false) s else none
  | .run (.inl _) => none
  | .run (.inr _) | .atomicStart | .popTask | .enable | .disable | .atomicEnd _ =>
      stepMote (.main false) s

/-- A task registers and unregisters descriptors: both commands are synchronous. -/
def stepTable (e : IoManager.Event n) (s : Node σ α files) : Option (Node σ α files) :=
  match s.mote.pc with
  | .run _ =>
      if s.mote.signals.saved = [] then
        (IoManager.step s.table e).map fun table => { s with table := table }
      else none
  | _ => none

def setFile (i : Fin n) (f : (files i).State) (s : Node σ α files) : Node σ α files :=
  { s with file := Function.update s.file i f }

/-- A component comes out of a part of its `IO.receiveReady`. Its task is in the queue if it was
posted now or before. -/
def readFile (i : Fin n) (f : (files i).State) (s : Node σ α files) : Option (Node σ α files) :=
  if (files i).posted f = true then stepMote (.post (.inl i)) (setFile i f s)
  else some (setFile i f s)

def MayRead (s : Node σ α files) : Prop :=
  s.mote.pc = .received ∧ Settled s.mote.signals ∧ s.mote.signals.saved = []

instance (s : Node σ α files) : Decidable (MayRead s) :=
  match h : s.mote.pc with
  | .received => decidable_of_iff (Settled s.mote.signals ∧ s.mote.signals.saved.isEmpty = true)
      (by simp [MayRead, h])
  | .run _ | .atomicStart | .popTask | .enable | .waitForIo | .select | .disable
  | .atomicEnd _ => .isFalse (by simp [MayRead, h])

def stepFile (i : Fin n) (e : (files i).Event) (s : Node σ α files) :
    Option (Node σ α files) :=
  ((files i).step (s.file i) e).bind fun f =>
    match (files i).kind e, s.due, s.mote.pc with
    | .ready, j :: due, _ =>
        if j = i ∧ MayRead s ∧ Idle s then readFile i f { s with due := due } else none
    | .inside, _, _ =>
        if (files i).busy (s.file i) = true ∧ MayRead s then readFile i f s else none
    | .task, _, .run (.inl j) => if j = i then stepMote (.main false) (setFile i f s) else none
    | .free, _, _ => some (setFile i f s)
    | .ready, [], _ | .task, _, _ => none

def step (s : Node σ α files) : Event σ α files → Option (Node σ α files)
  | .main ready => stepMain ready s
  | .arrive sig => stepMote (.arrive sig) s
  | .deliver sig => stepMote (.deliver sig) s
  | .handlerReturn => stepMote .handlerReturn s
  | .post task => stepMote (.post (.inr task)) s
  | .registerFileDescriptor id fd => stepTable (.registerFileDescriptor id fd) s
  | .unregisterFileDescriptor id => stepTable (.unregisterFileDescriptor id) s
  | .file i e => stepFile i e s

/-- The loop starts with tasks posted while booting, none of them of a component. -/
structure Booted (s : Node σ α files) : Prop where
  mote : SchedulerSleep.Booted s.mote
  queue : ∀ i, .inl i ∉ s.mote.queue
  table : (IoManager.machine n).Reachable Machine.Any s.table
  due : s.due = []
  file : ∀ i, (files i).initial (s.file i)

def machine (files : Fin n → IoFile) : Machine (Node σ α files) (Event σ α files) :=
  ⟨Booted, step⟩

def pending {τ : Type} (m : Mote σ τ) : List τ := m.pc.current ++ m.queue

/-- The components whose tasks are pending. -/
def filed (m : Mote σ (Fin n ⊕ α)) : List (Fin n) := (pending m).filterMap Sum.getLeft?

/-- The task of a component is pending just when it is posted, once. None of the components still to
be told has one. Away from the descriptors none is being told. -/
structure Paced (s : Node σ α files) : Prop where
  mote : SchedulerSleep.machine.Reachable
    (fun m e => ∀ i : Fin n, PostedWhenReceived (.inl i) m e) s.mote
  once : (filed s.mote).Nodup
  filed : ∀ i, i ∈ filed s.mote ↔ (files i).posted (s.file i) = true
  due : ∀ i ∈ s.due, (files i).posted (s.file i) = false ∧ (files i).busy (s.file i) = false
  nodup : s.due.Nodup
  away : s.mote.pc ≠ .received → s.due = [] ∧ Idle s

omit [DecidableEq σ] in
theorem pending_mainStep {τ : Type} {ready : Bool} {m m' : Mote σ τ}
    (h : SchedulerSleep.mainStep ready m = some m') :
    (∀ task, m.pc ≠ .run task) ∧ pending m' = pending m ∨
      ∃ task, m.pc = .run task ∧ pending m = task :: pending m' ∧ m'.pc = .atomicStart := by
  unfold SchedulerSleep.mainStep at h
  unfold pending
  cases hpc : m.pc with
  | popTask =>
    cases hq : m.queue with
    | nil =>
      simp only [hpc, hq] at h
      cases h
      simp [Pc.current]
    | cons task queue =>
      simp only [hpc, hq] at h
      cases h
      simp [Pc.current]
  | select =>
    simp only [hpc, Option.ite_none_right_eq_some] at h
    obtain ⟨-, h⟩ := h
    cases h
    simp [Pc.current]
  | waitForIo =>
    simp only [hpc] at h
    cases h
    cases ready <;> simp [Pc.current]
  | run task =>
    simp only [hpc] at h
    cases h
    simp [Pc.current]
  | atomicStart | enable | received | disable | atomicEnd =>
    simp only [hpc] at h
    cases h
    simp [Pc.current]

omit [DecidableEq σ] in
theorem queue_post {τ : Type} [DecidableEq τ] (task : τ) (m : Mote σ τ) :
    (SchedulerSleep.post task m).queue =
      if task ∈ m.queue then m.queue else m.queue ++ [task] := by
  unfold SchedulerSleep.post
  split_ifs <;> rfl

theorem stepMote_eq_some {e : SchedulerSleep.Event σ (Fin n ⊕ α)} {s t : Node σ α files}
    (h : stepMote e s = some t) :
    ∃ mote, SchedulerSleep.step s.mote e = some mote ∧ t = { s with mote := mote } := by
  obtain ⟨mote, hm, rfl⟩ := Option.map_eq_some_iff.mp h
  exact ⟨mote, hm, rfl⟩

theorem stepFile_cases {i : Fin n} {e : (files i).Event} {s t : Node σ α files}
    (h : stepFile i e s = some t) : ∃ f, (files i).step (s.file i) e = some f ∧
      ((files i).kind e = .ready ∧ (∃ due, s.due = i :: due ∧ MayRead s ∧ Idle s ∧
          readFile i f { s with due := due } = some t) ∨
        (files i).kind e = .inside ∧ (files i).busy (s.file i) = true ∧ MayRead s ∧
          readFile i f s = some t ∨
        (files i).kind e = .task ∧ s.mote.pc = .run (.inl i) ∧
          stepMote (.main false) (setFile i f s) = some t ∨
        (files i).kind e = .free ∧ t = setFile i f s) := by
  obtain ⟨f, hf, h⟩ := Option.bind_eq_some_iff.mp h
  refine ⟨f, hf, ?_⟩
  split at h
  · rename_i j due hkind hdue
    rw [Option.ite_none_right_eq_some] at h
    obtain ⟨⟨rfl, hmay, hidle⟩, h⟩ := h
    exact .inl ⟨hkind, due, hdue, hmay, hidle, h⟩
  · rename_i hkind
    rw [Option.ite_none_right_eq_some] at h
    obtain ⟨⟨hbusy, hmay⟩, h⟩ := h
    exact .inr (.inl ⟨hkind, hbusy, hmay, h⟩)
  · rename_i j hkind hpc
    rw [Option.ite_none_right_eq_some] at h
    obtain ⟨rfl, h⟩ := h
    exact .inr (.inr (.inl ⟨hkind, hpc, h⟩))
  · rename_i hkind
    exact .inr (.inr (.inr ⟨hkind, (Option.some.inj h).symm⟩))
  · cases h
  · cases h

omit [DecidableEq σ] [DecidableEq α] in
theorem mem_filed {m : Mote σ (Fin n ⊕ α)} {i : Fin n} :
    i ∈ filed m ↔ .inl i ∈ pending m := by
  unfold filed
  rw [List.mem_filterMap]
  constructor
  · rintro ⟨task, hmem, htask⟩
    rw [Sum.getLeft?_eq_some_iff] at htask
    exact htask ▸ hmem
  · exact fun hmem => ⟨.inl i, hmem, rfl⟩

theorem mote_aside {e : SchedulerSleep.Event σ (Fin n ⊕ α)} {m m' : Mote σ (Fin n ⊕ α)}
    (hst : SchedulerSleep.step m e = some m') (hmain : ∀ ready, e ≠ .main ready)
    (hpost : ∀ i, e ≠ .post (.inl i)) :
    filed m' = filed m ∧ (m'.pc = m.pc ∨ m.pc = .select ∧ m'.pc = .disable) := by
  cases e with
  | main ready => exact absurd rfl (hmain ready)
  | arrive sig =>
    cases hst
    exact ⟨rfl, .inl rfl⟩
  | deliver sig =>
    obtain ⟨signals, -, rfl⟩ := Option.map_eq_some_iff.mp hst
    unfold filed pending
    cases hpc : m.pc with
    | select => exact ⟨rfl, .inr ⟨rfl, rfl⟩⟩
    | atomicStart | popTask | enable | waitForIo | received | disable | atomicEnd | run =>
      exact ⟨rfl, .inl rfl⟩
  | handlerReturn =>
    obtain ⟨-, hst⟩ := Option.ite_none_right_eq_some.mp hst
    obtain ⟨signals, -, rfl⟩ := Option.map_eq_some_iff.mp hst
    exact ⟨rfl, .inl rfl⟩
  | post task =>
    obtain ⟨-, hst⟩ := Option.ite_none_right_eq_some.mp hst
    obtain rfl := Option.some.inj hst
    refine ⟨?_, .inl SchedulerSleep.pc_post⟩
    cases task with
    | inl j => exact absurd rfl (hpost j)
    | inr a =>
      unfold filed pending
      rw [SchedulerSleep.pc_post, queue_post]
      split_ifs
      · rfl
      · simp

theorem paced_stepMote {e : SchedulerSleep.Event σ (Fin n ⊕ α)} {s t : Node σ α files}
    (h : Paced s) (hst : stepMote e s = some t)
    (posts : ∀ i : Fin n, e ≠ .post (.inl i))
    (same : filed t.mote = filed s.mote)
    (pc : t.mote.pc ≠ .received → s.mote.pc ≠ .received ∨ s.due = [] ∧ Idle s) : Paced t := by
  obtain ⟨mote, hm, rfl⟩ := stepMote_eq_some hst
  have hmote := h.mote.next (fun i he => absurd he (posts i)) hm
  refine ⟨hmote, same ▸ h.once, same ▸ h.filed, h.due, h.nodup, ?_⟩
  intro hne
  exact (pc hne).elim h.away id

theorem paced_stepAside {e : SchedulerSleep.Event σ (Fin n ⊕ α)} {s t : Node σ α files}
    (h : Paced s) (hst : stepMote e s = some t) (hmain : ∀ ready, e ≠ .main ready)
    (hpost : ∀ i, e ≠ .post (.inl i)) : Paced t := by
  obtain ⟨mote, hm, rfl⟩ := stepMote_eq_some hst
  obtain ⟨hsame, hpc⟩ := mote_aside hm hmain hpost
  refine paced_stepMote h hst hpost hsame ?_
  intro hne
  rcases hpc with hpc | ⟨hpc, -⟩
  · exact .inl (hpc ▸ hne)
  · exact .inl (by simp [hpc])

/-- Asleep or on the way there, no component has its task posted. -/
theorem Paced.not_posted {s : Node σ α files} (h : Paced s) (hs : s.mote.pc.Sleepy) (i : Fin n) :
    (files i).posted (s.file i) = false := by
  have hqueue : .inl i ∉ s.mote.queue :=
    SchedulerSleep.not_mem_queue_of_sleepy (h.mote.imp fun _ _ posts => posts i) hs
  have hcurrent : s.mote.pc.current = [] := by
    generalize s.mote.pc = pc at hs
    cases hs <;> rfl
  rw [← Bool.not_eq_true, ← h.filed i, mem_filed, pending, hcurrent, List.nil_append]
  exact hqueue

theorem paced_booted {s : Node σ α files} (h : Booted s) : Paced s := by
  have hidle : Idle s := fun i => (files i).initial_busy _ (h.file i)
  have hfiled (i : Fin n) : i ∉ filed s.mote := by
    rw [mem_filed, pending, h.mote.1]
    exact h.queue i
  refine ⟨.start h.mote, ?_, fun i => ?_, ?_, ?_, fun _ => ⟨h.due, hidle⟩⟩
  · rw [List.eq_nil_iff_forall_not_mem.mpr hfiled]
    exact .nil
  · rw [(files i).initial_posted _ (h.file i)]
    exact iff_of_false (hfiled i) Bool.false_ne_true
  · rw [h.due]
    simp
  · rw [h.due]
    exact .nil

theorem paced_onward {ready : Bool} {s t : Node σ α files} (h : Paced s)
    (hst : stepMote (.main ready) s = some t) (hrun : ∀ i, s.mote.pc ≠ .run (.inl i))
    (haway : s.due = [] ∧ Idle s) : Paced t := by
  obtain ⟨mote, hmote, rfl⟩ := stepMote_eq_some hst
  have hmain := (Option.ite_none_right_eq_some.mp hmote).2
  refine paced_stepMote h hst (fun i => by simp) ?_ fun _ => .inr haway
  unfold filed
  rcases pending_mainStep hmain with ⟨-, heq⟩ | ⟨task, hpc, heq, -⟩
  · rw [heq]
  · cases task with
    | inl i => exact absurd hpc (hrun i)
    | inr a => rw [heq, List.filterMap_cons_none rfl]

omit [DecidableEq α] in
theorem signalled_empty (table : Table n) : IoManager.signalled ∅ table = [] :=
  List.filter_eq_nil_iff.mpr fun _ _ => by simp

omit [DecidableEq σ] [DecidableEq α] in
theorem received_of_mainStep {τ : Type} {ready : Bool} {m m' : Mote σ τ}
    (hpc : m.pc = .waitForIo ∨ m.pc = .select) (h : SchedulerSleep.mainStep ready m = some m') :
    m'.pc = .received ∨ ready = false := by
  unfold SchedulerSleep.mainStep at h
  rcases hpc with hpc | hpc
  · simp only [hpc] at h
    cases h
    cases ready with
    | true => exact .inl rfl
    | false => exact .inr rfl
  · simp only [hpc, Option.ite_none_right_eq_some] at h
    obtain ⟨-, h⟩ := h
    cases h
    exact .inl rfl

/-- `select` returns: each ready component is told once, and the task of none is pending. -/
theorem paced_select {ready : Finset ℕ} {s u : Node σ α files} {table : Table n} (h : Paced s)
    (hpc : s.mote.pc = .waitForIo ∨ s.mote.pc = .select)
    (hst : stepMote (.main (decide ready.Nonempty)) s = some u) :
    Paced { u with table := table, due := IoManager.signalled ready s.table } := by
  have hrun (i : Fin n) : s.mote.pc ≠ .run (.inl i) := by
    rcases hpc with hpc | hpc <;> simp [hpc]
  have hsleepy : s.mote.pc.Sleepy := by
    rcases hpc with hpc | hpc <;> rw [hpc]
    · exact .waitForIo
    · exact .select
  have haway : s.due = [] ∧ Idle s := by
    apply h.away
    rcases hpc with hpc | hpc <;> simp [hpc]
  have hu := paced_onward h hst hrun haway
  obtain ⟨mote, hmote, rfl⟩ := stepMote_eq_some hst
  have hmain := (Option.ite_none_right_eq_some.mp hmote).2
  refine ⟨hu.mote, hu.once, hu.filed, ?_, (List.nodup_finRange n).filter _, ?_⟩
  · intro i _
    exact ⟨h.not_posted hsleepy i, haway.2 i⟩
  · intro hne
    refine ⟨?_, haway.2⟩
    have hready := (received_of_mainStep hpc hmain).resolve_left hne
    rw [decide_eq_false_iff_not, Finset.not_nonempty_iff_eq_empty] at hready
    rw [hready]
    exact signalled_empty s.table

theorem paced_stepMain {ready : Finset ℕ} {s t : Node σ α files} (h : Paced s)
    (hst : stepMain ready s = some t) : Paced t := by
  have hselect (hpc : s.mote.pc = .waitForIo ∨ s.mote.pc = .select)
      (hst : ((IoManager.step s.table (.waitForIo ready)).bind fun table =>
        (stepMote (.main (decide ready.Nonempty)) s).bind fun u =>
          some { u with table := table, due := IoManager.signalled ready u.table }) = some t) :
      Paced t := by
    obtain ⟨table, -, hst⟩ := Option.bind_eq_some_iff.mp hst
    obtain ⟨u, hu, hst⟩ := Option.bind_eq_some_iff.mp hst
    obtain rfl := Option.some.inj hst
    have hpaced : Paced { u with table := table, due := IoManager.signalled ready s.table } :=
      paced_select h hpc hu
    obtain ⟨mote, -, rfl⟩ := stepMote_eq_some hu
    exact hpaced
  have hplain (hpc : s.mote.pc ≠ .received) (hrun : ∀ i, s.mote.pc ≠ .run (.inl i))
      (hst : stepMote (.main false) s = some t) : Paced t :=
    paced_onward h hst hrun (h.away hpc)
  unfold stepMain at hst
  cases hpc : s.mote.pc with
  | waitForIo =>
    simp only [hpc] at hst
    exact hselect (.inl hpc) hst
  | select =>
    simp only [hpc] at hst
    exact hselect (.inr hpc) hst
  | received =>
    simp only [hpc, Option.ite_none_right_eq_some] at hst
    exact paced_onward h hst.2 (by simp [hpc]) hst.1
  | run task =>
    cases task with
    | inl i =>
      simp only [hpc] at hst
      cases hst
    | inr a =>
      simp only [hpc] at hst
      exact hplain (by simp [hpc]) (by simp [hpc]) hst
  | atomicStart | popTask | enable | disable | atomicEnd =>
    simp only [hpc] at hst
    exact hplain (by simp [hpc]) (by simp [hpc]) hst

omit [DecidableEq σ] [DecidableEq α] in
@[simp] theorem setFile_self (i : Fin n) (f : (files i).State) (s : Node σ α files) :
    (setFile i f s).file i = f := Function.update_self ..

omit [DecidableEq σ] [DecidableEq α] in
theorem setFile_of_ne {i j : Fin n} (hne : j ≠ i) (f : (files i).State) (s : Node σ α files) :
    (setFile i f s).file j = s.file j := Function.update_of_ne hne _ _

omit [DecidableEq σ] in
theorem filed_post {m : Mote σ (Fin n ⊕ α)} (hpc : m.pc = .received) (i : Fin n) :
    filed (SchedulerSleep.post (.inl i) m) =
      if i ∈ filed m then filed m else filed m ++ [i] := by
  have hqueue : pending m = m.queue := by
    rw [pending, hpc]
    rfl
  have hqueue' : pending (SchedulerSleep.post (.inl i) m) =
      (SchedulerSleep.post (.inl i) m).queue := by
    rw [pending, SchedulerSleep.pc_post, hpc]
    rfl
  have hmem : i ∈ filed m ↔ .inl i ∈ m.queue := by rw [mem_filed, hqueue]
  unfold filed at hmem ⊢
  rw [hqueue] at hmem ⊢
  rw [hqueue', queue_post]
  by_cases hin : .inl i ∈ m.queue
  · rw [if_pos hin, if_pos (hmem.mpr hin)]
  · rw [if_neg hin, if_neg (mt hmem.mp hin), List.filterMap_append]
    rfl

omit [DecidableEq σ] in
theorem mem_filed_post {m : Mote σ (Fin n ⊕ α)} (hpc : m.pc = .received) (i j : Fin n) :
    j ∈ filed (SchedulerSleep.post (.inl i) m) ↔ j = i ∨ j ∈ filed m := by
  rw [filed_post hpc]
  split_ifs with hmem
  · refine ⟨.inr, ?_⟩
    rintro (rfl | hj)
    · exact hmem
    · exact hj
  · rw [List.mem_append, List.mem_singleton]
    exact or_comm

omit [DecidableEq σ] in
theorem nodup_filed_post {m : Mote σ (Fin n ⊕ α)} (hpc : m.pc = .received) (i : Fin n)
    (h : (filed m).Nodup) : (filed (SchedulerSleep.post (.inl i) m)).Nodup := by
  rw [filed_post hpc]
  split_ifs with hmem
  · exact h
  · rw [← List.concat_eq_append]
    exact h.concat hmem

/-- A component that was told of its descriptor, or goes on with that, has its task pending if it
posted it. -/
theorem paced_readFile {i : Fin n} {f : (files i).State} {s t : Node σ α files} (h : Paced s)
    (hi : i ∉ s.due) (hpc : s.mote.pc = .received)
    (hkeep : (files i).posted (s.file i) = true → (files i).posted f = true)
    (hst : readFile i f s = some t) : Paced t := by
  have hdue : ∀ j ∈ s.due, (files j).posted ((setFile i f s).file j) = false ∧
      (files j).busy ((setFile i f s).file j) = false := by
    intro j hj
    have hne : j ≠ i := by
      rintro rfl
      exact hi hj
    rw [setFile_of_ne hne]
    exact h.due j hj
  have hother {j : Fin n} (hne : j ≠ i) : j ∈ filed s.mote ↔
      (files j).posted ((setFile i f s).file j) = true := by
    rw [setFile_of_ne hne]
    exact h.filed j
  unfold readFile at hst
  split_ifs at hst with hposted
  · obtain ⟨mote, hm, rfl⟩ := stepMote_eq_some hst
    have hm : SchedulerSleep.step s.mote (.post (.inl i)) = some mote := hm
    have hposts (j : Fin n) : PostedWhenReceived (.inl j) s.mote (.post (.inl i)) := fun _ => hpc
    have hmote := h.mote.next hposts hm
    obtain rfl := Option.some.inj (Option.ite_none_right_eq_some.mp hm).2
    have hpc' : (SchedulerSleep.post (.inl i) s.mote).pc = .received :=
      SchedulerSleep.pc_post.trans hpc
    refine ⟨hmote, nodup_filed_post hpc i h.once, fun j => ?_, hdue, h.nodup,
      fun hne => absurd hpc' hne⟩
    refine (mem_filed_post hpc i j).trans ?_
    by_cases hj : j = i
    · subst hj
      change _ ↔ (files j).posted ((setFile j f s).file j) = true
      rw [setFile_self]
      exact iff_of_true (.inl rfl) hposted
    · exact (or_iff_right hj).trans (hother hj)
  · obtain rfl := Option.some.inj hst
    refine ⟨h.mote, h.once, fun j => ?_, hdue, h.nodup, fun hne => absurd hpc hne⟩
    by_cases hj : j = i
    · subst hj
      rw [setFile_self]
      exact iff_of_false (fun hmem => hposted (hkeep ((h.filed j).mp hmem))) hposted
    · exact hother hj

theorem paced_task {i : Fin n} {f : (files i).State} {s t : Node σ α files} (h : Paced s)
    (hpc : s.mote.pc = .run (.inl i)) (hposted : (files i).posted f = false)
    (hbusy : (files i).busy f = (files i).busy (s.file i))
    (hst : stepMote (.main false) (setFile i f s) = some t) : Paced t := by
  obtain ⟨mote, hm, rfl⟩ := stepMote_eq_some hst
  have hm : SchedulerSleep.step s.mote (.main false) = some mote := hm
  have hposts (j : Fin n) : PostedWhenReceived (.inl j) s.mote (.main false) :=
    fun he => absurd he (by simp)
  have hmote := h.mote.next hposts hm
  have hmain := (Option.ite_none_right_eq_some.mp hm).2
  obtain ⟨hnever, -⟩ | ⟨task, hrun, heq, -⟩ := pending_mainStep hmain
  · exact absurd hpc (hnever _)
  obtain rfl := Pc.run.inj (hpc.symm.trans hrun)
  have hfiled : filed s.mote = i :: filed mote := by
    unfold filed
    rw [heq]
    rfl
  have honce : (i :: filed mote).Nodup := hfiled ▸ h.once
  obtain ⟨hdue, hidle⟩ := h.away (by rw [hpc]; simp)
  refine ⟨hmote, honce.of_cons, fun j => ?_, ?_, h.nodup, fun _ => ⟨hdue, fun j => ?_⟩⟩
  · change j ∈ filed mote ↔ (files j).posted ((setFile i f s).file j) = true
    by_cases hj : j = i
    · subst hj
      rw [setFile_self, hposted]
      exact iff_of_false honce.notMem Bool.false_ne_true
    · rw [setFile_of_ne hj, ← h.filed j, hfiled, List.mem_cons, or_iff_right hj]
  · intro j hj
    rw [show (setFile i f s).due = [] from hdue] at hj
    cases hj
  · change (files j).busy ((setFile i f s).file j) = false
    by_cases hj : j = i
    · subst hj
      rw [setFile_self, hbusy]
      exact hidle j
    · rw [setFile_of_ne hj]
      exact hidle j

theorem paced_free {i : Fin n} {f : (files i).State} {s : Node σ α files} (h : Paced s)
    (hposted : (files i).posted f = (files i).posted (s.file i))
    (hbusy : (files i).busy f = (files i).busy (s.file i)) : Paced (setFile i f s) := by
  have hsame (j : Fin n) : (files j).posted ((setFile i f s).file j) =
      (files j).posted (s.file j) ∧
      (files j).busy ((setFile i f s).file j) = (files j).busy (s.file j) := by
    by_cases hj : j = i
    · subst hj
      rw [setFile_self]
      exact ⟨hposted, hbusy⟩
    · rw [setFile_of_ne hj]
      exact ⟨rfl, rfl⟩
  refine ⟨h.mote, h.once, fun j => ?_, fun j hj => ?_, h.nodup, fun hne => ?_⟩
  · rw [(hsame j).1]
    exact h.filed j
  · rw [(hsame j).1, (hsame j).2]
    exact h.due j hj
  · obtain ⟨hdue, hidle⟩ := h.away hne
    exact ⟨hdue, fun j => (hsame j).2.trans (hidle j)⟩

/-- What every component may do, and what the node is told on top of that. -/
def Allowed (ok : ∀ i, (files i).State → (files i).Event → Prop) (s : Node σ α files)
    (e : Event σ α files) : Prop :=
  ∀ i f, e = .file i f → ok i (s.file i) f

def Apart (ok : ∀ i, (files i).State → (files i).Event → Prop) (s : Node σ α files) : Prop :=
  ∀ i, (files i).machine.Reachable (ok i) (s.file i)

variable {ok : ∀ i, (files i).State → (files i).Event → Prop}

omit [DecidableEq σ] [DecidableEq α] in
theorem apart_setFile {i : Fin n} {e : (files i).Event} {f : (files i).State}
    {s : Node σ α files} (h : Apart ok s) (met : ok i (s.file i) e)
    (taken : (files i).machine.step (s.file i) e = some f) : Apart ok (setFile i f s) := by
  intro j
  by_cases hj : j = i
  · subst hj
    rw [setFile_self]
    exact (h j).next met taken
  · rw [setFile_of_ne hj]
    exact h j

theorem apart_readFile {i : Fin n} {f : (files i).State} {s t : Node σ α files}
    (h : Apart ok (setFile i f s)) (hst : readFile i f s = some t) : Apart ok t := by
  unfold readFile at hst
  split_ifs at hst
  · obtain ⟨mote, -, rfl⟩ := stepMote_eq_some hst
    exact h
  · obtain rfl := Option.some.inj hst
    exact h

theorem stepFile_spec {i : Fin n} {e : (files i).Event} {s t : Node σ α files} (h : Paced s)
    (ha : Apart ok s) (met : ok i (s.file i) e) (hst : stepFile i e s = some t) :
    Paced t ∧ Apart ok t := by
  obtain ⟨f, hf, hcases⟩ := stepFile_cases hst
  have htaken (hguard : (files i).kind e = .ready →
        (files i).posted (s.file i) = false ∧ (files i).busy (s.file i) = false) :
      (files i).machine.step (s.file i) e = some f := by
    rw [← hf]
    refine if_neg ?_
    rintro ⟨hkind, hbad⟩
    obtain ⟨hposted, hbusy⟩ := hguard hkind
    simp [hposted, hbusy] at hbad
  rcases hcases with ⟨hkind, due, hdue, hmay, hidle, hst⟩ | ⟨hkind, hbusy, hmay, hst⟩ |
    ⟨hkind, hpc, hst⟩ | ⟨hkind, rfl⟩
  · -- it is told: its task has run, and no other component is being told
    have hi := h.due i (hdue ▸ List.mem_cons_self)
    have hnodup : (i :: due).Nodup := hdue ▸ h.nodup
    have hrest : Paced { s with due := due } :=
      ⟨h.mote, h.once, h.filed, fun j hj => h.due j (hdue ▸ List.mem_cons_of_mem _ hj),
        hnodup.of_cons, fun hne => absurd hmay.1 hne⟩
    exact ⟨paced_readFile hrest hnodup.notMem hmay.1
        ((files i).posted_read _ _ _ (.inl hkind) hf) hst,
      apart_readFile (s := { s with due := due }) (apart_setFile ha met (htaken fun _ => hi)) hst⟩
  · have hi : i ∉ s.due := by
      intro hmem
      rw [(h.due i hmem).2] at hbusy
      cases hbusy
    have hguard : (files i).kind e ≠ .ready := by simp [hkind]
    exact ⟨paced_readFile h hi hmay.1 ((files i).posted_read _ _ _ (.inr hkind) hf) hst,
      apart_readFile (apart_setFile ha met (htaken fun hr => absurd hr hguard)) hst⟩
  · have hguard : (files i).kind e ≠ .ready := by simp [hkind]
    obtain ⟨hposted, hbusy⟩ := (files i).posted_task _ _ _ hkind hf
    have hset := apart_setFile ha met (htaken fun hr => absurd hr hguard)
    refine ⟨paced_task h hpc hposted hbusy hst, ?_⟩
    obtain ⟨mote, -, rfl⟩ := stepMote_eq_some hst
    exact hset
  · have hguard : (files i).kind e ≠ .ready := by simp [hkind]
    obtain ⟨hposted, hbusy⟩ := (files i).posted_free _ _ _ hkind hf
    exact ⟨paced_free h hposted hbusy,
      apart_setFile ha met (htaken fun hr => absurd hr hguard)⟩

theorem file_stepMain {ready : Finset ℕ} {s t : Node σ α files} (hst : stepMain ready s = some t) :
    t.file = s.file := by
  have hmote {ready : Bool} {u : Node σ α files} (hst : stepMote (.main ready) s = some u) :
      u.file = s.file := by
    obtain ⟨mote, -, rfl⟩ := stepMote_eq_some hst
    rfl
  have hselect (hst : ((IoManager.step s.table (.waitForIo ready)).bind fun table =>
        (stepMote (.main (decide ready.Nonempty)) s).bind fun u =>
          some { u with table := table, due := IoManager.signalled ready u.table }) = some t) :
      t.file = s.file := by
    obtain ⟨table, -, hst⟩ := Option.bind_eq_some_iff.mp hst
    obtain ⟨u, hu, hst⟩ := Option.bind_eq_some_iff.mp hst
    obtain rfl := Option.some.inj hst
    have hfile : u.file = s.file := hmote hu
    exact hfile
  unfold stepMain at hst
  split at hst
  · exact hselect hst
  · exact hselect hst
  · exact hmote (Option.ite_none_right_eq_some.mp hst).2
  · cases hst
  all_goals exact hmote hst

theorem spec_step {s t : Node σ α files} {e : Event σ α files} (h : Paced s) (ha : Apart ok s)
    (met : Allowed ok s e) (hst : step s e = some t) : Paced t ∧ Apart ok t := by
  have haside {e : SchedulerSleep.Event σ (Fin n ⊕ α)} (hst : stepMote e s = some t)
      (hmain : ∀ ready, e ≠ .main ready) (hpost : ∀ i, e ≠ .post (.inl i)) :
      Paced t ∧ Apart ok t := by
    refine ⟨paced_stepAside h hst hmain hpost, ?_⟩
    obtain ⟨mote, -, rfl⟩ := stepMote_eq_some hst
    exact ha
  have htable {e : IoManager.Event n} (hst : stepTable e s = some t) : Paced t ∧ Apart ok t := by
    unfold stepTable at hst
    split at hst
    · rw [Option.ite_none_right_eq_some] at hst
      obtain ⟨table, -, rfl⟩ := Option.map_eq_some_iff.mp hst.2
      exact ⟨⟨h.mote, h.once, h.filed, h.due, h.nodup, h.away⟩, ha⟩
    · cases hst
  cases e with
  | main ready => exact ⟨paced_stepMain h hst, fun i => file_stepMain hst ▸ ha i⟩
  | arrive sig => exact haside hst (by simp) (by simp)
  | deliver sig => exact haside hst (by simp) (by simp)
  | handlerReturn => exact haside hst (by simp) (by simp)
  | post task => exact haside hst (by simp) (by simp)
  | registerFileDescriptor id fd => exact htable hst
  | unregisterFileDescriptor id => exact htable hst
  | file i e => exact stepFile_spec h ha (met i e rfl) hst

/-- Under the scheduler a component runs as it does on its own: its descriptor is looked at only once
its task has run. Its task finds what it was posted for, and the process blocks with no component's
task to run. -/
structure Kept (ok : ∀ i, (files i).State → (files i).Event → Prop) (s : Node σ α files) :
    Prop where
  apart : Apart ok s
  runs : ∀ i, s.mote.pc = .run (.inl i) → (files i).posted (s.file i) = true
  blocks : s.mote.pc = .select → ∀ i,
    (files i).posted (s.file i) = false ∧ (files i).busy (s.file i) = false

theorem kept_of_reachable {s : Node σ α files}
    (h : (machine files).Reachable (Allowed ok) s) : Kept ok s := by
  have hs : Paced s ∧ Apart ok s := by
    apply h.invariant (I := fun s => Paced s ∧ Apart ok s)
    · exact fun s hb => ⟨paced_booted hb, fun i => .start (hb.file i)⟩
    · exact fun s e t hs met hst => spec_step hs.1 hs.2 met hst
  obtain ⟨hp, ha⟩ := hs
  refine ⟨ha, fun i hpc => ?_, fun hpc i => ?_⟩
  · rw [← hp.filed i, mem_filed, pending, hpc]
    exact List.mem_cons_self
  · exact ⟨hp.not_posted (hpc ▸ .select) i, (hp.away (by simp [hpc])).2 i⟩

end RpiCc2520.DescriptorLoop
