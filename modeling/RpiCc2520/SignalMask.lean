import Mathlib

/-! Interrupts simulated with Unix signals: the process mask, pending signals, running
handlers, and the atomic sections built on them. -/
namespace RpiCc2520.SignalMask

/-- What the kernel and `linux_atomic.h` keep. `saved` holds, innermost handler first, the
mask each running handler interrupted. -/
structure Signals (σ : Type*) where
  mask : σ → Bool
  pending : List σ
  saved : List (σ → Bool)
  interuptsEnabled : Bool
  globalSigmask : σ → Bool

variable {σ : Type*}

def nescDisableInterrupt (s : Signals σ) : Signals σ :=
  { s with
    mask := fun _ => true
    globalSigmask := if s.interuptsEnabled then s.mask else s.globalSigmask
    interuptsEnabled := false }

def nescEnableInterrupt (s : Signals σ) : Signals σ :=
  { s with interuptsEnabled := true, mask := s.globalSigmask }

/-- `__nesc_atomic_start`, with the state to hand to the end of the section. -/
def nescAtomicStart (s : Signals σ) : Bool × Signals σ :=
  (s.interuptsEnabled, nescDisableInterrupt s)

def nescAtomicEnd (reenable : Bool) (s : Signals σ) : Signals σ :=
  if reenable then nescEnableInterrupt s else s

/-- A standard signal that is pending already is not queued again. -/
def arrive [DecidableEq σ] (sig : σ) (s : Signals σ) : Signals σ :=
  { s with pending := if sig ∈ s.pending then s.pending else sig :: s.pending }

/-- A handler starts with the interrupted mask and its own signal blocked. -/
def deliver [DecidableEq σ] (sig : σ) (s : Signals σ) : Option (Signals σ) :=
  if sig ∈ s.pending ∧ s.mask sig = false then
    some { s with
      pending := s.pending.erase sig
      saved := s.mask :: s.saved
      mask := Function.update s.mask sig true }
  else none

def handlerReturn (s : Signals σ) : Option (Signals σ) :=
  match s.saved with
  | [] => none
  | mask :: saved => some { s with mask := mask, saved := saved }

/-- Nothing pending could be delivered now. An unblocked signal is delivered before the
program goes on. -/
def Settled (s : Signals σ) : Prop := ∀ sig ∈ s.pending, s.mask sig = true

instance (s : Signals σ) : Decidable (Settled s) :=
  inferInstanceAs (Decidable (∀ sig ∈ s.pending, s.mask sig = true))

/-- No handler starts while everything is blocked. -/
theorem deliver_eq_some [DecidableEq σ] {sig : σ} {s t : Signals σ}
    (h : deliver sig s = some t) : s.mask sig = false ∧ t.saved = s.mask :: s.saved := by
  unfold deliver at h
  split_ifs at h with hc
  cases h
  exact ⟨hc.2, rfl⟩

theorem pending_deliver [DecidableEq σ] {sig : σ} {s t : Signals σ} (h : deliver sig s = some t) :
    t.pending = s.pending.erase sig ∧ t.mask = Function.update s.mask sig true := by
  unfold deliver at h
  split_ifs at h
  cases h
  exact ⟨rfl, rfl⟩

theorem mem_pending_arrive [DecidableEq σ] {sig other : σ} {s : Signals σ} :
    other ∈ (arrive sig s).pending ↔ other = sig ∨ other ∈ s.pending := by
  unfold arrive
  split_ifs with h
  · constructor
    · exact .inr
    · rintro (rfl | hmem)
      · exact h
      · exact hmem
  · exact List.mem_cons

theorem nodup_pending_arrive [DecidableEq σ] {sig : σ} {s : Signals σ} (h : s.pending.Nodup) :
    (arrive sig s).pending.Nodup := by
  unfold arrive
  split_ifs with hmem
  · exact h
  · exact h.cons hmem

theorem interuptsEnabled_deliver [DecidableEq σ] {sig : σ} {s t : Signals σ}
    (h : deliver sig s = some t) : t.interuptsEnabled = s.interuptsEnabled := by
  unfold deliver at h
  split_ifs at h
  cases h
  rfl

theorem handlerReturn_eq_some {s t : Signals σ} (h : handlerReturn s = some t) :
    s.saved = t.mask :: t.saved := by
  unfold handlerReturn at h
  cases hs : s.saved with
  | nil => simp [hs] at h
  | cons mask saved =>
    simp only [hs, Option.some.injEq] at h
    rw [← h]

theorem pending_handlerReturn {s t : Signals σ} (h : handlerReturn s = some t) :
    t.pending = s.pending := by
  unfold handlerReturn at h
  cases hs : s.saved with
  | nil => simp [hs] at h
  | cons mask saved =>
    simp only [hs, Option.some.injEq] at h
    rw [← h]

theorem interuptsEnabled_handlerReturn {s t : Signals σ} (h : handlerReturn s = some t) :
    t.interuptsEnabled = s.interuptsEnabled := by
  unfold handlerReturn at h
  cases hs : s.saved with
  | nil => simp [hs] at h
  | cons mask saved =>
    simp only [hs, Option.some.injEq] at h
    rw [← h]

end RpiCc2520.SignalMask
