import Mathlib

/-! Machines with partial, executable steps. An event carries every choice its
environment makes, so one step is a function and a schedule is a list of events. -/
namespace RpiCc2520

structure Machine (σ ε : Type*) where
  initial : σ → Prop
  step : σ → ε → Option σ

namespace Machine
variable {σ ε : Type*} (M : Machine σ ε)

def run (s : σ) : List ε → Option σ
  | [] => some s
  | e :: es => (M.step s e).bind fun t => run t es

/-- States some schedule leads to in which every step met `ok` in the state before it. -/
inductive Reachable (ok : σ → ε → Prop) : σ → Prop
  | start {s : σ} (h : M.initial s) : Reachable ok s
  | next {s t : σ} {e : ε} (prior : Reachable ok s) (met : ok s e)
      (taken : M.step s e = some t) : Reachable ok t

/-- The condition every step meets. -/
def Any : σ → ε → Prop := fun _ _ => True

variable {M} {ok : σ → ε → Prop}

theorem Reachable.invariant {I : σ → Prop} (h0 : ∀ s, M.initial s → I s)
    (hstep : ∀ s e t, I s → ok s e → M.step s e = some t → I t)
    {s : σ} (h : M.Reachable ok s) : I s := by
  induction h with
  | start h => exact h0 _ h
  | next _ met taken ih => exact hstep _ _ _ ih met taken

theorem Reachable.imp {ok' : σ → ε → Prop} (h : ∀ s e, ok s e → ok' s e) {s : σ}
    (hr : M.Reachable ok s) : M.Reachable ok' s := by
  induction hr with
  | start hs => exact .start hs
  | next _ met taken ih => exact ih.next (h _ _ met) taken

theorem run_cons (s : σ) (e : ε) (es : List ε) :
    M.run s (e :: es) = (M.step s e).bind fun t => M.run t es := rfl

theorem run_append (s : σ) (es fs : List ε) :
    M.run s (es ++ fs) = (M.run s es).bind fun t => M.run t fs := by
  induction es generalizing s with
  | nil => rfl
  | cons e es ih =>
    rw [List.cons_append, run_cons, run_cons]
    cases M.step s e with
    | none => rfl
    | some t => exact ih t

theorem Reachable.run {s t : σ} (h : M.Reachable Any s) (es : List ε)
    (hr : M.run s es = some t) : M.Reachable Any t := by
  induction es generalizing s with
  | nil => cases hr; exact h
  | cons e es ih =>
    obtain ⟨u, hu, hr⟩ := Option.bind_eq_some_iff.mp hr
    exact ih (h.next trivial hu) hr

theorem Reachable.run_of_forall {s t : σ} (h : M.Reachable ok s) (es : List ε)
    (met : ∀ e ∈ es, ∀ s, ok s e) (hr : M.run s es = some t) : M.Reachable ok t := by
  induction es generalizing s with
  | nil => cases hr; exact h
  | cons e es ih =>
    obtain ⟨u, hu, hr⟩ := Option.bind_eq_some_iff.mp hr
    obtain ⟨he, hes⟩ := List.forall_mem_cons.mp met
    exact ih (h.next (he s) hu) hes hr

/-- What every step keeps, every run keeps. -/
theorem run_keeps {I : σ → Prop} (hstep : ∀ s e t, I s → M.step s e = some t → I t) {s t : σ}
    (h : I s) (es : List ε) (hr : M.run s es = some t) : I t := by
  induction es generalizing s with
  | nil => cases hr; exact h
  | cons e es ih =>
    obtain ⟨u, hu, hr⟩ := Option.bind_eq_some_iff.mp hr
    exact ih (hstep s e u h hu) hr

/-- A run meets the condition at every step, or it was broken at the first that did not and has
stayed so. -/
theorem Reachable.ok_or_broken {B : σ → Prop}
    (breaks : ∀ s e t, M.Reachable ok s → ¬ok s e → M.step s e = some t → B t)
    (stays : ∀ s e t, B s → M.step s e = some t → B t)
    {s : σ} (h : M.Reachable Any s) : M.Reachable ok s ∨ B s := by
  induction h with
  | start h => exact .inl (.start h)
  | @next s t e _ _ taken ih =>
    rcases ih with hr | hb
    · by_cases met : ok s e
      · exact .inl (hr.next met taken)
      · exact .inr (breaks s e t hr met taken)
    · exact .inr (stays s e t hb taken)

/-- A run that stops at a step that does not meet `ok`. -/
def runMeeting (M : Machine σ ε) (ok : σ → ε → Prop) [∀ s e, Decidable (ok s e)] (s : σ) :
    List ε → Option σ
  | [] => some s
  | e :: es => if ok s e then (M.step s e).bind fun t => runMeeting M ok t es else none

theorem Reachable.runMeeting [∀ s e, Decidable (ok s e)] {s t : σ} (h : M.Reachable ok s)
    (es : List ε) (hr : M.runMeeting ok s es = some t) : M.Reachable ok t := by
  induction es generalizing s with
  | nil => cases hr; exact h
  | cons e es ih =>
    simp only [Machine.runMeeting, Option.ite_none_right_eq_some] at hr
    obtain ⟨met, hr⟩ := hr
    obtain ⟨u, hu, hr⟩ := Option.bind_eq_some_iff.mp hr
    exact ih (h.next met hu) hr

/-- If from every state of rank `n` that misses the goal some allowed step lowers the rank, then
some schedule of allowed steps reaches the goal. -/
theorem exists_allowed_run_of_rank {I : ℕ → σ → Prop} {goal : σ → Prop} {allowed : ε → Prop}
    (progress : ∀ n s, I n s →
      goal s ∨ ∃ e t m, allowed e ∧ m < n ∧ M.step s e = some t ∧ I m t)
    {n : ℕ} {s : σ} (h : I n s) :
    ∃ es t, (∀ e ∈ es, allowed e) ∧ M.run s es = some t ∧ goal t := by
  induction n using Nat.strong_induction_on generalizing s with
  | _ n ih =>
    rcases progress n s h with hg | ⟨e, t, m, ha, hlt, hst, ht⟩
    · exact ⟨[], s, by simp, rfl, hg⟩
    · obtain ⟨es, u, hes, hr, hg⟩ := ih m hlt ht
      refine ⟨e :: es, u, ?_, ?_, hg⟩
      · simpa [ha] using hes
      · rw [run_cons, hst]
        exact hr

theorem exists_run_of_rank {I : ℕ → σ → Prop} {goal : σ → Prop}
    (progress : ∀ n s, I n s → goal s ∨ ∃ e t m, m < n ∧ M.step s e = some t ∧ I m t)
    {n : ℕ} {s : σ} (h : I n s) : ∃ es t, M.run s es = some t ∧ goal t := by
  have hprogress (n : ℕ) (s : σ) (hI : I n s) : goal s ∨ ∃ e t m, (fun _ : ε => True) e ∧
      m < n ∧ M.step s e = some t ∧ I m t :=
    (progress n s hI).imp_right fun ⟨e, t, m, h⟩ => ⟨e, t, m, trivial, h⟩
  obtain ⟨es, t, -, hr, hg⟩ := exists_allowed_run_of_rank hprogress h
  exact ⟨es, t, hr, hg⟩

/-- Where no allowed step raises the rank and each step of the kind counted lowers it, a run has
no more steps of that kind than the rank it started with. -/
theorem countP_le_of_rank {I : σ → Prop} (rank : σ → ℕ) {allowed : ε → Prop} (p : ε → Bool)
    (hstep : ∀ s e t, I s → allowed e → M.step s e = some t →
      I t ∧ rank t + [e].countP p ≤ rank s)
    {s t : σ} (h : I s) (es : List ε) (ha : ∀ e ∈ es, allowed e) (hr : M.run s es = some t) :
    rank t + es.countP p ≤ rank s := by
  induction es generalizing s with
  | nil => cases hr; simp
  | cons e es ih =>
    obtain ⟨u, hu, hr⟩ := Option.bind_eq_some_iff.mp hr
    obtain ⟨hI, hle⟩ := hstep s e u h (ha e List.mem_cons_self) hu
    have hrest := ih hI (fun e he => ha e (List.mem_cons_of_mem _ he)) hr
    rw [← List.singleton_append, List.countP_append]
    omega

end Machine
end RpiCc2520
