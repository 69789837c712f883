import RpiCc2520.EventMachine
import RpiCc2520.SignalMask

/-! Atomic sections statement by statement, interrupted wherever some signal is not blocked. A
handler is a frame above the code it interrupts. -/
namespace RpiCc2520.SignalAtomic
open SignalMask

variable {σ : Type*}

/-- What is open in a frame: an atomic section, with the state its start returned and the mask
at the call of it, or the part of `McuSleep.sleep` between its enable and its disable. -/
inductive Scope (σ : Type*)
  | atomic (reenable : Bool) (before : σ → Bool)
  | sleep

/-- Who has called `__nesc_disable_interrupt`. -/
inductive Disabler (σ : Type*)
  | atomicStart (prevState : Bool) (before : σ → Bool)
  | sleep

/-- Who has called `__nesc_enable_interrupt`. -/
inductive Enabler
  | atomicEnd
  | sleep

/-- The next statement of a frame: its own code, or one of `linux_atomic.h`. -/
inductive Pc (σ : Type*)
  | body
  | block (call : Disabler σ)
  | check (call : Disabler σ) (tempSigmask : σ → Bool)
  | save (call : Disabler σ) (tempSigmask : σ → Bool)
  | clear (call : Disabler σ)
  | leave (call : Disabler σ)
  | enable (call : Enabler)
  | restore (call : Enabler)

structure Frame (σ : Type*) where
  pc : Pc σ
  scopes : List (Scope σ)

/-- The running frame and those it interrupted, innermost first. The masks to go back to are in
`signals.saved`. -/
structure Process (σ : Type*) where
  signals : Signals σ
  current : Frame σ
  interrupted : List (Frame σ)

def Process.goto (s : Process σ) (pc : Pc σ) : Process σ :=
  { s with current := { s.current with pc := pc } }

/-- Return to the frame's own code, with other scopes open. -/
def Process.ret (s : Process σ) (scopes : List (Scope σ)) : Process σ :=
  { s with current := ⟨.body, scopes⟩ }

/-- `__nesc_atomic_start` up to the call of `__nesc_disable_interrupt`. -/
def atomicStart (s : Process σ) : Option (Process σ) :=
  match s.current.pc with
  | .body => some (s.goto (.block (.atomicStart s.signals.interuptsEnabled s.signals.mask)))
  | _ => none

def atomicEnd (s : Process σ) : Option (Process σ) :=
  match s.current with
  | ⟨.body, .atomic reenable _ :: scopes⟩ =>
      some (if reenable then s.goto (.enable .atomicEnd) else s.ret scopes)
  | _ => none

/-- `McuSleep.sleep`, called inside a section. -/
def sleep (s : Process σ) : Option (Process σ) :=
  match s.current with
  | ⟨.body, .atomic _ _ :: _⟩ => some (s.goto (.enable .sleep))
  | _ => none

def wake (s : Process σ) : Option (Process σ) :=
  match s.current with
  | ⟨.body, .sleep :: _⟩ => some (s.goto (.block .sleep))
  | _ => none

def advance (s : Process σ) : Option (Process σ) :=
  match s.current.pc with
  | .body => none
  | .block call =>
      some { s.goto (.check call s.signals.mask) with
        signals := { s.signals with mask := fun _ => true } }
  | .check call temp =>
      some (s.goto (if s.signals.interuptsEnabled then .save call temp else .leave call))
  | .save call temp =>
      some { s.goto (.clear call) with signals := { s.signals with globalSigmask := temp } }
  | .clear call =>
      some { s.goto (.leave call) with signals := { s.signals with interuptsEnabled := false } }
  | .leave (.atomicStart prevState before) =>
      some (s.ret (.atomic prevState before :: s.current.scopes))
  | .leave .sleep => some (s.ret s.current.scopes.tail)
  | .enable call =>
      some { s.goto (.restore call) with signals := { s.signals with interuptsEnabled := true } }
  | .restore call =>
      some { s.ret (match call with
          | .atomicEnd => s.current.scopes.tail
          | .sleep => .sleep :: s.current.scopes) with
        signals := { s.signals with mask := s.signals.globalSigmask } }

def handlerReturn (s : Process σ) : Option (Process σ) :=
  match s.current, s.interrupted with
  | ⟨.body, []⟩, frame :: frames => (SignalMask.handlerReturn s.signals).map fun signals =>
      ⟨signals, frame, frames⟩
  | _, _ => none

inductive Event (σ : Type*)
  | arrive (sig : σ)
  | deliver (sig : σ)
  | handlerReturn
  | atomicStart
  | atomicEnd
  | sleep
  | wake
  | advance

def step [DecidableEq σ] (s : Process σ) : Event σ → Option (Process σ)
  | .arrive sig => some { s with signals := arrive sig s.signals }
  | .deliver sig => (deliver sig s.signals).map fun signals =>
      ⟨signals, ⟨.body, []⟩, s.current :: s.interrupted⟩
  | .handlerReturn => handlerReturn s
  | .atomicStart => atomicStart s
  | .atomicEnd => atomicEnd s
  | .sleep => sleep s
  | .wake => wake s
  | .advance => advance s

/-- The main program outside any section, with whatever mask it inherited. -/
def Booted (s : Process σ) : Prop :=
  s.current = ⟨.body, []⟩ ∧ s.interrupted = [] ∧ s.signals.saved = [] ∧
    s.signals.interuptsEnabled = true

def machine [DecidableEq σ] : Machine (Process σ) (Event σ) := ⟨Booted, step⟩

def InSection : List (Scope σ) → Prop
  | .atomic _ _ :: _ => True
  | _ => False

/-- The step from `s` to `t` ends the innermost section of the running frame, which was started
with mask `before`. -/
structure Ends (s t : Process σ) (before : σ → Bool) (rest : List (Scope σ)) : Prop where
  frame : t.interrupted = s.interrupted
  closed : ∃ reenable, s.current.scopes = .atomic reenable before :: rest
  left : t.current.scopes = rest

/-- What the code inside and behind atomic sections relies on. -/
structure AtomicKept [DecidableEq σ] (s : Process σ) : Prop where
  blocked : ∀ frame ∈ s.current :: s.interrupted, InSection frame.scopes →
    ∀ sig, s.signals.mask sig = true
  inner : ∀ e t before rest, step s e = some t → Ends s t before rest → InSection rest →
    t.signals.mask = s.signals.mask
  outermost : ∀ e t before rest, step s e = some t → Ends s t before rest → ¬InSection rest →
    t.signals.mask = before ∧ t.signals.interuptsEnabled = true

/-- The open scopes of a frame that started with mask `own`: sections alternate with sleeps, and
only a section that is not inside another one unblocks signals again. -/
inductive Nested (own : σ → Bool) : List (Scope σ) → Prop
  | nil : Nested own []
  | outer {rest : List (Scope σ)} (outside : ¬InSection rest) (below : Nested own rest) :
      Nested own (.atomic true own :: rest)
  | inner {before : σ → Bool} {rest : List (Scope σ)} (inside : InSection rest)
      (below : Nested own rest) : Nested own (.atomic false before :: rest)
  | sleep {rest : List (Scope σ)} (inside : InSection rest) (below : Nested own rest) :
      Nested own (.sleep :: rest)

/-- A call of `__nesc_disable_interrupt` with signals unblocked. -/
inductive Opens (own : σ → Bool) : List (Scope σ) → Disabler σ → Prop
  | atomicStart {scopes : List (Scope σ)} (outside : ¬InSection scopes) :
      Opens own scopes (.atomicStart true own)
  | sleep {scopes : List (Scope σ)} : Opens own (.sleep :: scopes) .sleep

/-- A statement inside a section other than the last one before signals are unblocked. -/
inductive InnerPc (own : σ → Bool) : List (Scope σ) → Pc σ → Prop
  | body {scopes : List (Scope σ)} : InnerPc own scopes .body
  | block {scopes : List (Scope σ)} {before : σ → Bool} :
      InnerPc own scopes (.block (.atomicStart false before))
  | check {scopes : List (Scope σ)} {before temp : σ → Bool} :
      InnerPc own scopes (.check (.atomicStart false before) temp)
  | leave {scopes : List (Scope σ)} {before : σ → Bool} :
      InnerPc own scopes (.leave (.atomicStart false before))
  | atomicEnd {scopes : List (Scope σ)} :
      InnerPc own (.atomic true own :: scopes) (.enable .atomicEnd)
  | sleep {scopes : List (Scope σ)} : InnerPc own scopes (.enable .sleep)

/-- The call that unblocks signals, from a section. -/
inductive Closes (own : σ → Bool) : List (Scope σ) → Enabler → Prop
  | atomicEnd {scopes : List (Scope σ)} : Closes own (.atomic true own :: scopes) .atomicEnd
  | sleep {scopes : List (Scope σ)} : Closes own scopes .sleep

/-- A frame at a point where it can be interrupted. -/
structure Waiting (own : σ → Bool) (frame : Frame σ) : Prop where
  nested : Nested own frame.scopes
  outside : ¬InSection frame.scopes
  pc : frame.pc = .body ∨ ∃ call, frame.pc = .block call ∧ Opens own frame.scopes call

/-- All signals are blocked, and `enabled` is what the flag says. -/
structure Blocked (s : Signals σ) (enabled : Bool) : Prop where
  mask : s.mask = fun _ => true
  enabled : s.interuptsEnabled = enabled

/-- The running frame, which started with mask `own`. While it has blocked signals, its own mask
is in its hands or in `global_sigmask`. -/
inductive Running (s : Signals σ) (own : σ → Bool) : Frame σ → Prop
  | outside {frame : Frame σ} (waiting : Waiting own frame) (mask : s.mask = own)
      (enabled : s.interuptsEnabled = true) : Running s own frame
  | check {call : Disabler σ} {scopes : List (Scope σ)} (nested : Nested own scopes)
      (opens : Opens own scopes call) (blocked : Blocked s true) :
      Running s own ⟨.check call own, scopes⟩
  | save {call : Disabler σ} {scopes : List (Scope σ)} (nested : Nested own scopes)
      (opens : Opens own scopes call) (blocked : Blocked s true) :
      Running s own ⟨.save call own, scopes⟩
  | clear {call : Disabler σ} {scopes : List (Scope σ)} (nested : Nested own scopes)
      (opens : Opens own scopes call) (blocked : Blocked s true)
      (saved : s.globalSigmask = own) : Running s own ⟨.clear call, scopes⟩
  | leave {call : Disabler σ} {scopes : List (Scope σ)} (nested : Nested own scopes)
      (opens : Opens own scopes call) (blocked : Blocked s false)
      (saved : s.globalSigmask = own) : Running s own ⟨.leave call, scopes⟩
  | inside {pc : Pc σ} {scopes : List (Scope σ)} (nested : Nested own scopes)
      (inside : InSection scopes) (point : InnerPc own scopes pc) (blocked : Blocked s false)
      (saved : s.globalSigmask = own) : Running s own ⟨pc, scopes⟩
  | restore {call : Enabler} {scopes : List (Scope σ)} (nested : Nested own scopes)
      (inside : InSection scopes) (closes : Closes own scopes call) (blocked : Blocked s true)
      (saved : s.globalSigmask = own) : Running s own ⟨.restore call, scopes⟩

/-- The running frame is where its mask says, and each frame below was interrupted at a point
with its own mask. -/
structure Consistent (s : Process σ) : Prop where
  running : ∃ own, Running s.signals own s.current
  waiting : List.Forall₂ Waiting s.signals.saved s.interrupted

theorem Opens.not_inSection {own : σ → Bool} {scopes : List (Scope σ)} {call : Disabler σ}
    (h : Opens own scopes call) : ¬InSection scopes := by
  cases h with
  | atomicStart outside => exact outside
  | sleep => exact id

theorem consistent_booted {s : Process σ} (h : Booted s) : Consistent s := by
  obtain ⟨hc, hi, hsaved, he⟩ := h
  constructor
  · refine ⟨s.signals.mask, .outside ?_ rfl he⟩
    rw [hc]
    exact ⟨.nil, id, .inl rfl⟩
  · rw [hi, hsaved]
    exact .nil

theorem running_unblocked {s : Signals σ} {own : σ → Bool} {frame : Frame σ} {sig : σ}
    (h : Running s own frame) (hm : s.mask sig = false) :
    Waiting own frame ∧ s.mask = own ∧ s.interuptsEnabled = true := by
  have hnot {enabled : Bool} (hb : Blocked s enabled) : False := by
    rw [hb.mask] at hm
    cases hm
  cases h with
  | outside waiting mask enabled => exact ⟨waiting, mask, enabled⟩
  | check _ _ blocked => exact (hnot blocked).elim
  | save _ _ blocked => exact (hnot blocked).elim
  | clear _ _ blocked => exact (hnot blocked).elim
  | leave _ _ blocked => exact (hnot blocked).elim
  | inside _ _ _ blocked => exact (hnot blocked).elim
  | restore _ _ _ blocked => exact (hnot blocked).elim

theorem running_body {s : Signals σ} {own : σ → Bool} {scopes : List (Scope σ)}
    (h : Running s own ⟨.body, scopes⟩) : Nested own scopes ∧
      ((¬InSection scopes ∧ s.mask = own ∧ s.interuptsEnabled = true) ∨
        (InSection scopes ∧ Blocked s false ∧ s.globalSigmask = own)) := by
  cases h with
  | outside waiting mask enabled =>
    exact ⟨waiting.nested, .inl ⟨waiting.outside, mask, enabled⟩⟩
  | inside nested inside _ blocked saved =>
    exact ⟨nested, .inr ⟨inside, blocked, saved⟩⟩

theorem consistent_deliver [DecidableEq σ] {s : Process σ} {signals : Signals σ} {sig : σ}
    (h : Consistent s) (hd : deliver sig s.signals = some signals) :
    Consistent ⟨signals, ⟨.body, []⟩, s.current :: s.interrupted⟩ := by
  obtain ⟨⟨own, hrun⟩, hwait⟩ := h
  obtain ⟨hm, hsaved⟩ := deliver_eq_some hd
  obtain ⟨hw, hmask, henabled⟩ := running_unblocked hrun hm
  constructor
  · refine ⟨signals.mask, .outside ⟨.nil, id, .inl rfl⟩ rfl ?_⟩
    rw [interuptsEnabled_deliver hd, henabled]
  · rw [hsaved, hmask]
    exact .cons hw hwait

theorem handlerReturn_cases {s t : Process σ} (hst : handlerReturn s = some t) :
    s.current = ⟨.body, []⟩ ∧ s.interrupted = t.current :: t.interrupted ∧
      SignalMask.handlerReturn s.signals = some t.signals := by
  unfold handlerReturn at hst
  split at hst
  · rename_i frame frames hc hi
    obtain ⟨u, hu, rfl⟩ := Option.map_eq_some_iff.mp hst
    exact ⟨hc, hi, hu⟩
  · cases hst

theorem consistent_handlerReturn {s t : Process σ} (h : Consistent s)
    (hst : handlerReturn s = some t) : Consistent t := by
  obtain ⟨⟨own, hrun⟩, hwait⟩ := h
  obtain ⟨hc, hi, hr⟩ := handlerReturn_cases hst
  rw [hc] at hrun
  rw [hi, handlerReturn_eq_some hr] at hwait
  rcases (running_body hrun).2 with ⟨-, -, henabled⟩ | ⟨hin, -⟩
  · cases hwait with
    | cons hw hrest =>
      refine ⟨⟨_, .outside hw rfl ?_⟩, hrest⟩
      rw [interuptsEnabled_handlerReturn hr, henabled]
  · exact hin.elim

theorem running_atomicStart {s t : Process σ} {own : σ → Bool}
    (h : Running s.signals own s.current) (hst : atomicStart s = some t) :
    Running t.signals own t.current := by
  obtain ⟨signals, ⟨pc, scopes⟩, interrupted⟩ := s
  cases pc with
  | body =>
    cases hst
    obtain ⟨hn, ⟨hout, hmask, henabled⟩ | ⟨hin, hb, hsaved⟩⟩ := running_body h
    · have hopens : Opens own scopes
          (.atomicStart signals.interuptsEnabled signals.mask) := by
        rw [show signals.interuptsEnabled = true from henabled,
          show signals.mask = own from hmask]
        exact .atomicStart hout
      exact .outside ⟨hn, hout, .inr ⟨_, rfl, hopens⟩⟩ hmask henabled
    · have hpoint : InnerPc own scopes
          (.block (.atomicStart signals.interuptsEnabled signals.mask)) := by
        rw [show signals.interuptsEnabled = false from hb.enabled]
        exact .block
      exact .inside hn hin hpoint hb hsaved
  | _ => cases hst

theorem running_atomicEnd {s t : Process σ} {own : σ → Bool}
    (h : Running s.signals own s.current) (hst : atomicEnd s = some t) :
    Running t.signals own t.current := by
  obtain ⟨signals, current, interrupted⟩ := s
  simp only [atomicEnd] at hst
  split at hst
  · rename_i reenable before rest
    obtain ⟨hn, ⟨hout, -⟩ | ⟨hin, hb, hsaved⟩⟩ := running_body h
    · exact absurd trivial hout
    · cases hn with
      | outer outside below =>
        cases hst
        exact .inside (.outer outside below) hin .atomicEnd hb hsaved
      | inner inside below =>
        cases hst
        exact .inside below inside .body hb hsaved
  · cases hst

theorem running_sleep {s t : Process σ} {own : σ → Bool} (h : Running s.signals own s.current)
    (hst : sleep s = some t) : Running t.signals own t.current := by
  obtain ⟨signals, current, interrupted⟩ := s
  simp only [sleep] at hst
  split at hst
  · cases hst
    obtain ⟨hn, ⟨hout, -⟩ | ⟨hin, hb, hsaved⟩⟩ := running_body h
    · exact absurd trivial hout
    · exact .inside hn hin .sleep hb hsaved
  · cases hst

theorem running_wake {s t : Process σ} {own : σ → Bool} (h : Running s.signals own s.current)
    (hst : wake s = some t) : Running t.signals own t.current := by
  obtain ⟨signals, current, interrupted⟩ := s
  simp only [wake] at hst
  split at hst
  · cases hst
    obtain ⟨hn, ⟨hout, hmask, henabled⟩ | ⟨hin, -⟩⟩ := running_body h
    · exact .outside ⟨hn, hout, .inr ⟨_, rfl, .sleep⟩⟩ hmask henabled
    · exact hin.elim
  · cases hst

theorem running_advance_inside {s t : Process σ} {own : σ → Bool}
    (nested : Nested own s.current.scopes) (inside : InSection s.current.scopes)
    (point : InnerPc own s.current.scopes s.current.pc) (blocked : Blocked s.signals false)
    (saved : s.signals.globalSigmask = own) (hst : advance s = some t) :
    Running t.signals own t.current := by
  obtain ⟨signals, ⟨pc, scopes⟩, interrupted⟩ := s
  cases point with
  | body => cases hst
  | block =>
    cases hst
    exact .inside nested inside .check ⟨rfl, blocked.enabled⟩ saved
  | check =>
    have henabled : signals.interuptsEnabled = false := blocked.enabled
    simp only [advance, henabled] at hst
    cases hst
    exact .inside nested inside .leave blocked saved
  | leave =>
    cases hst
    exact .inside (.inner inside nested) trivial .body blocked saved
  | atomicEnd =>
    cases hst
    exact .restore nested inside .atomicEnd ⟨blocked.mask, rfl⟩ saved
  | sleep =>
    cases hst
    exact .restore nested inside .sleep ⟨blocked.mask, rfl⟩ saved

theorem running_advance {s t : Process σ} {own : σ → Bool}
    (h : Running s.signals own s.current) (hst : advance s = some t) :
    Running t.signals own t.current := by
  obtain ⟨signals, ⟨pc, scopes⟩, interrupted⟩ := s
  cases h with
  | outside waiting mask enabled =>
    rcases waiting.pc with rfl | ⟨call, rfl, opens⟩
    · cases hst
    · cases hst
      obtain rfl := mask
      exact .check waiting.nested opens ⟨rfl, enabled⟩
  | check nested opens blocked =>
    have henabled : signals.interuptsEnabled = true := blocked.enabled
    simp only [advance, henabled] at hst
    cases hst
    exact .save nested opens blocked
  | save nested opens blocked =>
    cases hst
    exact .clear nested opens ⟨blocked.mask, blocked.enabled⟩ rfl
  | clear nested opens blocked saved =>
    cases hst
    exact .leave nested opens ⟨blocked.mask, rfl⟩ saved
  | leave nested opens blocked saved =>
    cases opens with
    | atomicStart outside =>
      cases hst
      exact .inside (.outer outside nested) trivial .body blocked saved
    | sleep =>
      cases hst
      cases nested with
      | sleep inside below => exact .inside below inside .body blocked saved
  | inside nested inside point blocked saved =>
    exact running_advance_inside nested inside point blocked saved hst
  | restore nested inside closes blocked saved =>
    cases closes with
    | atomicEnd =>
      cases hst
      cases nested with
      | outer outside below => exact .outside ⟨below, outside, .inl rfl⟩ saved blocked.enabled
    | sleep =>
      cases hst
      exact .outside ⟨.sleep inside nested, id, .inl rfl⟩ saved blocked.enabled

/-- Statements and calls of the running frame leave the frames below, the masks they go back to and
the pending signals alone. -/
theorem call_frame {s t : Process σ} (hst : atomicStart s = some t ∨ atomicEnd s = some t ∨
      sleep s = some t ∨ wake s = some t ∨ advance s = some t) :
    t.interrupted = s.interrupted ∧ t.signals.saved = s.signals.saved ∧
      t.signals.pending = s.signals.pending := by
  rcases hst with hst | hst | hst | hst | hst
  · unfold atomicStart at hst
    split at hst <;> cases hst
    exact ⟨rfl, rfl, rfl⟩
  · unfold atomicEnd at hst
    split at hst
    · cases hst
      split <;> exact ⟨rfl, rfl, rfl⟩
    · cases hst
  · unfold sleep at hst
    split at hst <;> cases hst
    exact ⟨rfl, rfl, rfl⟩
  · unfold wake at hst
    split at hst <;> cases hst
    exact ⟨rfl, rfl, rfl⟩
  · unfold advance at hst
    split at hst
    all_goals cases hst
    all_goals exact ⟨rfl, rfl, rfl⟩

theorem Running.congr {s t : Signals σ} {own : σ → Bool} {frame : Frame σ}
    (h : Running s own frame) (mask : t.mask = s.mask) (saved : t.globalSigmask = s.globalSigmask)
    (enabled : t.interuptsEnabled = s.interuptsEnabled) : Running t own frame := by
  have hblocked {flag : Bool} (hb : Blocked s flag) : Blocked t flag :=
    ⟨mask.trans hb.mask, enabled.trans hb.enabled⟩
  cases h with
  | outside waiting hm he => exact .outside waiting (mask.trans hm) (enabled.trans he)
  | check nested opens blocked => exact .check nested opens (hblocked blocked)
  | save nested opens blocked => exact .save nested opens (hblocked blocked)
  | clear nested opens blocked hs =>
    exact .clear nested opens (hblocked blocked) (saved.trans hs)
  | leave nested opens blocked hs =>
    exact .leave nested opens (hblocked blocked) (saved.trans hs)
  | inside nested inside point blocked hs =>
    exact .inside nested inside point (hblocked blocked) (saved.trans hs)
  | restore nested inside closes blocked hs =>
    exact .restore nested inside closes (hblocked blocked) (saved.trans hs)

/-- Events of the running frame itself, and signals that arrive. -/
def Event.inFrame : Event σ → Bool
  | .deliver _ => false
  | .handlerReturn => false
  | _ => true

theorem running_step [DecidableEq σ] {s t : Process σ} {own : σ → Bool} {e : Event σ}
    (he : e.inFrame = true) (h : Running s.signals own s.current) (hst : step s e = some t) :
    Running t.signals own t.current ∧ t.interrupted = s.interrupted ∧
      t.signals.saved = s.signals.saved := by
  cases e with
  | arrive sig =>
    cases hst
    exact ⟨h.congr rfl rfl rfl, rfl, rfl⟩
  | deliver sig => cases he
  | handlerReturn => cases he
  | atomicStart =>
    have hframe := call_frame (.inl hst)
    exact ⟨running_atomicStart h hst, hframe.1, hframe.2.1⟩
  | atomicEnd =>
    have hframe := call_frame (.inr (.inl hst))
    exact ⟨running_atomicEnd h hst, hframe.1, hframe.2.1⟩
  | sleep =>
    have hframe := call_frame (.inr (.inr (.inl hst)))
    exact ⟨running_sleep h hst, hframe.1, hframe.2.1⟩
  | wake =>
    have hframe := call_frame (.inr (.inr (.inr (.inl hst))))
    exact ⟨running_wake h hst, hframe.1, hframe.2.1⟩
  | advance =>
    have hframe := call_frame (.inr (.inr (.inr (.inr hst))))
    exact ⟨running_advance h hst, hframe.1, hframe.2.1⟩

theorem consistent_inFrame [DecidableEq σ] {s t : Process σ} {e : Event σ} (h : Consistent s)
    (he : e.inFrame = true) (hst : step s e = some t) : Consistent t := by
  obtain ⟨⟨own, hrun⟩, hwait⟩ := h
  obtain ⟨hrun', hi, hsaved⟩ := running_step he hrun hst
  refine ⟨⟨own, hrun'⟩, ?_⟩
  rw [hi, hsaved]
  exact hwait

theorem consistent_step [DecidableEq σ] {s t : Process σ} {e : Event σ} (h : Consistent s)
    (hst : step s e = some t) : Consistent t := by
  cases e with
  | deliver sig =>
    obtain ⟨signals, hd, rfl⟩ := Option.map_eq_some_iff.mp hst
    exact consistent_deliver h hd
  | handlerReturn => exact consistent_handlerReturn h hst
  | arrive | atomicStart | atomicEnd | sleep | wake | advance => exact consistent_inFrame h rfl hst

theorem running_inSection {s : Signals σ} {own : σ → Bool} {frame : Frame σ}
    (h : Running s own frame) (hin : InSection frame.scopes) : s.mask = fun _ => true := by
  cases h with
  | outside waiting => exact absurd hin waiting.outside
  | check _ opens => exact absurd hin opens.not_inSection
  | save _ opens => exact absurd hin opens.not_inSection
  | clear _ opens => exact absurd hin opens.not_inSection
  | leave _ opens => exact absurd hin opens.not_inSection
  | inside _ _ _ blocked => exact blocked.mask
  | restore _ _ _ blocked => exact blocked.mask

theorem waiting_outside {masks : List (σ → Bool)} {frames : List (Frame σ)}
    (h : List.Forall₂ Waiting masks frames) {frame : Frame σ} (hm : frame ∈ frames) :
    ¬InSection frame.scopes := by
  induction h with
  | nil => cases hm
  | cons hw _ ih =>
    rcases List.mem_cons.mp hm with rfl | hm
    · exact hw.outside
    · exact ih hm

theorem Ends.scopes_ne {s t : Process σ} {before : σ → Bool} {rest : List (Scope σ)}
    (h : Ends s t before rest) : t.current.scopes.length < s.current.scopes.length := by
  obtain ⟨reenable, hs⟩ := h.closed
  rw [h.left, hs]
  simp

theorem scopes_of_call {s t : Process σ}
    (hst : atomicStart s = some t ∨ sleep s = some t ∨ wake s = some t) :
    t.current.scopes = s.current.scopes := by
  rcases hst with hst | hst | hst
  · unfold atomicStart at hst
    split at hst <;> cases hst
    rfl
  · unfold sleep at hst
    split at hst <;> cases hst
    rfl
  · unfold wake at hst
    split at hst <;> cases hst
    rfl

/-- Only the statement that restores the mask ends a section, and then the outermost one. -/
theorem advance_ends {s t : Process σ} {own before : σ → Bool} {rest : List (Scope σ)}
    (h : Running s.signals own s.current) (hst : advance s = some t)
    (hends : Ends s t before rest) :
    ¬InSection rest ∧ t.signals.mask = before ∧ t.signals.interuptsEnabled = true := by
  obtain ⟨signals, ⟨pc, scopes⟩, interrupted⟩ := s
  have hlt := hends.scopes_ne
  obtain ⟨reenable, hs⟩ := hends.closed
  have hin : InSection scopes := by
    rw [show scopes = _ from hs]
    trivial
  cases h with
  | outside waiting => exact absurd hin waiting.outside
  | check _ opens => exact absurd hin opens.not_inSection
  | save _ opens => exact absurd hin opens.not_inSection
  | clear _ opens => exact absurd hin opens.not_inSection
  | leave _ opens => exact absurd hin opens.not_inSection
  | inside _ _ point =>
    -- none of these statements closes a scope
    cases point with
    | body => cases hst
    | leave =>
      cases hst
      exact absurd hlt (by simp [Process.ret])
    | block | check | atomicEnd | sleep =>
      cases hst
      exact absurd hlt (lt_irrefl _)
  | restore nested _ closes blocked saved =>
    cases closes with
    | atomicEnd =>
      cases hst
      cases hs
      cases nested with
      | outer outside => exact ⟨outside, saved, blocked.enabled⟩
    | sleep =>
      cases hst
      exact absurd hlt (by simp [Process.ret])

theorem atomicEnd_ends {s t : Process σ} {own before : σ → Bool} {rest : List (Scope σ)}
    (h : Running s.signals own s.current) (hst : atomicEnd s = some t)
    (hends : Ends s t before rest) : InSection rest ∧ t.signals.mask = s.signals.mask := by
  obtain ⟨signals, current, interrupted⟩ := s
  have hlt := hends.scopes_ne
  simp only [atomicEnd] at hst
  split at hst
  · rename_i reenable before' rest'
    obtain ⟨reenable', hs⟩ := hends.closed
    cases hs
    cases (running_body h).1 with
    | outer =>
      cases hst
      exact absurd hlt (lt_irrefl _)
    | inner inside =>
      cases hst
      exact ⟨inside, rfl⟩
  · cases hst

theorem ends_cases [DecidableEq σ] {s t : Process σ} {e : Event σ} {before : σ → Bool}
    {rest : List (Scope σ)} (h : Consistent s) (hst : step s e = some t)
    (hends : Ends s t before rest) :
    (InSection rest ∧ t.signals.mask = s.signals.mask) ∨
      (¬InSection rest ∧ t.signals.mask = before ∧ t.signals.interuptsEnabled = true) := by
  have hlt := hends.scopes_ne
  obtain ⟨⟨own, hrun⟩, -⟩ := h
  cases e with
  | arrive sig =>
    cases hst
    exact absurd hlt (lt_irrefl _)
  | deliver sig =>
    obtain ⟨signals, -, rfl⟩ := Option.map_eq_some_iff.mp hst
    exact absurd hends.frame (List.cons_ne_self _ _)
  | handlerReturn =>
    rw [(handlerReturn_cases hst).1] at hlt
    exact absurd hlt (Nat.not_lt_zero _)
  | atomicStart =>
    rw [scopes_of_call (.inl hst)] at hlt
    exact absurd hlt (lt_irrefl _)
  | atomicEnd => exact .inl (atomicEnd_ends hrun hst hends)
  | sleep =>
    rw [scopes_of_call (.inr (.inl hst))] at hlt
    exact absurd hlt (lt_irrefl _)
  | wake =>
    rw [scopes_of_call (.inr (.inr hst))] at hlt
    exact absurd hlt (lt_irrefl _)
  | advance => exact .inr (advance_ends hrun hst hends)

/-- Once the signals are blocked the statements of `__nesc_disable_interrupt` run through, and
together they are its one-step form. -/
theorem nescDisableInterrupt_statements [DecidableEq σ] (s : Process σ) (call : Disabler σ)
    (hpc : s.current.pc = .block call) :
    ∃ n, machine.run s (List.replicate n .advance) =
      some { s.goto (.leave call) with signals := nescDisableInterrupt s.signals } := by
  obtain ⟨signals, ⟨pc, scopes⟩, interrupted⟩ := s
  obtain rfl := hpc
  by_cases he : signals.interuptsEnabled = true
  · refine ⟨4, ?_⟩
    simp [List.replicate, Machine.run, machine, step, advance, Process.goto, he,
      nescDisableInterrupt]
  · refine ⟨2, ?_⟩
    simp [List.replicate, Machine.run, machine, step, advance, Process.goto, he,
      nescDisableInterrupt]

theorem nescEnableInterrupt_statements [DecidableEq σ] (s : Process σ) (call : Enabler)
    (hpc : s.current.pc = .enable call) :
    (machine.run s [.advance, .advance]).map Process.signals =
      some (nescEnableInterrupt s.signals) := by
  obtain ⟨signals, ⟨pc, scopes⟩, interrupted⟩ := s
  obtain rfl := hpc
  simp [Machine.run, machine, step, advance, Process.goto, Process.ret, nescEnableInterrupt]

def bootProcess : Process (Fin 2) := ⟨⟨fun _ => false, [], [], true, fun _ => false⟩, ⟨.body, []⟩, []⟩

end RpiCc2520.SignalAtomic
