import RpiCc2520.RadioLink

/-! The retry policy of the link layer: how often an accepted send is tried, what is answered
and what the message is left with. -/
namespace RpiCc2520.RadioLink
open RadioMessage

/-- One accepted send from its acceptance to its answer: the layer, the ack flags the task read
for the finished attempts, oldest first, and the calls made before. -/
structure Watch where
  link : Link
  flags : List Bool
  before : List Call

def observed (s : Link) : Event → List Bool
  | .task _ => if s.state = stateSendDone then [(s.mem s.currentMsg).wasAcked] else []
  | _ => []

def watch (w : Watch) (e : Event) : Option Watch :=
  if w.link.state = stateReady then none
  else (step w.link e).map fun s => ⟨s, w.flags ++ observed w.link e, w.before⟩

/-- `Send.send` has just accepted `m`, in whatever state the layer was. -/
def Accepted (m : Ptr) (retries delay : UInt16) (w : Watch) : Prop :=
  ∃ s, machine.Reachable Machine.Any s ∧ (send m s).1 = success ∧
    (s.mem m).getRetries = retries ∧ (s.mem m).getRetryDelay = delay ∧
    w = ⟨(send m s).2, [], (send m s).2.log⟩

def watching (m : Ptr) (retries delay : UInt16) : Machine Watch Event :=
  ⟨Accepted m retries delay, watch⟩

/-- Nobody cancels the message or changes its two fields, and transmissions end well. Anything
else may happen in between, also what earlier sends left behind. -/
def Undisturbed (m : Ptr) (retries delay : UInt16) : Event → Prop
  | .cancel p => p ≠ m
  | .subSendDone _ error => error = success
  | .write p msg => p = m → msg.getRetries = retries ∧ msg.getRetryDelay = delay
  | _ => True

/-- The events nobody has to call for. -/
def owed : Event → Bool
  | .task _ => true
  | .fired => true
  | .subSendDone _ _ => true
  | _ => false

/-- The finished attempts were acked as `a` says, counted from one. -/
def Observes (a : ℕ → Bool) (w : Watch) : Prop :=
  w.flags = (List.range' 1 w.flags.length).map a

/-- The first attempt that is acked, if the retry count allows for it, else the last one. -/
def attempts (retries : UInt16) (a : ℕ → Bool) : ℕ :=
  if retries = 0 then 1 else ((List.range' 1 retries.toNat).find? a).getD retries.toNat

def delivered (retries : UInt16) (a : ℕ → Bool) : Bool :=
  retries = 0 || a (attempts retries a)

def leftRetries (retries : UInt16) (a : ℕ → Bool) : ℕ :=
  if retries = 0 then 0
  else if delivered retries a then attempts retries a - 1 else retries.toNat

/-- What stands between two attempts. -/
def between (delay : UInt16) : List UInt8 → List Call
  | [] => []
  | _ :: _ => if 0 < delay then [.startOneShot delay] else []

/-- The calls of the attempts with these results, both newest first. -/
def rounds (m : Ptr) (delay : UInt16) : List UInt8 → List Call
  | [] => []
  | r :: rs => .subSend m r :: (between delay rs ++ rounds m delay rs)

/-- Calls of the layer, as opposed to events it is sent. -/
def made : Call → Bool
  | .subSendDone _ _ => false
  | _ => true

/-- The calls the layer made since `before`, newest first. -/
def MadeSince (before log calls : List Call) : Prop :=
  ∃ news, log = news ++ before ∧ news.filter made = calls

structure Answered (m : Ptr) (retries delay : UInt16) (a : ℕ → Bool) (w : Watch) : Prop where
  calls : ∃ results, results.length = attempts retries a ∧
    MadeSince w.before w.link.log
      (.sendDone m (if delivered retries a then success else fail) :: rounds m delay results)
  flags : w.flags.length = attempts retries a
  left : (w.link.mem m).getRetries.toNat = leftRetries retries a

/-- The send is answered as the policy says; until then something is due, and only so much is
ever due before the answer. -/
structure Retried (m : Ptr) (retries delay : UInt16) (a : ℕ → Bool) (w : Watch) : Prop where
  answered : w.link.state = stateReady → Answered m retries delay a w
  due : w.link.state ≠ stateReady →
    ∃ e t, owed e = true ∧ Undisturbed m retries delay e ∧ watch w e = some t
  ends : ∃ n, ∀ es t, (∀ e ∈ es, Undisturbed m retries delay e) →
    (watching m retries delay).run w es = some t → es.countP owed ≤ n

@[simp] theorem between_nil (delay : UInt16) : between delay [] = [] := rfl

@[simp] theorem rounds_nil (m : Ptr) (delay : UInt16) : rounds m delay [] = [] := rfl

theorem rounds_cons (m : Ptr) (delay : UInt16) (r : UInt8) (rs : List UInt8) :
    rounds m delay (r :: rs) = .subSend m r :: (between delay rs ++ rounds m delay rs) := rfl

theorem between_of_ne_nil {delay : UInt16} {rs : List UInt8} (h : rs ≠ []) :
    between delay rs = if 0 < delay then [.startOneShot delay] else [] := by
  cases rs with
  | nil => exact absurd rfl h
  | cons r rs => rfl

theorem madeSince_refl (log : List Call) : MadeSince log log [] := ⟨[], rfl, rfl⟩

theorem MadeSince.cons {before log calls : List Call} {c : Call}
    (h : MadeSince before log calls) (hc : made c = true) :
    MadeSince before (c :: log) (c :: calls) := by
  obtain ⟨news, rfl, rfl⟩ := h
  exact ⟨c :: news, rfl, List.filter_cons_of_pos hc⟩

theorem MadeSince.skip {before log calls : List Call} {c : Call}
    (h : MadeSince before log calls) (hc : made c = false) :
    MadeSince before (c :: log) calls := by
  obtain ⟨news, rfl, rfl⟩ := h
  exact ⟨c :: news, rfl, List.filter_cons_of_neg (by simp [hc])⟩

theorem attempts_of_acked {retries : UInt16} {a : ℕ → Bool} {n : ℕ} (hn : n < retries.toNat)
    (hmissed : ∀ i, 1 ≤ i → i ≤ n → a i = false) (hack : a (n + 1) = true) :
    attempts retries a = n + 1 := by
  have hz : retries ≠ 0 := by
    rintro rfl
    simp at hn
  have hfirst : (List.range' 1 retries.toNat).find? a = some (n + 1) := by
    refine List.find?_range'_eq_some.mpr ⟨hack, ?_, ?_⟩
    · rw [List.mem_range'_1]
      omega
    · intro i h1 hi
      rw [hmissed i h1 (by omega)]
      rfl
  rw [attempts, if_neg hz, hfirst]
  rfl

theorem attempts_of_missed {retries : UInt16} {a : ℕ → Bool} (hz : retries ≠ 0)
    (hmissed : ∀ i, 1 ≤ i → i ≤ retries.toNat → a i = false) :
    attempts retries a = retries.toNat := by
  have hnone : (List.range' 1 retries.toNat).find? a = none := by
    rw [List.find?_range'_eq_none]
    intro i h1 hi
    rw [hmissed i h1 (by omega)]
    rfl
  rw [attempts, if_neg hz, hnone]
  rfl

/-- No attempt follows the one behind `n` missed ones: it needs no ack, or it was acked, or the
retry count is used up. -/
def Last (retries : UInt16) (n : ℕ) (acked : Bool) : Prop :=
  retries = 0 ∧ n = 0 ∨ n < retries.toNat ∧ (acked = true ∨ n + 1 = retries.toNat)

theorem attempts_of_last {retries : UInt16} {a : ℕ → Bool} {n : ℕ} {acked : Bool}
    (hlast : Last retries n acked)
    (hmissed : ∀ i, 1 ≤ i → i ≤ n → a i = false) (hack : a (n + 1) = acked) :
    attempts retries a = n + 1 := by
  rcases hlast with ⟨hz, rfl⟩ | ⟨hn, hend⟩
  · exact if_pos hz
  cases acked with
  | true => exact attempts_of_acked hn hmissed hack
  | false =>
    have hend : n + 1 = retries.toNat := hend.resolve_left Bool.false_ne_true
    have hz : retries ≠ 0 := by
      rintro rfl
      exact absurd hn (Nat.not_lt_zero n)
    rw [hend]
    refine attempts_of_missed hz fun i h1 hi => ?_
    by_cases hi' : i = n + 1
    · rw [hi', hack]
    · exact hmissed i h1 (by omega)

/-- Before the answer: the message is the one accepted, every finished attempt was missed, and
the retry count allows for one more. -/
structure Trying (m : Ptr) (retries delay : UInt16) (w : Watch) : Prop where
  current : w.link.currentMsg = m
  limit : (w.link.mem m).getRetries = retries
  pause : (w.link.mem m).getRetryDelay = delay
  missed : w.flags = List.replicate w.link.totalRetries.toNat false
  more : w.link.totalRetries.toNat < max 1 retries.toNat

/-- The two phases before the answer, each with what wakes the task and the calls made. -/
inductive Stage (m : Ptr) (delay : UInt16) (w : Watch) : Prop
  | sending (state : w.link.state = stateSending)
      (wake : w.link.sendPosted = true ∨ w.link.delayTimer.isSome = true)
      (results : List UInt8) (count : results.length = w.link.totalRetries.toNat)
      (calls : MadeSince w.before w.link.log (between delay results ++ rounds m delay results))
  | sendDone (state : w.link.state = stateSendDone)
      (wake : w.link.sendPosted = true ∨ m ∈ w.link.outstanding)
      (results : List UInt8) (count : results.length = w.link.totalRetries.toNat + 1)
      (calls : MadeSince w.before w.link.log (rounds m delay results))

/-- The answer after `n` missed attempts and one more. -/
structure Finished (m : Ptr) (retries delay : UInt16) (n : ℕ) (acked : Bool) (w : Watch) :
    Prop where
  state : w.link.state = stateReady
  flags : w.flags = List.replicate n false ++ [acked]
  last : Last retries n acked
  calls : ∃ results, results.length = n + 1 ∧ MadeSince w.before w.link.log
    (.sendDone m (if retries = 0 ∨ acked = true then success else fail) ::
      rounds m delay results)
  left : (w.link.mem m).getRetries.toNat =
    if retries = 0 then 0 else if acked = true then n else retries.toNat

inductive Progress (m : Ptr) (retries delay : UInt16) (w : Watch) : Prop
  | trying (base : Trying m retries delay w) (stage : Stage m delay w)
  | finished (n : ℕ) (acked : Bool) (done : Finished m retries delay n acked w)

/-- What the scheduler, the timer and the lower layer still hold, weighted so that each event
leaves less than it took. -/
def load (s : Link) : ℕ :=
  2 * s.outstanding.length + (if s.delayTimer.isSome then 2 else 0) +
    if s.sendPosted then 1 else 0

/-- Four for each attempt left, two of them gone once the attempt is under way. -/
def phase (retries : UInt16) (s : Link) : ℕ :=
  if s.state = stateReady then 0
  else if s.state = stateSendDone then 4 * (max 1 retries.toNat - s.totalRetries.toNat) - 2
  else 4 * (max 1 retries.toNat - s.totalRetries.toNat)

def rank (retries : UInt16) (w : Watch) : ℕ := phase retries w.link + load w.link

theorem Stage.ne_ready {m : Ptr} {delay : UInt16} {w : Watch} (h : Stage m delay w) :
    w.link.state ≠ stateReady := by
  cases h with
  | sending state => exact state.trans_ne sending_ne_ready
  | sendDone state => exact state.trans_ne sendDone_ne_ready

theorem transmit_eq (sub : UInt8) (s : Link) : transmit sub s = { s with
    state := stateSendDone
    sendPosted := s.sendPosted || decide (sub ≠ success)
    outstanding := if sub = success then s.currentMsg :: s.outstanding else s.outstanding
    log := .subSend s.currentMsg sub :: s.log } := by
  by_cases hs : sub = success <;> simp [transmit, subSend, note, post, hs]

/-- What an event that is no run of the task leaves of the send in progress. -/
structure Kept (m : Ptr) (s t : Link) : Prop where
  state : t.state = s.state
  current : t.currentMsg = s.currentMsg
  total : t.totalRetries = s.totalRetries
  limit : (t.mem m).getRetries = (s.mem m).getRetries
  pause : (t.mem m).getRetryDelay = (s.mem m).getRetryDelay
  posted : s.sendPosted = true → t.sendPosted = true
  timer : s.delayTimer.isSome = true → t.sendPosted = true ∨ t.delayTimer.isSome = true
  flight : m ∈ s.outstanding → t.sendPosted = true ∨ m ∈ t.outstanding
  log : ∀ before calls, MadeSince before s.log calls → MadeSince before t.log calls

theorem kept_refl (m : Ptr) (s : Link) : Kept m s s :=
  ⟨rfl, rfl, rfl, rfl, rfl, id, .inr, .inr, fun _ _ => id⟩

theorem Trying.kept {m : Ptr} {retries delay : UInt16} {w : Watch}
    (h : Trying m retries delay w) {t : Link} (hk : Kept m w.link t) :
    Trying m retries delay { w with link := t } := by
  refine ⟨hk.current.trans h.current, hk.limit.trans h.limit, hk.pause.trans h.pause, ?_, ?_⟩
  · rw [hk.total]
    exact h.missed
  · rw [hk.total]
    exact h.more

theorem Stage.kept {m : Ptr} {delay : UInt16} {w : Watch} (h : Stage m delay w) {t : Link}
    (hk : Kept m w.link t) : Stage m delay { w with link := t } := by
  cases h with
  | sending state wake results count calls =>
    refine .sending (hk.state.trans state) ?_ results ?_ (hk.log _ _ calls)
    · rcases wake with posted | timer
      · exact .inl (hk.posted posted)
      · exact hk.timer timer
    · rw [hk.total]
      exact count
  | sendDone state wake results count calls =>
    refine .sendDone (hk.state.trans state) ?_ results ?_ (hk.log _ _ calls)
    · rcases wake with posted | flight
      · exact .inl (hk.posted posted)
      · exact hk.flight flight
    · rw [hk.total]
      exact count

theorem rank_kept {m : Ptr} (retries : UInt16) {w : Watch} {t : Link} (hk : Kept m w.link t) :
    rank retries { w with link := t } = phase retries w.link + load t := by
  unfold rank phase
  rw [hk.state, hk.total]

theorem kept_fired (m : Ptr) (s : Link) : Kept m s (post { s with delayTimer := none }) :=
  ⟨rfl, rfl, rfl, rfl, rfl, fun _ => rfl, fun _ => .inl rfl, fun _ => .inl rfl, fun _ _ => id⟩

theorem kept_subSendDone (m p : Ptr) (s : Link) : Kept m s (subSendDone success
    (note (.subSendDone p success) { s with outstanding := s.outstanding.erase p })) :=
  ⟨rfl, rfl, rfl, rfl, rfl, fun _ => rfl, fun _ => .inl rfl, fun _ => .inl rfl,
    fun _ _ h => h.skip rfl⟩

theorem kept_write {m p : Ptr} {s : Link} {msg : Message}
    (h : p = m → msg.getRetries = (s.mem m).getRetries ∧
      msg.getRetryDelay = (s.mem m).getRetryDelay) :
    Kept m s { s with mem := Function.update s.mem p msg } := by
  have hfields : (Function.update s.mem p msg m).getRetries = (s.mem m).getRetries ∧
      (Function.update s.mem p msg m).getRetryDelay = (s.mem m).getRetryDelay := by
    by_cases hp : p = m
    · subst hp
      rw [Function.update_self]
      exact h rfl
    · rw [Function.update_of_ne (Ne.symm hp)]
      exact ⟨rfl, rfl⟩
  exact ⟨rfl, rfl, rfl, hfields.1, hfields.2, id, .inr, .inr, fun _ _ => id⟩

theorem load_fired {s : Link} (h : s.delayTimer.isSome = true) :
    load (post { s with delayTimer := none }) + 1 ≤ load s := by
  simp only [load, post, h, Option.isSome_none]
  split_ifs <;> simp_all

theorem load_subSendDone {p : Ptr} {s : Link} (h : p ∈ s.outstanding) :
    load (subSendDone success
      (note (.subSendDone p success) { s with outstanding := s.outstanding.erase p })) + 1 ≤
      load s := by
  have hpos : 0 < s.outstanding.length := List.length_pos_of_mem h
  simp only [load, subSendDone, post, note, ne_eq, not_true_eq_false, if_false,
    List.length_erase_of_mem h]
  split_ifs <;> simp_all <;> omega

/-- An event that is no run of the task keeps the send in progress, and it uses up what it was
owed. -/
theorem kept_step {m : Ptr} {retries delay : UInt16} {w : Watch} {e : Event} {t : Link}
    (hb : Trying m retries delay w) (hs : Stage m delay w)
    (hu : Undisturbed m retries delay e) (hst : step w.link e = some t)
    (htask : ∀ sub, e ≠ .task sub) :
    Kept m w.link t ∧ load t + [e].countP owed ≤ load w.link := by
  cases e with
  | send p =>
    cases hst
    rw [send_of_busy p hs.ne_ready]
    exact ⟨kept_refl m _, le_rfl⟩
  | cancel p =>
    cases hst
    have hne : w.link.currentMsg ≠ p := by
      rw [hb.current]
      exact hu.symm
    rw [cancel, if_pos (.inl hne)]
    exact ⟨kept_refl m _, le_rfl⟩
  | subSendDone p error =>
    simp only [step, Option.ite_none_right_eq_some, Option.some.injEq] at hst
    obtain ⟨⟨hp, -⟩, rfl⟩ := hst
    obtain rfl : error = success := hu
    exact ⟨kept_subSendDone m p _, load_subSendDone hp⟩
  | fired =>
    simp only [step, Option.ite_none_right_eq_some, Option.some.injEq] at hst
    obtain ⟨armed, rfl⟩ := hst
    exact ⟨kept_fired m _, load_fired armed⟩
  | task sub => exact absurd rfl (htask sub)
  | write p msg =>
    cases hst
    refine ⟨kept_write ?_, le_rfl⟩
    intro hp
    rw [hb.limit, hb.pause]
    exact hu hp

theorem Trying.transmit {m : Ptr} {retries delay : UInt16} {s : Link} {flags : List Bool}
    {before : List Call} (h : Trying m retries delay ⟨s, flags, before⟩) (sub : UInt8) :
    Trying m retries delay ⟨transmit sub s, flags, before⟩ := by
  rw [transmit_eq]
  exact ⟨h.current, h.limit, h.pause, h.missed, h.more⟩

theorem stage_transmit {m : Ptr} {delay : UInt16} {s : Link} {before : List Call}
    {results : List UInt8} (sub : UInt8) (flags : List Bool) (current : s.currentMsg = m)
    (count : results.length = s.totalRetries.toNat)
    (calls : MadeSince before s.log (between delay results ++ rounds m delay results)) :
    Stage m delay ⟨transmit sub s, flags, before⟩ := by
  rw [transmit_eq]
  refine .sendDone rfl ?_ (sub :: results) ?_ ?_
  · by_cases hs : sub = success
    · simp [hs, current]
    · simp [hs]
  · rw [List.length_cons, count]
  · rw [rounds_cons, current]
    exact calls.cons rfl

theorem load_popped {s : Link} (h : s.sendPosted = true) :
    load { s with sendPosted := false } + 1 = load s := by
  simp [load, h]

theorem load_transmit (sub : UInt8) {s : Link} (h : s.sendPosted = false) :
    load (transmit sub s) ≤ load s + 2 := by
  rw [transmit_eq]
  by_cases hs : sub = success
  · simp only [load, hs, h, if_true, List.length_cons]
    simp
    omega
  · simp [load, hs, h]

theorem load_startOneShot (delay : UInt16) (s : Link) :
    load (startOneShot delay s) ≤ load s + 2 := by
  show 2 * s.outstanding.length + 2 + (if s.sendPosted then 1 else 0) ≤
    2 * s.outstanding.length + (if s.delayTimer.isSome then 2 else 0) +
      (if s.sendPosted then 1 else 0) + 2
  omega

theorem phase_transmit (retries : UInt16) (sub : UInt8) (s : Link) :
    phase retries (transmit sub s) =
      4 * (max 1 retries.toNat - s.totalRetries.toNat) - 2 := by
  rw [transmit_eq, phase, if_neg sendDone_ne_ready, if_pos rfl]

theorem phase_of_sending (retries : UInt16) {s : Link} (h : s.state = stateSending) :
    phase retries s = 4 * (max 1 retries.toNat - s.totalRetries.toNat) := by
  rw [phase, if_neg (h.trans_ne sending_ne_ready), if_neg (h.trans_ne sending_ne_sendDone)]

theorem phase_of_sendDone (retries : UInt16) {s : Link} (h : s.state = stateSendDone) :
    phase retries s = 4 * (max 1 retries.toNat - s.totalRetries.toNat) - 2 := by
  rw [phase, if_neg (h.trans_ne sendDone_ne_ready), if_pos h]

theorem toNat_succ_of_lt {x y : UInt16} (h : x.toNat < y.toNat) :
    (x + 1).toNat = x.toNat + 1 := by
  have hy := y.toNat_lt
  rw [UInt16.toNat_add, UInt16.toNat_one]
  omega

theorem toNat_lt_of_ne_zero {x y : UInt16} (h : x.toNat < max 1 y.toNat) (hy : y ≠ 0) :
    x.toNat < y.toNat := by
  have hpos : 0 < y.toNat := Nat.pos_of_ne_zero fun h0 => hy (UInt16.toNat_inj.mp h0)
  omega

theorem finished_answer {m : Ptr} {retries delay : UInt16} {n : ℕ} {acked : Bool} {s : Link}
    {flags : List Bool} {before : List Call} {results : List UInt8} {error : UInt8}
    (current : s.currentMsg = m) (limit : (s.mem m).getRetries = retries)
    (state : s.state = stateSignal + error)
    (verdict : error = if retries = 0 ∨ acked = true then success else fail)
    (missed : flags = List.replicate n false ++ [acked])
    (last : Last retries n acked)
    (count : results.length = n + 1) (calls : MadeSince before s.log (rounds m delay results))
    (left : retries ≠ 0 → s.totalRetries.toNat = if acked = true then n else retries.toNat) :
    Finished m retries delay n acked ⟨answer retries s, flags, before⟩ := by
  have herror : s.state - stateSignal = error := by
    rw [state]
    exact add_sub_cancel_left _ _
  refine ⟨rfl, missed, last, ⟨results, count, ?_⟩, ?_⟩
  · rw [← verdict]
    have hlog : (answer retries s).log = .sendDone m error :: s.log := by
      rw [← herror, ← current]
      rfl
    rw [hlog]
    exact calls.cons rfl
  · by_cases hz : retries = 0
    · have hmem : (answer retries s).mem = s.mem := by
        rw [hz]
        rfl
      rw [if_pos hz, hmem, limit, hz]
      rfl
    · have hmem : (answer retries s).mem m = (s.mem m).setRetries s.totalRetries := by
        have hpos : 0 < retries := UInt16.pos_iff_ne_zero.mpr hz
        simp [answer, note, hpos, current]
      rw [if_neg hz, hmem, ← left hz]
      rfl

section
variable {m : Ptr} {retries delay : UInt16} {s : Link} {flags : List Bool} {before : List Call}

theorem Trying.again (h : Trying m retries delay ⟨s, flags, before⟩)
    (more : s.totalRetries + 1 < retries) :
    Trying m retries delay ⟨{ s with
      totalRetries := s.totalRetries + 1, state := stateSending }, flags ++ [false], before⟩ ∧
      (s.totalRetries + 1).toNat = s.totalRetries.toNat + 1 := by
  have hmore : (s.totalRetries + 1).toNat < retries.toNat := UInt16.lt_iff_toNat_lt.mp more
  have hlt : s.totalRetries.toNat < retries.toNat := by
    apply toNat_lt_of_ne_zero h.more
    rintro rfl
    exact absurd hmore (Nat.not_lt_zero _)
  have hsucc := toNat_succ_of_lt hlt
  refine ⟨⟨h.current, h.limit, h.pause, ?_, ?_⟩, hsucc⟩
  · rw [hsucc, List.replicate_succ', ← h.missed]
  · show (s.totalRetries + 1).toNat < max 1 retries.toNat
    omega

theorem progress_transmit (hb : Trying m retries delay ⟨s, flags, before⟩) (sub : UInt8)
    (idle : s.sendPosted = false) {results : List UInt8}
    (count : results.length = s.totalRetries.toNat)
    (calls : MadeSince before s.log (between delay results ++ rounds m delay results)) :
    Progress m retries delay ⟨transmit sub s, flags, before⟩ ∧
      rank retries ⟨transmit sub s, flags, before⟩ ≤
        4 * (max 1 retries.toNat - s.totalRetries.toNat) + load s := by
  have hstage := stage_transmit sub flags hb.current count calls
  refine ⟨.trying (hb.transmit sub) hstage, ?_⟩
  have hmore : s.totalRetries.toNat < max 1 retries.toNat := hb.more
  have hload := load_transmit sub idle
  rw [rank, phase_transmit]
  dsimp only
  omega

theorem progress_acked (hb : Trying m retries delay ⟨s, flags, before⟩) {results : List UInt8}
    (count : results.length = s.totalRetries.toNat + 1)
    (calls : MadeSince before s.log (rounds m delay results))
    (done : retries = 0 ∨ (s.mem m).wasAcked = true) :
    Progress m retries delay ⟨answer retries { s with state := stateSignal + success },
      flags ++ [(s.mem m).wasAcked], before⟩ := by
  have hmore : s.totalRetries.toNat < max 1 retries.toNat := hb.more
  have hlast : Last retries s.totalRetries.toNat (s.mem m).wasAcked := by
    by_cases hz : retries = 0
    · rw [hz] at hmore
      exact .inl ⟨hz, Nat.lt_one_iff.mp hmore⟩
    · exact .inr ⟨toNat_lt_of_ne_zero hmore hz, .inl (done.resolve_left hz)⟩
  exact .finished _ _ (finished_answer hb.current hb.limit rfl (if_pos done).symm
    (congrArg (· ++ _) hb.missed) hlast count calls
    fun hz => (if_pos (done.resolve_left hz)).symm)

/-- The last attempt the retry count allows for is answered with `fail` when it was missed. -/
theorem progress_exhausted (hb : Trying m retries delay ⟨s, flags, before⟩)
    {results : List UInt8}
    (count : results.length = s.totalRetries.toNat + 1)
    (calls : MadeSince before s.log (rounds m delay results))
    (missed : ¬(retries = 0 ∨ (s.mem m).wasAcked = true))
    (last : ¬s.totalRetries + 1 < retries) :
    Progress m retries delay ⟨answer retries { s with
      totalRetries := s.totalRetries + 1, state := stateSignal + fail },
      flags ++ [(s.mem m).wasAcked], before⟩ := by
  have hmore : s.totalRetries.toNat < max 1 retries.toNat := hb.more
  obtain ⟨hz, hack⟩ := not_or.mp missed
  have hlt := toNat_lt_of_ne_zero hmore hz
  have hsucc := toNat_succ_of_lt hlt
  have hend : s.totalRetries.toNat + 1 = retries.toNat := by
    rw [UInt16.lt_iff_toNat_lt, hsucc] at last
    omega
  exact .finished _ _ (finished_answer hb.current hb.limit rfl (if_neg missed).symm
    (congrArg (· ++ _) hb.missed) (.inr ⟨hlt, .inr hend⟩) count calls fun _ => by
      rw [if_neg hack, ← hend, ← hsucc])

theorem rank_answer (retries limit : UInt16) (s : Link) :
    rank retries ⟨answer limit s, flags, before⟩ = load s := by
  have hphase : phase retries (answer limit s) = 0 := if_pos rfl
  rw [rank, hphase]
  exact Nat.zero_add _

theorem rank_startOneShot (retries delay : UInt16) (h : s.state = stateSending) :
    rank retries ⟨startOneShot delay s, flags, before⟩ ≤
      4 * (max 1 retries.toNat - s.totalRetries.toNat) + (load s + 2) := by
  have hstate : (startOneShot delay s).state = stateSending := h
  rw [rank, phase_of_sending retries hstate]
  exact Nat.add_le_add_left (load_startOneShot delay s) _

theorem progress_judge {sub : UInt8} {t : Link} (hb : Trying m retries delay ⟨s, flags, before⟩)
    (state : s.state = stateSendDone) (idle : s.sendPosted = false) {results : List UInt8}
    (count : results.length = s.totalRetries.toNat + 1)
    (calls : MadeSince before s.log (rounds m delay results)) (ht : TaskOutcome sub s t) :
    Progress m retries delay ⟨t, flags ++ [(s.mem m).wasAcked], before⟩ ∧
      rank retries ⟨t, flags ++ [(s.mem m).wasAcked], before⟩ ≤ phase retries s + load s := by
  obtain rfl : s.currentMsg = m := hb.current
  obtain rfl : (s.mem s.currentMsg).getRetries = retries := hb.limit
  obtain rfl : (s.mem s.currentMsg).getRetryDelay = delay := hb.pause
  have hmore : s.totalRetries.toNat < max 1 _ := hb.more
  have hne : results ≠ [] := by
    rintro rfl
    exact absurd count (Nat.zero_ne_add_one _)
  cases ht with
  | acked _ done =>
    refine ⟨progress_acked hb count calls done, ?_⟩
    rw [rank_answer]
    exact Nat.le_add_left _ _
  | exhausted _ missed last =>
    refine ⟨progress_exhausted hb count calls missed last, ?_⟩
    rw [rank_answer]
    exact Nat.le_add_left _ _
  | delayed _ missed more pausing =>
    obtain ⟨hagain, hsucc⟩ := hb.again more
    have hcalls := calls.cons (c := .startOneShot (s.mem s.currentMsg).getRetryDelay) rfl
    rw [Bool.eq_false_iff.mpr (not_or.mp missed).2]
    refine ⟨.trying ?_ (.sending rfl (.inr rfl) results ?_ ?_), ?_⟩
    · exact ⟨hagain.current, hagain.limit, hagain.pause, hagain.missed, hagain.more⟩
    · exact count.trans hsucc.symm
    · rw [between_of_ne_nil hne, if_pos pausing]
      exact hcalls
    · refine (rank_startOneShot _ _ rfl).trans ?_
      rw [phase_of_sendDone _ state]
      show 4 * (_ - (s.totalRetries + 1).toNat) + (load s + 2) ≤ _
      omega
  | retried _ missed more pausing =>
    obtain ⟨hagain, hsucc⟩ := hb.again more
    rw [Bool.eq_false_iff.mpr (not_or.mp missed).2]
    obtain ⟨hp, hr⟩ := progress_transmit hagain sub idle (count.trans hsucc.symm) (by
      rw [between_of_ne_nil hne, if_neg pausing]
      exact calls)
    refine ⟨hp, hr.trans ?_⟩
    rw [phase_of_sendDone _ state]
    show 4 * (_ - (s.totalRetries + 1).toNat) + load s ≤ _
    omega
  | attempt phase => exact absurd (phase.symm.trans state) sending_ne_sendDone
  | report phase => exact absurd state (signal_ne_sendDone phase)
  | idle notDone => exact absurd state notDone

theorem progress_task {w : Watch} (hb : Trying m retries delay w) (hs : Stage m delay w)
    (sub : UInt8) (posted : w.link.sendPosted = true) {t : Link}
    (ht : t = sendTask sub { w.link with sendPosted := false }) :
    Progress m retries delay ⟨t, w.flags ++ observed w.link (.task sub), w.before⟩ ∧
      rank retries ⟨t, w.flags ++ observed w.link (.task sub), w.before⟩ + 1 ≤
        rank retries w := by
  obtain ⟨s, flags, before⟩ := w
  have hrank : rank retries ⟨s, flags, before⟩ =
      phase retries s + (load { s with sendPosted := false } + 1) := by
    rw [load_popped posted]
    rfl
  have hbase : Trying m retries delay ⟨{ s with sendPosted := false }, flags, before⟩ :=
    ⟨hb.current, hb.limit, hb.pause, hb.missed, hb.more⟩
  cases hs with
  | sending state wake results count calls =>
    have hstate : s.state = stateSending := state
    obtain ⟨hp, hr⟩ := progress_transmit hbase sub rfl count calls
    have hsend := sendTask_of_sending sub (s := { s with sendPosted := false }) state
    have hflags : flags ++ observed s (.task sub) = flags := by
      rw [observed, if_neg (hstate.trans_ne sending_ne_sendDone), List.append_nil]
    rw [ht, hflags, hsend]
    refine ⟨hp, (Nat.succ_le_succ hr).trans ?_⟩
    rw [hrank, phase_of_sending retries hstate]
    exact le_rfl
  | sendDone state wake results count calls =>
    have hflags : observed s (.task sub) = [(s.mem m).wasAcked] := by
      rw [← hb.current]
      exact if_pos state
    have houtcome := sendTask_outcome sub { s with sendPosted := false }
    obtain ⟨hp, hr⟩ := progress_judge hbase state rfl count calls houtcome
    rw [ht, hflags]
    refine ⟨hp, (Nat.succ_le_succ hr).trans ?_⟩
    rw [hrank]
    exact le_rfl

end

theorem observed_of_not_task {s : Link} {e : Event} (h : ∀ sub, e ≠ .task sub) :
    observed s e = [] := by
  cases e with
  | task sub => exact absurd rfl (h sub)
  | send | cancel | subSendDone | fired | write => rfl

theorem progress_step {m : Ptr} {retries delay : UInt16} {w t : Watch} {e : Event}
    (h : Progress m retries delay w) (hu : Undisturbed m retries delay e)
    (hst : watch w e = some t) :
    Progress m retries delay t ∧ rank retries t + [e].countP owed ≤ rank retries w := by
  simp only [watch, Option.ite_none_left_eq_some, Option.map_eq_some_iff] at hst
  obtain ⟨hready, s, hs, rfl⟩ := hst
  cases h with
  | finished n acked done => exact absurd done.state hready
  | trying base stage =>
    by_cases htask : ∃ sub, e = .task sub
    · obtain ⟨sub, rfl⟩ := htask
      simp only [step, Option.ite_none_right_eq_some, Option.some.injEq] at hs
      obtain ⟨posted, hs⟩ := hs
      exact progress_task base stage sub posted hs.symm
    · push Not at htask
      obtain ⟨hk, hload⟩ := kept_step base stage hu hs htask
      rw [observed_of_not_task htask, List.append_nil]
      refine ⟨.trying (base.kept hk) (stage.kept hk), ?_⟩
      have hrank := rank_kept retries hk
      rw [hrank, rank]
      omega

theorem requestAck_fields (mem : Ptr → Message) (m : Ptr) :
    ((if 0 < (mem m).getRetries then Function.update mem m (mem m).requestAck
        else mem) m).getRetries = (mem m).getRetries ∧
      ((if 0 < (mem m).getRetries then Function.update mem m (mem m).requestAck
        else mem) m).getRetryDelay = (mem m).getRetryDelay := by
  split_ifs
  · rw [Function.update_self]
    exact ⟨rfl, rfl⟩
  · exact ⟨rfl, rfl⟩

theorem progress_accepted {m : Ptr} {retries delay : UInt16} {w : Watch}
    (h : Accepted m retries delay w) : Progress m retries delay w := by
  obtain ⟨s, -, hsend, hr, hd, rfl⟩ := h
  have hs : s.state = stateReady := by
    by_contra hs
    rw [send_of_busy m hs] at hsend
    exact ebusy_ne_success hsend
  obtain ⟨hretries, hdelay⟩ := requestAck_fields s.mem m
  rw [send_of_ready m hs]
  refine .trying ⟨rfl, hretries.trans hr, hdelay.trans hd, rfl, ?_⟩
    (.sending rfl (.inl rfl) [] rfl (madeSince_refl _))
  exact Nat.lt_of_lt_of_le Nat.zero_lt_one (Nat.le_max_left _ _)

/-- While the answer is out, an event is due that nobody has to call for. -/
theorem due_of_stage {m : Ptr} {retries delay : UInt16} {w : Watch} (hs : Stage m delay w) :
    ∃ e t, owed e = true ∧ Undisturbed m retries delay e ∧ watch w e = some t := by
  have htake (e : Event) (he : (step w.link e).isSome = true) : ∃ t, watch w e = some t := by
    obtain ⟨s, hst⟩ := Option.isSome_iff_exists.mp he
    rw [watch, if_neg hs.ne_ready, hst]
    exact ⟨_, rfl⟩
  have htask (posted : w.link.sendPosted = true) :
      ∃ e t, owed e = true ∧ Undisturbed m retries delay e ∧ watch w e = some t := by
    obtain ⟨t, ht⟩ := htake (.task success) (by simp [step, posted])
    exact ⟨.task success, t, rfl, trivial, ht⟩
  cases hs with
  | sending _ wake =>
    rcases wake with posted | timer
    · exact htask posted
    · obtain ⟨t, ht⟩ := htake .fired (by simp [step, timer])
      exact ⟨.fired, t, rfl, trivial, ht⟩
  | sendDone _ wake =>
    rcases wake with posted | flight
    · exact htask posted
    · obtain ⟨t, ht⟩ := htake (.subSendDone m success) (by simp [step, flight, success])
      exact ⟨.subSendDone m success, t, rfl, rfl, ht⟩

/-- The ack flags fix how many attempts there were. -/
theorem Finished.answered {m : Ptr} {retries delay : UInt16} {n : ℕ} {acked : Bool} {w : Watch}
    {a : ℕ → Bool} (h : Finished m retries delay n acked w) (ha : Observes a w) :
    Answered m retries delay a w := by
  have hlength : w.flags.length = n + 1 := by
    simp [h.flags]
  have hsplit : (List.range' 1 n).map a ++ [a (n + 1)] = List.replicate n false ++ [acked] := by
    rw [← h.flags, ha, hlength, List.range'_concat, List.map_append]
    simp [Nat.add_comm]
  obtain ⟨hmissed, hlast⟩ := List.append_inj hsplit (by simp)
  have hack : a (n + 1) = acked := List.singleton_inj.mp hlast
  have hfalse (i : ℕ) (h1 : 1 ≤ i) (hi : i ≤ n) : a i = false := by
    have hall : ∀ x ∈ List.range' 1 n, a x = false := by
      rw [← List.map_eq_replicate_iff, List.length_range', hmissed]
    exact hall i (List.mem_range'_1.mpr (by omega))
  have hk := attempts_of_last h.last hfalse hack
  have hdelivered : delivered retries a = true ↔ retries = 0 ∨ acked = true := by
    rw [delivered, hk, hack, Bool.or_eq_true, decide_eq_true_eq]
  refine ⟨?_, hlength.trans hk.symm, ?_⟩
  · obtain ⟨results, count, calls⟩ := h.calls
    refine ⟨results, count.trans hk.symm, ?_⟩
    simp only [hdelivered]
    exact calls
  · rw [h.left, leftRetries, hk]
    by_cases hz : retries = 0
    · rw [if_pos hz, if_pos hz]
    · rw [if_neg hz, if_neg hz]
      simp only [hdelivered, hz, false_or, Nat.add_sub_cancel]

/-- Whatever else goes on at the layer, an accepted send that is left alone is tried until the
first ack or as often as its retry count says, and answered accordingly. -/
theorem retried_of_undisturbed (m : Ptr) (retries delay : UInt16) (a : ℕ → Bool) (w : Watch)
    (h : (watching m retries delay).Reachable (fun _ => Undisturbed m retries delay) w)
    (ha : Observes a w) : Retried m retries delay a w := by
  have hprogress : Progress m retries delay w :=
    h.invariant (I := Progress m retries delay) (fun _ => progress_accepted)
      fun _ _ _ hp hu hst => (progress_step hp hu hst).1
  constructor
  · intro hready
    cases hprogress with
    | trying _ stage => exact absurd hready stage.ne_ready
    | finished n acked done => exact done.answered ha
  · intro hready
    cases hprogress with
    | trying _ stage => exact due_of_stage stage
    | finished n acked done => exact absurd done.state hready
  · refine ⟨rank retries w, fun es t hes hr => ?_⟩
    have hcount := Machine.countP_le_of_rank (rank retries) owed
      (fun _ _ _ hp hu hst => progress_step hp hu hst) hprogress es hes hr
    omega

/-- Three attempts allowed, 10 ms apart: the first is refused by the lower layer, the second is
acked. -/
theorem retried_of_undisturbed_second :
    ∃ w, w.link.state = stateReady ∧ w.flags = [false, true] ∧
      (w.link.mem 7).getRetries = 1 ∧ Retried 7 3 10 (fun i => i == 2) w := by
  let msg : Message := { (default : Message) with maxRetries := 3, retryDelay := 10 }
  have h0 : (watching 7 3 10).Reachable (fun _ => Undisturbed 7 3 10)
      ⟨(send 7 (bootState fun _ => msg)).2, [], (send 7 (bootState fun _ => msg)).2.log⟩ :=
    .start ⟨_, .start (boot_bootState _), rfl, rfl, rfl, rfl⟩
  have h1 := h0.next (e := .task ebusy) (by trivial) rfl
  have h2 := h1.next (e := .task success) (by trivial) rfl
  have h3 := h2.next (e := .fired) (by trivial) rfl
  have h4 := h3.next (e := .task success) (by trivial) rfl
  have h5 := h4.next (e := .write 7 (msg.setWasAcked true)) (fun _ => ⟨rfl, rfl⟩) rfl
  have h6 := h5.next (e := .subSendDone 7 success) (by rfl) rfl
  have h7 := h6.next (e := .task success) (by trivial) rfl
  exact ⟨_, rfl, rfl, rfl, retried_of_undisturbed 7 3 10 _ _ h7 rfl⟩

end RpiCc2520.RadioLink
