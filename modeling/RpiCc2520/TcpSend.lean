import RpiCc2520.BytePipe
import RpiCc2520.TcpConnection

/-! The loop that sends a buffer on a non-blocking socket, which takes a part of it at a time. -/
namespace RpiCc2520.TcpSend
open BytePipe RadioMessage TcpConnection

/-- What `send()` returns: how many bytes it took, or -1. -/
inductive Sent
  | bytes (n : ℕ)
  | error
  deriving DecidableEq, Repr

/-- A call of `TcpSocket.send`: its variables, the bytes the kernel has taken so far, and what it
has returned. -/
structure Call where
  buf : ℕ
  len : UInt16
  accepted : List UInt8
  result : Option UInt8

/-- The call with its parameters, up to the loop. -/
def start (conn : Connection) (buf : ℕ) (len : UInt16) : Call :=
  ⟨buf, len, [], if conn.sock = -1 then some fail else none⟩

def round (mem : ℕ → UInt8) (s : Call) : Sent → Call
  | .error => { s with result := some fail }
  | .bytes sent =>
      let accepted := s.accepted ++ load mem s.buf sent
      if sent = s.len.toNat then { s with accepted := accepted, result := some success }
      else if s.len.toNat < sent then { s with accepted := accepted, result := some fail }
      else { s with accepted := accepted, len := s.len - .ofNat sent, buf := s.buf + sent }

/-- The kernel takes at least one byte, if there is one, and no more than it is given. -/
def Legal (s : Call) : Sent → Prop
  | .error => True
  | .bytes sent => sent ≤ s.len.toNat ∧ (s.len.toNat = 0 ∨ 1 ≤ sent)

instance (s : Call) : (sent : Sent) → Decidable (Legal s sent)
  | .error => .isTrue trivial
  | .bytes sent => inferInstanceAs (Decidable (sent ≤ s.len.toNat ∧ (s.len.toNat = 0 ∨ 1 ≤ sent)))

def step (mem : ℕ → UInt8) (s : Call) (sent : Sent) : Option Call :=
  if s.result = none ∧ Legal s sent then some (round mem s sent) else none

def machine (mem : ℕ → UInt8) (conn : Connection) (buf : ℕ) (len : UInt16) : Machine Call Sent :=
  ⟨fun s => s = start conn buf len, step mem⟩

/-- `SUCCESS` says the whole buffer was taken, `FAIL` that nothing was. -/
structure AllOrNothing (mem : ℕ → UInt8) (buf : ℕ) (len : UInt16) (s : Call) : Prop where
  success : s.result = some success → s.accepted = load mem buf len.toNat
  fail : s.result = some fail → s.accepted = []

/-- The loop goes on until it returns, which it does whatever the kernel answers. -/
structure Ends (mem : ℕ → UInt8) (conn : Connection) (buf : ℕ) (len : UInt16) (s : Call) : Prop where
  goesOn : s.result = none → ∀ sent, Legal s sent → (step mem s sent).isSome = true
  bounded : ∀ results t, (machine mem conn buf len).run s results = some t →
    results.length ≤ s.len.toNat + 1

/-- `send()` fails only while it has taken nothing. -/
def FailsFirst (s : Call) : Sent → Prop
  | .error => s.accepted = []
  | .bytes _ => True

instance (s : Call) : (sent : Sent) → Decidable (FailsFirst s sent)
  | .error => inferInstanceAs (Decidable (s.accepted = []))
  | .bytes _ => .isTrue trivial

/-- What the loop keeps: the bytes taken are those before the pointer, and the length is what
remains. -/
structure Sound (mem : ℕ → UInt8) (buf : ℕ) (len : UInt16) (s : Call) : Prop where
  accepted : s.accepted = load mem buf s.accepted.length
  pointer : s.result = none → s.buf = buf + s.accepted.length
  rest : s.result = none → s.accepted.length + s.len.toNat = len.toNat
  whole : s.result = some success → s.accepted.length = len.toNat

variable {mem : ℕ → UInt8} {conn : Connection} {buf : ℕ} {len : UInt16} {s t : Call}

theorem round_cases (mem : ℕ → UInt8) {sent : Sent} (h : Legal s sent) :
    (sent = .error ∧ round mem s sent = { s with result := some fail }) ∨
      (sent = .bytes s.len.toNat ∧ round mem s sent =
        { s with
          accepted := s.accepted ++ load mem s.buf s.len.toNat
          result := some success }) ∨
      ∃ n, sent = .bytes n ∧ 1 ≤ n ∧ n < s.len.toNat ∧ round mem s sent =
        { s with
          accepted := s.accepted ++ load mem s.buf n
          len := s.len - .ofNat n
          buf := s.buf + n } := by
  cases sent with
  | error => exact .inl ⟨rfl, rfl⟩
  | bytes n =>
    obtain ⟨hle, hpos⟩ := h
    by_cases hn : n = s.len.toNat
    · subst hn
      exact .inr (.inl ⟨rfl, if_pos rfl⟩)
    · refine .inr (.inr ⟨n, rfl, by omega, by omega, ?_⟩)
      rw [round, if_neg hn, if_neg (by omega)]

theorem step_cases {sent : Sent} (hst : step mem s sent = some t) :
    s.result = none ∧ Legal s sent ∧ t = round mem s sent := by
  unfold step at hst
  split_ifs at hst with h
  exact ⟨h.1, h.2, (Option.some.inj hst).symm⟩

theorem toNat_sub_ofNat {n : ℕ} (h : n < s.len.toNat) :
    (s.len - .ofNat n).toNat = s.len.toNat - n := by
  have hn : (UInt16.ofNat n).toNat = n := UInt16.toNat_ofNat_of_lt' (h.trans s.len.toNat_lt)
  rw [UInt16.toNat_sub_of_le _ _ (UInt16.le_iff_toNat_le.mpr (by omega)), hn]

theorem sound_start : Sound mem buf len (start conn buf len) := by
  constructor
  · rfl
  · intro _
    rfl
  · intro _
    exact Nat.zero_add _
  · intro h
    unfold start at h
    split_ifs at h
    exact absurd (Option.some.inj h) (by decide)

theorem sound_step {sent : Sent} (h : Sound mem buf len s) (hst : step mem s sent = some t) :
    Sound mem buf len t := by
  obtain ⟨hnone, hlegal, rfl⟩ := step_cases hst
  have hpointer := h.pointer hnone
  have hrest := h.rest hnone
  have htaken (n : ℕ) : s.accepted ++ load mem s.buf n =
      load mem buf (s.accepted ++ load mem s.buf n).length := by
    rw [List.length_append, load_length, load_add, ← hpointer, ← h.accepted]
  rcases round_cases mem hlegal with ⟨-, he⟩ | ⟨-, he⟩ | ⟨n, -, hpos, hlt, he⟩
  · rw [he]
    exact ⟨h.accepted, nofun, nofun, fun hs => absurd (Option.some.inj hs) (by decide)⟩
  · rw [he]
    refine ⟨htaken _, nofun, nofun, fun _ => ?_⟩
    rw [List.length_append, load_length]
    exact hrest
  · rw [he]
    refine ⟨htaken n, fun _ => ?_, fun _ => ?_, ?_⟩
    · rw [List.length_append, load_length, ← Nat.add_assoc, ← hpointer]
    · change (s.accepted ++ load mem s.buf n).length + (s.len - .ofNat n).toNat = _
      rw [List.length_append, load_length, toNat_sub_ofNat hlt]
      omega
    · intro hs
      exact absurd (hnone.symm.trans hs) (by simp)

theorem sound_of_reachable {ok : Call → Sent → Prop}
    (h : (machine mem conn buf len).Reachable ok s) : Sound mem buf len s := by
  refine h.invariant (I := Sound mem buf len) ?_ fun _ _ _ hs _ => sound_step hs
  rintro s rfl
  exact sound_start

/-- Each round that does not return takes a byte. -/
theorem length_le_of_run (results : List Sent)
    (h : (machine mem conn buf len).run s results = some t) :
    results.length ≤ s.len.toNat + 1 := by
  induction results generalizing s with
  | nil => exact Nat.zero_le _
  | cons sent results ih =>
    obtain ⟨u, hu, hrun⟩ := Option.bind_eq_some_iff.mp h
    obtain ⟨-, hlegal, rfl⟩ := step_cases hu
    have hstop (hr : (round mem s sent).result ≠ none) : results = [] := by
      cases results with
      | nil => rfl
      | cons sent' results =>
        obtain ⟨v, hv, -⟩ := Option.bind_eq_some_iff.mp hrun
        exact absurd (step_cases hv).1 hr
    rcases round_cases mem hlegal with ⟨-, he⟩ | ⟨-, he⟩ | ⟨n, -, hpos, hlt, he⟩
    · rw [hstop (by rw [he]; simp)]
      simp
    · rw [hstop (by rw [he]; simp)]
      simp
    · have hih := ih hrun
      rw [he] at hih
      change results.length ≤ (s.len - .ofNat n).toNat + 1 at hih
      rw [toNat_sub_ofNat hlt] at hih
      rw [List.length_cons]
      omega

theorem ends (s : Call) : Ends mem conn buf len s := by
  constructor
  · intro hnone sent hlegal
    rw [step, if_pos ⟨hnone, hlegal⟩]
    rfl
  · intro results t h
    exact length_le_of_run results h

/-- While no `send()` has failed behind bytes it took, a call that failed has sent nothing. -/
theorem nothing_of_failsFirst (h : (machine mem conn buf len).Reachable FailsFirst s) :
    s.result = some fail → s.accepted = [] := by
  induction h with
  | start hs =>
    intro _
    rw [hs]
    rfl
  | @next s t sent prior met taken ih =>
    intro hfail
    obtain ⟨hnone, hlegal, rfl⟩ := step_cases taken
    rcases round_cases mem hlegal with ⟨rfl, he⟩ | ⟨-, he⟩ | ⟨n, -, -, -, he⟩
    · rw [he]
      exact met
    · rw [he] at hfail
      exact absurd (Option.some.inj hfail) (by decide)
    · rw [he] at hfail
      exact absurd (hnone.symm.trans hfail) (by simp)

/-- The loop always ends, and the call was all or nothing exactly when no `send()` failed after one
had taken a part. -/
theorem allOrNothing_iff_failsFirst (h : (machine mem conn buf len).Reachable Machine.Any s) :
    Ends mem conn buf len s ∧
      (AllOrNothing mem buf len s ↔ (machine mem conn buf len).Reachable FailsFirst s) := by
  have hs := sound_of_reachable h
  refine ⟨ends s, ?_, ?_⟩
  · intro hkept
    have hcases : (machine mem conn buf len).Reachable FailsFirst s ∨
        s.result = some fail ∧ s.accepted ≠ [] :=
      h.ok_or_broken (B := fun s => s.result = some fail ∧ s.accepted ≠ []) ?_ ?_
    · rcases hcases with hr | ⟨hfail, hne⟩
      · exact hr
      · exact absurd (hkept.fail hfail) hne
    · intro s sent t _ hbad hst
      obtain ⟨-, -, rfl⟩ := step_cases hst
      cases sent with
      | error => exact ⟨rfl, hbad⟩
      | bytes n => exact absurd trivial hbad
    · intro s sent t hb hst
      have hnone := (step_cases hst).1
      exact absurd (hnone.symm.trans hb.1) (by simp)
  · intro hr
    constructor
    · intro hsuccess
      rw [hs.accepted, hs.whole hsuccess]
    · exact nothing_of_failsFirst hr

def sampleConnection : Connection := { boot with sock := 3 }

/-- The bytes are their addresses. -/
def sampleMemory : ℕ → UInt8 := fun p => .ofNat p

/-- Ten bytes are taken in parts of 4, 1 and 5. -/
theorem allOrNothing_iff_failsFirst_parts : ∃ s : Call,
    s.result = some success ∧ AllOrNothing sampleMemory 0 10 s := by
  have hrun : ((machine sampleMemory sampleConnection 0 10).runMeeting FailsFirst
      (start sampleConnection 0 10) [.bytes 4, .bytes 1, .bytes 5]).map Call.result =
        some (some success) := by decide +kernel
  obtain ⟨s, hs, he⟩ := Option.map_eq_some_iff.mp hrun
  have hr : (machine sampleMemory sampleConnection 0 10).Reachable FailsFirst s :=
    (Machine.Reachable.start rfl).runMeeting _ hs
  exact ⟨s, he, (allOrNothing_iff_failsFirst (hr.imp fun _ _ _ => trivial)).2.mpr hr⟩

/-- The socket takes four of ten bytes and then has no room (`EAGAIN`): the call fails with a part
of the buffer on its way. -/
theorem part_sent_on_fail : ∃ s : Call,
    (machine sampleMemory sampleConnection 0 10).Reachable Machine.Any s ∧
      s.result = some fail ∧ s.accepted = [0, 1, 2, 3] ∧ ¬AllOrNothing sampleMemory 0 10 s := by
  have hrun : ((machine sampleMemory sampleConnection 0 10).run (start sampleConnection 0 10)
      [.bytes 4, .error]).map (fun s => (s.result, s.accepted)) =
        some (some fail, [0, 1, 2, 3]) := by decide +kernel
  obtain ⟨s, hs, he⟩ := Option.map_eq_some_iff.mp hrun
  obtain ⟨hresult, haccepted⟩ := Prod.mk.inj he
  refine ⟨s, (Machine.Reachable.start rfl).run _ hs, hresult, haccepted, ?_⟩
  intro hkept
  exact absurd (haccepted.symm.trans (hkept.fail hresult)) (by decide)

end RpiCc2520.TcpSend
