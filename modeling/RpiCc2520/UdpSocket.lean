import RpiCc2520.EventMachine

/-! The UDP socket that builds a datagram from several buffers: the kernel holds what it is given
with `MSG_MORE` back until a send without it. -/
namespace RpiCc2520.UdpSocket

/-- What `sendto` returns: how many bytes it took, or -1. With an error the kernel may drop what it
holds back. -/
inductive Sent
  | bytes (n : ℕ)
  | error (dropped : Bool)
  deriving DecidableEq

structure Server where
  addr : UInt32
  port : UInt16
  deriving DecidableEq

/-- A datagram with the buffers it was built from. It is torn if one more was taken in part. -/
structure Datagram where
  server : Server
  bytes : List UInt8
  parts : List (List UInt8)
  torn : Bool
  deriving DecidableEq

/-- What became of the buffers that were taken for one datagram. -/
inductive Ended
  | sent (d : Datagram)
  | discarded (parts : List (List UInt8))

def Ended.parts : Ended → List (List UInt8)
  | .sent d => d.parts
  | .discarded parts => parts

def Ended.datagram? : Ended → Option Datagram
  | .sent d => some d
  | .discarded _ => none

/-- `sockfd`, -1 as `none`, `server`, and the bytes the kernel holds back for the socket. Then the
buffers these are from and whether one more was taken in part, all buffers that were ever taken, and
what became of those that are no longer held back. -/
structure Socket where
  sockfd : Option ℕ
  server : Server
  held : List UInt8
  parts : List (List UInt8)
  torn : Bool
  taken : List (List UInt8)
  ended : List Ended

def boot : Socket := ⟨none, ⟨0, 0⟩, [], [], false, [], []⟩

/-- Nothing is held back any more, for whatever reason. -/
def settle (e : Ended) (s : Socket) : Socket :=
  { s with held := [], parts := [], torn := false, ended := s.ended ++ [e] }

def discard (s : Socket) : Socket := settle (.discarded s.parts) s

/-- `LinuxUdpSocket.init` with what `socket` and `gethostbyname` return. A socket that is open
already is forgotten. -/
def init (socket : Option ℕ) (host : Option UInt32) (port : UInt16) (s : Socket) : Bool × Socket :=
  let s := { discard s with sockfd := socket }
  match socket, host with
  | none, _ => (false, s)
  | some _, none => (false, { s with sockfd := none })
  | some _, some addr => (true, { s with server := ⟨addr, port⟩ })

/-- The loop of `build_packet`: whether it got to the end of the buffer, what the kernel holds back
then, if it did not drop it, and the answers that are left. -/
def buildLoop (buf : List UInt8) : List Sent → ℕ → List UInt8 →
    Option (Bool × Option (List UInt8) × List Sent)
  | answers, sent, held =>
      if sent < buf.length then
        match answers with
        | [] => none
        | .error dropped :: answers => some (false, if dropped then none else some held, answers)
        | .bytes n :: answers =>
            if n ≤ buf.length - sent then
              buildLoop buf answers (sent + n) (held ++ (buf.drop sent).take n)
            else none
      else some (true, some held, answers)

/-- `LinuxUdpSocket.build_packet`, with the answers that are left. -/
def buildPacket (buf : List UInt8) (answers : List Sent) (s : Socket) :
    Option (Bool × Socket × List Sent) :=
  match s.sockfd with
  | none => some (false, s, answers)
  | some _ => (buildLoop buf answers 0 s.held).map fun
      | (true, held, answers) => (true, { s with
          held := held.getD []
          parts := s.parts ++ [buf]
          taken := s.taken ++ [buf] }, answers)
      | (false, some held, answers) =>
          (false, { s with held := held, torn := s.torn || held != s.held }, answers)
      | (false, none, answers) => (false, discard s, answers)

def sendData (buf : List UInt8) (answers : List Sent) (s : Socket) :
    Option (Bool × Socket × List Sent) :=
  (buildPacket buf answers s).bind fun
    | (false, s, answers) => some (false, s, answers)
    | (true, s, answers) =>
        match answers with
        | [] => none
        | .error dropped :: answers => some (false, if dropped then discard s else s, answers)
        | .bytes _ :: answers =>
            some (true, settle (.sent ⟨s.server, s.held, s.parts, s.torn⟩) s, answers)

/-- `LinuxUdpSocket.close`. What flushing returns is not looked at. Where `close` fails the kernel
has let the descriptor go all the same, and `sockfd` keeps its number. -/
def close (flushBuffer : Bool) (answers : List Sent) (closed : Bool) (s : Socket) :
    Option (Bool × Socket × List Sent) :=
  (if flushBuffer then sendData [] answers s else some (true, s, answers)).map
    fun (_, s, answers) =>
      match s.sockfd with
      | none => (false, s, answers)
      | some _ =>
          if closed then (true, { discard s with sockfd := none }, answers)
          else (false, discard s, answers)

inductive Event
  | init (socket : Option ℕ) (host : Option UInt32) (port : UInt16)
  | buildPacket (buf : List UInt8) (answers : List Sent)
  | sendData (buf : List UInt8) (answers : List Sent)
  | close (flushBuffer : Bool) (answers : List Sent) (closed : Bool)

/-- A length is a `uint16_t`. -/
def step (s : Socket) : Event → Option Socket
  | .init socket host port => some (init socket host port s).2
  | .buildPacket buf answers =>
      if buf.length < 65536 then (buildPacket buf answers s).map fun r => r.2.1 else none
  | .sendData buf answers =>
      if buf.length < 65536 then (sendData buf answers s).map fun r => r.2.1 else none
  | .close flushBuffer answers closed => (close flushBuffer answers closed s).map fun r => r.2.1

def machine : Machine Socket Event := ⟨fun s => s = boot, step⟩

/-- Every buffer taken ends up in one place, in the order they were given: a datagram, what was
discarded, or what is held back. A datagram that is not torn is its buffers put together. A send
that succeeds sends all that was held back and its own buffer, and a socket that is not open holds
nothing back. -/
structure Assembled (s : Socket) : Prop where
  account : s.ended.flatMap Ended.parts ++ s.parts = s.taken
  whole : ∀ d, .sent d ∈ s.ended → d.torn = false → d.bytes = d.parts.flatten
  sends : ∀ buf answers t rest, sendData buf answers s = some (true, t, rest) →
    s.torn = false → t.parts = [] ∧ t.ended = s.ended ++
      [.sent ⟨s.server, (s.parts ++ [buf]).flatten, s.parts ++ [buf], false⟩]
  closed : s.sockfd = none → s.parts = [] ∧ s.held = [] ∧ s.torn = false

/-- Between two calls. -/
structure Sound (s : Socket) : Prop where
  account : s.ended.flatMap Ended.parts ++ s.parts = s.taken
  whole : ∀ d, .sent d ∈ s.ended → d.torn = false → d.bytes = d.parts.flatten
  held : s.torn = false → s.held = s.parts.flatten
  closed : s.sockfd = none → s.parts = [] ∧ s.held = [] ∧ s.torn = false

/-- However the kernel cuts a buffer, it has taken all of it when the loop ends. -/
theorem buildLoop_true {buf : List UInt8} {answers rest : List Sent} {sent : ℕ}
    {held : List UInt8} {held' : Option (List UInt8)} (hsent : sent ≤ buf.length)
    (h : buildLoop buf answers sent held = some (true, held', rest)) :
    held' = some (held ++ buf.drop sent) := by
  induction answers generalizing sent held with
  | nil =>
    unfold buildLoop at h
    split_ifs at h with hlt
    · obtain ⟨rfl, -⟩ : some held = held' ∧ _ := by simpa using h
      rw [List.drop_eq_nil_of_le (Nat.le_of_not_lt hlt), List.append_nil]
  | cons answer answers ih =>
    unfold buildLoop at h
    split_ifs at h with hlt
    · cases answer with
      | error dropped => simp at h
      | bytes n =>
        dsimp only at h
        split_ifs at h with hn
        have hnext := ih (by omega) h
        rw [hnext, List.append_assoc, ← List.drop_drop, List.take_append_drop]
    · obtain ⟨rfl, -⟩ : some held = held' ∧ _ := by simpa using h
      rw [List.drop_eq_nil_of_le (Nat.le_of_not_lt hlt), List.append_nil]

inductive Built (buf : List UInt8) (s : Socket) : Bool → Socket → Prop
  | closed (sockfd : s.sockfd = none) : Built buf s false s
  | whole (fd : ℕ) (sockfd : s.sockfd = some fd) : Built buf s true { s with
      held := s.held ++ buf
      parts := s.parts ++ [buf]
      taken := s.taken ++ [buf] }
  | part (fd : ℕ) (sockfd : s.sockfd = some fd) (held : List UInt8) :
      Built buf s false { s with held := held, torn := s.torn || held != s.held }
  | dropped (fd : ℕ) (sockfd : s.sockfd = some fd) : Built buf s false (discard s)

theorem built_of_buildPacket {buf : List UInt8} {answers rest : List Sent} {s t : Socket}
    {ok : Bool} (h : buildPacket buf answers s = some (ok, t, rest)) : Built buf s ok t := by
  unfold buildPacket at h
  split at h
  · rename_i hfd
    simp only [Option.some.injEq, Prod.mk.injEq] at h
    obtain ⟨rfl, rfl, -⟩ := h
    exact .closed hfd
  · rename_i fd hfd
    obtain ⟨⟨done, held, answers'⟩, hloop, h⟩ := Option.map_eq_some_iff.mp h
    cases done with
    | true =>
      obtain rfl := buildLoop_true (Nat.zero_le _) hloop
      obtain ⟨rfl, rfl, -⟩ : true = ok ∧ _ = t ∧ _ := by simpa only [Prod.mk.injEq] using h
      exact .whole fd hfd
    | false =>
      cases held with
      | some held =>
        obtain ⟨rfl, rfl, -⟩ : false = ok ∧ _ = t ∧ _ := by simpa only [Prod.mk.injEq] using h
        exact .part fd hfd held
      | none =>
        obtain ⟨rfl, rfl, -⟩ : false = ok ∧ _ = t ∧ _ := by simpa only [Prod.mk.injEq] using h
        exact .dropped fd hfd

/-- What a call of `send_data` comes to, `u` being the socket behind its `build_packet`. -/
inductive SentData (buf : List UInt8) (s : Socket) : Bool → Socket → Prop
  | unbuilt {t : Socket} (built : Built buf s false t) : SentData buf s false t
  | refused {u : Socket} (built : Built buf s true u) : SentData buf s false u
  | dropped {u : Socket} (built : Built buf s true u) : SentData buf s false (discard u)
  | sent {u : Socket} (built : Built buf s true u) :
      SentData buf s true (settle (.sent ⟨u.server, u.held, u.parts, u.torn⟩) u)

theorem sentData_of_sendData {buf : List UInt8} {answers rest : List Sent} {s t : Socket}
    {ok : Bool} (h : sendData buf answers s = some (ok, t, rest)) : SentData buf s ok t := by
  obtain ⟨⟨done, u, answers'⟩, hbuild, h⟩ := Option.bind_eq_some_iff.mp h
  have hbuilt := built_of_buildPacket hbuild
  cases done with
  | false =>
    obtain ⟨rfl, rfl, -⟩ : false = ok ∧ u = t ∧ _ := by simpa using h
    exact .unbuilt hbuilt
  | true =>
    cases answers' with
    | nil => cases h
    | cons answer answers' =>
      cases answer with
      | bytes n =>
        obtain ⟨rfl, rfl, -⟩ : true = ok ∧ _ = t ∧ _ := by simpa using h
        exact .sent hbuilt
      | error dropped =>
        cases dropped with
        | false =>
          obtain ⟨rfl, rfl, -⟩ : false = ok ∧ u = t ∧ _ := by simpa using h
          exact .refused hbuilt
        | true =>
          obtain ⟨rfl, rfl, -⟩ : false = ok ∧ _ = t ∧ _ := by simpa using h
          exact .dropped hbuilt

theorem sound_boot : Sound boot :=
  ⟨rfl, fun _ h => absurd h List.not_mem_nil, fun _ => rfl, fun _ => ⟨rfl, rfl, rfl⟩⟩

theorem sound_settle {e : Ended} {s : Socket} (h : Sound s) (parts : e.parts = s.parts)
    (whole : ∀ d, e = .sent d → d.torn = false → d.bytes = d.parts.flatten) :
    Sound (settle e s) := by
  refine ⟨?_, ?_, fun _ => rfl, fun _ => ⟨rfl, rfl, rfl⟩⟩
  · change (s.ended ++ [e]).flatMap Ended.parts ++ [] = s.taken
    rw [List.flatMap_append, List.append_nil, ← h.account]
    simp [parts]
  · intro d hd
    rcases List.mem_append.mp hd with hd | hd
    · exact h.whole d hd
    · exact whole d (List.mem_singleton.mp hd).symm

theorem sound_discard {s : Socket} (h : Sound s) : Sound (discard s) :=
  sound_settle h rfl fun _ he => by cases he

theorem sound_built {buf : List UInt8} {s t : Socket} {ok : Bool} (h : Sound s)
    (hb : Built buf s ok t) : Sound t := by
  cases hb with
  | closed => exact h
  | whole fd hfd =>
    refine ⟨?_, h.whole, fun htorn => ?_, fun hnone => ?_⟩
    · change s.ended.flatMap Ended.parts ++ (s.parts ++ [buf]) = s.taken ++ [buf]
      rw [← h.account, List.append_assoc]
    · change s.held ++ buf = (s.parts ++ [buf]).flatten
      rw [h.held htorn, List.flatten_append]
      simp
    · rw [show s.sockfd = none from hnone] at hfd
      cases hfd
  | part fd hfd held =>
    refine ⟨h.account, h.whole, fun htorn => ?_, fun hnone => ?_⟩
    · obtain ⟨htorn, heq⟩ := Bool.or_eq_false_iff.mp htorn
      change held = s.parts.flatten
      rw [← h.held htorn]
      simpa using heq
    · rw [show s.sockfd = none from hnone] at hfd
      cases hfd
  | dropped => exact sound_discard h

theorem sound_sentData {buf : List UInt8} {s t : Socket} {ok : Bool} (h : Sound s)
    (hs : SentData buf s ok t) : Sound t := by
  cases hs with
  | unbuilt hb => exact sound_built h hb
  | refused hb => exact sound_built h hb
  | dropped hb => exact sound_discard (sound_built h hb)
  | sent hb =>
    have hu := sound_built h hb
    refine sound_settle hu rfl ?_
    rintro d hd htorn
    obtain rfl := Ended.sent.inj hd
    exact hu.held htorn

theorem sound_init {socket : Option ℕ} {host : Option UInt32} {port : UInt16} {s : Socket}
    (h : Sound s) : Sound (init socket host port s).2 := by
  have hd := sound_discard h
  unfold init
  dsimp only
  split
  · exact ⟨hd.account, hd.whole, hd.held, fun _ => ⟨rfl, rfl, rfl⟩⟩
  · exact ⟨hd.account, hd.whole, hd.held, fun _ => ⟨rfl, rfl, rfl⟩⟩
  · exact ⟨hd.account, hd.whole, hd.held, fun _ => ⟨rfl, rfl, rfl⟩⟩

theorem sound_close {flushBuffer closed ok : Bool} {answers rest : List Sent} {s t : Socket}
    (h : Sound s) (hst : close flushBuffer answers closed s = some (ok, t, rest)) : Sound t := by
  obtain ⟨⟨done, u, answers'⟩, hflush, hst⟩ := Option.map_eq_some_iff.mp hst
  have hu : Sound u := by
    cases flushBuffer with
    | true => exact sound_sentData h (sentData_of_sendData hflush)
    | false =>
      obtain ⟨-, rfl, -⟩ : true = done ∧ s = u ∧ _ := by simpa using hflush
      exact h
  have hd := sound_discard hu
  dsimp only at hst
  split at hst
  · obtain ⟨-, rfl, -⟩ : _ ∧ u = t ∧ _ := by simpa using hst
    exact hu
  · split_ifs at hst
    · obtain ⟨-, rfl, -⟩ : _ ∧ _ = t ∧ _ := by simpa using hst
      exact ⟨hd.account, hd.whole, hd.held, fun _ => ⟨rfl, rfl, rfl⟩⟩
    · obtain ⟨-, rfl, -⟩ : _ ∧ discard u = t ∧ _ := by simpa using hst
      exact hd

theorem sound_step {s t : Socket} {e : Event} (h : Sound s) (hst : step s e = some t) :
    Sound t := by
  cases e with
  | init socket host port =>
    obtain rfl := Option.some.inj hst
    exact sound_init h
  | buildPacket buf answers =>
    obtain ⟨-, hst⟩ := Option.ite_none_right_eq_some.mp hst
    obtain ⟨⟨ok, u, rest⟩, hbuild, rfl⟩ := Option.map_eq_some_iff.mp hst
    exact sound_built h (built_of_buildPacket hbuild)
  | sendData buf answers =>
    obtain ⟨-, hst⟩ := Option.ite_none_right_eq_some.mp hst
    obtain ⟨⟨ok, u, rest⟩, hsend, rfl⟩ := Option.map_eq_some_iff.mp hst
    exact sound_sentData h (sentData_of_sendData hsend)
  | close flushBuffer answers closed =>
    obtain ⟨⟨ok, u, rest⟩, hclose, rfl⟩ := Option.map_eq_some_iff.mp hst
    exact sound_close h hclose

theorem Sound.sends {s t : Socket} {buf : List UInt8} {answers rest : List Sent} (h : Sound s)
    (hst : sendData buf answers s = some (true, t, rest)) (htorn : s.torn = false) :
    t.parts = [] ∧ t.ended = s.ended ++
      [.sent ⟨s.server, (s.parts ++ [buf]).flatten, s.parts ++ [buf], false⟩] := by
  have hsent := sentData_of_sendData hst
  cases hsent with
  | sent hb =>
    cases hb with
    | whole fd hfd =>
      refine ⟨rfl, ?_⟩
      change s.ended ++ [_] = _
      rw [h.held htorn, htorn, List.flatten_append]
      simp

/-- Whatever the kernel answers, and whichever calls fail. -/
theorem assembled_of_reachable (s : Socket) (h : machine.Reachable Machine.Any s) :
    Assembled s := by
  have hs : Sound s := by
    apply h.invariant (I := Sound)
    · rintro _ rfl
      exact sound_boot
    · exact fun s e t hs _ hst => sound_step hs hst
  exact ⟨hs.account, hs.whole, fun buf answers t rest hst htorn => hs.sends hst htorn, hs.closed⟩

/-- A datagram of two buffers, of which the kernel takes the second byte by byte, a send that fails
behind a buffer that was taken, and the same buffer again. -/
def session : List Event :=
  [.init (some 5) (some 0x7F000001) 9, .buildPacket [1, 2] [.bytes 2],
    .sendData [3, 4] [.bytes 1, .bytes 1, .bytes 0], .sendData [5] [.bytes 1, .error false],
    .close true [.bytes 0] true]

def datagrams (s : Socket) : List (List UInt8 × List (List UInt8)) :=
  (s.ended.filterMap Ended.datagram?).map fun d => (d.bytes, d.parts)

theorem assembled_of_reachable_session : ∃ s, machine.run boot session = some s ∧
    datagrams s = [([1, 2, 3, 4], [[1, 2], [3, 4]]), ([5], [[5], []])] ∧ Assembled s := by
  have hseen : (machine.run boot session).map datagrams =
      some [([1, 2, 3, 4], [[1, 2], [3, 4]]), ([5], [[5], []])] := by decide
  obtain ⟨s, hs, hdatagrams⟩ := Option.map_eq_some_iff.mp hseen
  have hboot : machine.Reachable Machine.Any boot := .start rfl
  exact ⟨s, hs, hdatagrams, assembled_of_reachable s (hboot.run session hs)⟩

end RpiCc2520.UdpSocket
