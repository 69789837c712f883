import RpiCc2520.UartReceive

/-! Cards at the RFID reader: a frame comes over the serial line for each, a read returns when the
line holds 16 characters, and what is read at once is taken for a frame. -/
namespace RpiCc2520.RfidStation
open BytePipe RfidReader UartReceive

def minReturn : ℕ := 16

/-- A card with the frame that spells its code. -/
structure Card where
  code : Code
  frame : List UInt8
  nonzero : code ≠ .replicate 5 0
  length : frame.length = minReturn
  spelled : Frame code fun i => frame.getD i 0

/-- A frame on its way, with one character damaged at most. -/
structure Sent where
  card : Card
  damage : Option (ℕ × UInt8)

def Sent.bytes (x : Sent) : List UInt8 :=
  match x.damage with
  | none => x.card.frame
  | some (p, c) => x.card.frame.set p c

/-- What the device sends, what has come in and was not read, the tty's `VMIN`, the UART with the
reader, the frames sent so far, and for each task that ran whether the reader was enabled and what
it was notified of, oldest first. -/
structure Station where
  wire : List UInt8
  tty : List UInt8
  vmin : ℕ
  uart : Uart
  sent : List Sent
  told : List (Bool × Option Code)

inductive Event
  | card (x : Sent)
  | arrive
  | receiveReady
  | task
  | enable (stored : Bool)
  | disable

def notified (uart : Uart) : Option Code := uart.log.head?.bind Received.notified

/-- `setserial` with the reader's settings: what becomes of `VMIN`. `stored` is what `tcsetattr` says of
them. -/
def setserial (stored : Bool) (vmin : ℕ) : ℕ := if stored then minReturn else vmin

/-- The descriptor is ready, and `read` returns, when `VMIN` characters have come in. -/
def step (s : Station) : Event → Option Station
  | .card x => if s.wire = [] then some { s with wire := x.bytes, sent := s.sent ++ [x] } else none
  | .arrive =>
      match s.wire with
      | [] => none
      | c :: wire => some { s with wire := wire, tty := s.tty ++ [c] }
  | .receiveReady =>
      if max 1 s.vmin ≤ s.tty.length then
        (UartReceive.step s.uart (.receiveReady (.bytes (s.tty.take uartBufLen)))).map fun uart =>
          { s with uart := uart, tty := s.tty.drop uartBufLen }
      else none
  | .task => (UartReceive.step s.uart .task).map fun uart =>
      { s with uart := uart, told := s.told ++ [(s.uart.reader.active, notified uart)] }
  | .enable stored => (UartReceive.step s.uart .enable).map fun uart =>
      { s with uart := uart, vmin := setserial stored s.vmin }
  | .disable => (UartReceive.step s.uart .disable).map fun uart => { s with uart := uart }

/-- The reader has been enabled for the first time, on a quiet line. -/
structure Enabled (s : Station) : Prop where
  wire : s.wire = []
  tty : s.tty = []
  vmin : s.vmin = setserial true 0
  posted : s.uart.posted = false
  sent : s.sent = []
  told : s.told = []

def machine : Machine Station Event := ⟨Enabled, step⟩

/-- A card is not shown before the frame of the one before it was read. -/
def InPace (s : Station) : Event → Prop
  | .card _ => s.tty = []
  | .arrive | .receiveReady | .task | .enable _ | .disable => True

instance (s : Station) (e : Event) : Decidable (InPace s e) := by
  cases e <;> unfold InPace <;> infer_instance

/-- A reader that is enabled is notified of an undamaged frame's code, and no reader is ever notified
of a code that is not the card's. -/
structure Heard (x : Sent) (r : Bool × Option Code) : Prop where
  off : r.1 = false → r.2 = none
  intact : r.1 = true → x.damage = none → r.2 = some x.card.code
  same : r.2 = none ∨ r.2 = some x.card.code

/-- The tasks have heard the frames in the order they were sent, each once. Those that are not heard
yet will be, with no more than the rest of the characters coming in. -/
structure Told (s : Station) : Prop where
  heard : List.Forall₂ Heard (s.sent.take s.told.length) s.told
  waiting : s.sent.length ≤ s.told.length + 2
  settles : ∃ es t, machine.run s es = some t ∧ t.sent = s.sent ∧ t.told.length = s.sent.length

theorem length_bytes (x : Sent) : x.bytes.length = minReturn := by
  unfold Sent.bytes
  cases x.damage with
  | none => exact x.card.length
  | some d => rw [List.length_set, x.card.length]

theorem frame_congr {code : Code} {buf buf' : ℕ → UInt8} (h : Frame code buf)
    (heq : ∀ i ≤ 12, buf' i = buf i) : Frame code buf' := by
  constructor
  · intro i
    have hi := i.isLt
    rw [heq _ (by omega), heq _ (by omega)]
    exact h.data i
  · rw [heq _ (by omega), heq _ (by omega)]
    exact h.checksum

theorem load_eq {buf : ℕ → UInt8} {bs : List UInt8} (h : load buf 0 minReturn = bs) {i : ℕ}
    (hi : i < minReturn) : buf i = bs.getD i 0 := by
  rw [← h, load_getD buf 0 0 hi, Nat.zero_add]

theorem receive_frame {code : Code} {buf : ℕ → UInt8} {s : Reader} (h : Frame code buf)
    (hcode : code ≠ .replicate 5 0) (hactive : s.active = true) :
    (RfidReader.receive buf 16 s).1 = some code := by
  rw [receive_fst hactive, convertRfid_of_frame h, if_pos (verifyChecksum_of_frame h hcode)]

/-- One character may be another, wherever it is. -/
theorem receive_damaged {code : Code} {buf good : ℕ → UInt8} {s : Reader} (h : Frame code good)
    (hcode : code ≠ .replicate 5 0) (hactive : s.active = true) {p : ℕ}
    (heq : ∀ i ≤ 12, i ≠ p → buf i = good i) :
    (RfidReader.receive buf 16 s).1 = none ∨ (RfidReader.receive buf 16 s).1 = some code := by
  by_cases hp : p ≤ 12
  · have hgood : Frame code (Function.update buf p (good p)) := by
      apply frame_congr h
      intro i hi
      by_cases hip : i = p
      · rw [hip, Function.update_self]
      · rw [Function.update_of_ne hip, heq i hi hip]
    have hdamaged := damaged_of_frame hgood hactive hp (buf p)
    rwa [Function.update_idem, Function.update_eq_self] at hdamaged
  · right
    apply receive_frame _ hcode hactive
    exact frame_congr h fun i hi => heq i hi (by omega)

theorem heard_receive (x : Sent) {buf : ℕ → UInt8} (h : load buf 0 minReturn = x.bytes)
    (s : Reader) : Heard x (s.active, (RfidReader.receive buf 16 s).1) := by
  cases hactive : s.active with
  | false =>
    have hnone : (RfidReader.receive buf 16 s).1 = none := by
      unfold RfidReader.receive
      rw [hactive]
      rfl
    exact ⟨fun _ => hnone, (by simp), .inl hnone⟩
  | true =>
    have hspelled := x.card.spelled
    have hcode := x.card.nonzero
    cases hd : x.damage with
    | none =>
      have hbytes : x.bytes = x.card.frame := by rw [Sent.bytes, hd]
      rw [hbytes] at h
      have hsame := receive_frame (frame_congr hspelled fun i hi =>
        load_eq h (lt_of_le_of_lt hi (by decide))) hcode hactive
      exact ⟨(by simp), fun _ _ => hsame, .inr hsame⟩
    | some d =>
      obtain ⟨p, c⟩ := d
      have hbytes : x.bytes = x.card.frame.set p c := by rw [Sent.bytes, hd]
      rw [hbytes] at h
      refine ⟨(by simp), fun _ hnone => ?_, receive_damaged hspelled hcode hactive (p := p) ?_⟩
      · rw [hd] at hnone
        cases hnone
      · intro i hi hip
        rw [load_eq h (lt_of_le_of_lt hi (by decide)), List.getD_eq_getElem?_getD,
          List.getElem?_set_ne (Ne.symm hip), List.getD_eq_getElem?_getD]

/-- The frames that were heard, the one whose task is queued and the one that is coming in. -/
structure Progress where
  heard : List Sent
  queued : Option Sent
  coming : Option Sent

/-- The UART holds a frame for its task, or it has no task. -/
def Holds (u : Uart) : Option Sent → Prop
  | none => u.posted = false
  | some x => u.posted = true ∧ u.lastUartLen = 16 ∧ load u.uartBuf 0 minReturn = x.bytes

structure Kept (p : Progress) (s : Station) : Prop where
  sent : s.sent = p.heard ++ p.queued.toList ++ p.coming.toList
  told : List.Forall₂ Heard p.heard s.told
  queued : Holds s.uart p.queued
  coming : s.tty ++ s.wire = (p.coming.map Sent.bytes).getD []
  vmin : s.vmin = minReturn

variable {p : Progress} {s t : Station}

theorem Kept.of_enabled (h : Enabled s) : Kept ⟨[], none, none⟩ s := by
  obtain ⟨hwire, htty, hvmin, hposted, hsent, htold⟩ := h
  refine ⟨hsent, ?_, hposted, ?_, hvmin⟩
  · rw [htold]
    exact .nil
  · rw [hwire, htty]
    rfl

theorem Kept.quiet (h : Kept p s) (htty : s.tty = []) (hwire : s.wire = []) : p.coming = none := by
  have hcoming := h.coming
  rw [htty, hwire] at hcoming
  cases hc : p.coming with
  | none => rfl
  | some x =>
    rw [hc] at hcoming
    have hlength := length_bytes x
    rw [show x.bytes = [] from hcoming.symm] at hlength
    cases hlength

theorem Kept.card (h : Kept p s) (htty : s.tty = []) (hwire : s.wire = []) (x : Sent) :
    Kept { p with coming := some x } { s with wire := x.bytes, sent := s.sent ++ [x] } := by
  have hsent := h.sent
  rw [h.quiet htty hwire] at hsent
  refine ⟨?_, h.told, h.queued, ?_, h.vmin⟩
  · dsimp only
    rw [hsent, Option.toList_none, List.append_nil]
    rfl
  · dsimp only
    rw [htty]
    rfl

theorem Kept.arrive (h : Kept p s) {c : UInt8} {wire : List UInt8} (hwire : s.wire = c :: wire) :
    Kept p { s with wire := wire, tty := s.tty ++ [c] } := by
  refine ⟨h.sent, h.told, h.queued, ?_, h.vmin⟩
  have hcoming := h.coming
  rw [hwire] at hcoming
  dsimp only
  rw [List.append_assoc]
  exact hcoming

/-- When 16 characters have come in they are a frame. -/
theorem Kept.ready (h : Kept p s) (hready : minReturn ≤ s.tty.length) :
    ∃ x, p.coming = some x ∧ s.tty = x.bytes ∧ s.wire = [] := by
  have hcoming := h.coming
  cases hc : p.coming with
  | none =>
    rw [hc] at hcoming
    rw [(List.append_eq_nil_iff.mp hcoming).1] at hready
    exact absurd hready (by decide)
  | some x =>
    rw [hc] at hcoming
    have hlength := congrArg List.length hcoming
    rw [Option.map_some, Option.getD_some, List.length_append, length_bytes] at hlength
    have hwire : s.wire = [] := List.length_eq_zero_iff.mp (by omega)
    rw [hwire, List.append_nil] at hcoming
    exact ⟨x, rfl, hcoming, hwire⟩

theorem step_read {u : Uart} (hposted : u.posted = false) (x : Sent) :
    UartReceive.step u (.receiveReady (.bytes x.bytes)) = some
      { u with
        uartBuf := store u.uartBuf 0 x.bytes
        lastRead := x.bytes
        lastUartLen := 16
        posted := true } := by
  have hlength : x.bytes.length = 16 := length_bytes x
  simp only [UartReceive.step, receiveReady, hposted, hlength]
  rfl

theorem Kept.read (h : Kept p s) (hqueued : p.queued = none) {x : Sent}
    (hcoming : p.coming = some x) (htty : s.tty = x.bytes) (hwire : s.wire = []) :
    ∃ t, step s .receiveReady = some t ∧ t.sent = s.sent ∧ Kept ⟨p.heard, some x, none⟩ t := by
  have hposted : s.uart.posted = false := by
    have hholds := h.queued
    rwa [hqueued] at hholds
  have hsent := h.sent
  rw [hqueued, hcoming] at hsent
  have hready : max 1 s.vmin ≤ s.tty.length := by
    rw [htty, length_bytes, h.vmin]
    decide
  have hfit : s.tty.length ≤ uartBufLen := by
    rw [htty, length_bytes]
    decide
  have htake : s.tty.take uartBufLen = x.bytes := by rw [List.take_of_length_le hfit, htty]
  have hdrop : s.tty.drop uartBufLen = [] := List.drop_of_length_le hfit
  rw [step, if_pos hready, htake, hdrop, step_read hposted, Option.map_some]
  refine ⟨_, rfl, rfl, ?_, h.told, ⟨rfl, rfl, ?_⟩, ?_, h.vmin⟩
  · simpa using hsent
  · rw [← length_bytes x]
    exact load_store s.uart.uartBuf 0 x.bytes
  · exact hwire

theorem Kept.task (h : Kept p s) {x : Sent} (hqueued : p.queued = some x) :
    ∃ t, step s .task = some t ∧ t.sent = s.sent ∧ t.tty = s.tty ∧ t.wire = s.wire ∧
      Kept ⟨p.heard ++ [x], none, p.coming⟩ t := by
  have hholds := h.queued
  rw [hqueued] at hholds
  obtain ⟨hposted, hlen, hload⟩ := hholds
  have hsent := h.sent
  rw [hqueued] at hsent
  have hheard := heard_receive x hload s.uart.reader
  have hnotified : notified (uartRecvTask s.uart) =
      (RfidReader.receive s.uart.uartBuf 16 s.uart.reader).1 := by
    rw [notified, uartRecvTask, hlen]
    rfl
  have hstep : UartReceive.step s.uart .task = some (uartRecvTask s.uart) := if_pos hposted
  rw [step, hstep, Option.map_some, hnotified]
  refine ⟨_, rfl, rfl, rfl, rfl, ?_, ?_, rfl, h.coming, h.vmin⟩
  · dsimp only
    rw [hsent, Option.toList_some, Option.toList_none, List.append_nil]
  · exact List.rel_append h.told (.cons hheard .nil)

theorem Kept.reader (h : Kept p s) (reader : Reader) (stored : Bool) :
    Kept p { s with
      uart := { s.uart with reader := reader }
      vmin := setserial stored s.vmin } := by
  refine ⟨h.sent, h.told, ?_, h.coming, ?_⟩
  · cases hq : p.queued <;> simpa [Holds, hq] using h.queued
  · unfold setserial
    rw [h.vmin, ite_self]

theorem kept_step {e : Event} (h : Kept p s) (met : InPace s e) (hst : step s e = some t) :
    ∃ q, Kept q t := by
  cases e with
  | card x =>
    obtain ⟨hwire, hst⟩ := Option.ite_none_right_eq_some.mp hst
    obtain rfl := Option.some.inj hst
    exact ⟨_, h.card met hwire x⟩
  | arrive =>
    cases hwire : s.wire with
    | nil =>
      rw [step, hwire] at hst
      cases hst
    | cons c wire =>
      rw [step, hwire] at hst
      obtain rfl := Option.some.inj hst
      exact ⟨p, h.arrive hwire⟩
  | receiveReady =>
    obtain ⟨hready, hread⟩ := Option.ite_none_right_eq_some.mp hst
    obtain ⟨uart, huart, -⟩ := Option.map_eq_some_iff.mp hread
    have hposted := (step_receiveReady huart).1
    have hqueued : p.queued = none := by
      have hholds := h.queued
      cases hq : p.queued with
      | none => rfl
      | some x =>
        rw [hq] at hholds
        rw [hholds.1] at hposted
        cases hposted
    obtain ⟨x, hcoming, htty, hwire⟩ := h.ready (h.vmin ▸ le_of_max_le_right hready)
    obtain ⟨u, hu, -, hkept⟩ := h.read hqueued hcoming htty hwire
    obtain rfl := Option.some.inj (hu.symm.trans hst)
    exact ⟨_, hkept⟩
  | task =>
    obtain ⟨uart, huart, -⟩ := Option.map_eq_some_iff.mp hst
    cases hq : p.queued with
    | none =>
      have hholds := h.queued
      rw [hq] at hholds
      rw [UartReceive.step, if_neg (by rw [show s.uart.posted = false from hholds]; decide)] at huart
      cases huart
    | some x =>
      obtain ⟨u, hu, -, -, -, hkept⟩ := h.task hq
      obtain rfl := Option.some.inj (hu.symm.trans hst)
      exact ⟨_, hkept⟩
  | enable stored =>
    obtain rfl := Option.some.inj hst
    exact ⟨p, h.reader _ stored⟩
  | disable =>
    obtain rfl := Option.some.inj hst
    exact ⟨p, h.reader _ false⟩

theorem Kept.hear (h : Kept p s) : ∃ es t, machine.run s es = some t ∧ t.sent = s.sent ∧
    Kept ⟨p.heard ++ p.queued.toList, none, p.coming⟩ t := by
  cases hq : p.queued with
  | none =>
    refine ⟨[], s, rfl, rfl, ?_⟩
    rw [Option.toList_none, List.append_nil, ← hq]
    exact h
  | some x =>
    obtain ⟨t, ht, hsent, -, -, hkept⟩ := h.task hq
    refine ⟨[.task], t, ?_, hsent, hkept⟩
    rw [Machine.run_cons]
    exact (Option.bind_eq_some_iff.mpr ⟨t, ht, rfl⟩)

theorem run_arrive (s : Station) : machine.run s (List.replicate s.wire.length .arrive) =
    some { s with wire := [], tty := s.tty ++ s.wire } := by
  obtain ⟨wire, tty, vmin, uart, sent, told⟩ := s
  induction wire generalizing tty with
  | nil => simp [Machine.run]
  | cons c wire ih =>
    rw [List.length_cons, List.replicate_succ, Machine.run_cons]
    have hstep : machine.step ⟨c :: wire, tty, vmin, uart, sent, told⟩ .arrive =
        some ⟨wire, tty ++ [c], vmin, uart, sent, told⟩ := rfl
    rw [hstep, Option.bind_some, ih]
    simp

theorem Kept.come {heard : List Sent} {coming : Option Sent} (h : Kept ⟨heard, none, coming⟩ s) :
    ∃ es t, machine.run s es = some t ∧ t.sent = s.sent ∧ Kept ⟨heard, coming, none⟩ t := by
  cases coming with
  | none => exact ⟨[], s, rfl, rfl, h⟩
  | some x =>
    have harrived : Kept ⟨heard, none, some x⟩ { s with wire := [], tty := s.tty ++ s.wire } :=
      ⟨h.sent, h.told, h.queued, (List.append_nil _).trans h.coming, h.vmin⟩
    obtain ⟨t, ht, hsent, hkept⟩ := harrived.read rfl rfl h.coming rfl
    refine ⟨List.replicate s.wire.length .arrive ++ [.receiveReady], t, ?_, hsent, hkept⟩
    rw [Machine.run_append, run_arrive, Option.bind_some, Machine.run_cons]
    exact Option.bind_eq_some_iff.mpr ⟨t, ht, rfl⟩

theorem Kept.settles (h : Kept p s) : ∃ es t, machine.run s es = some t ∧ t.sent = s.sent ∧
    t.told.length = s.sent.length := by
  obtain ⟨es, t, ht, htsent, hheard⟩ := h.hear
  obtain ⟨fs, u, hu, husent, hcome⟩ := hheard.come
  obtain ⟨gs, v, hv, hvsent, hall⟩ := hcome.hear
  have hsent := hall.sent
  rw [Option.toList_none, List.append_nil, List.append_nil] at hsent
  refine ⟨es ++ fs ++ gs, v, ?_, hvsent.trans (husent.trans htsent), ?_⟩
  · rw [Machine.run_append, Machine.run_append, ht, Option.bind_some, hu, Option.bind_some, hv]
  · rw [hall.told.length_eq.symm, ← hsent, hvsent, husent, htsent]

theorem Kept.told_sent (h : Kept p s) : Told s := by
  have hlength : s.told.length = p.heard.length := h.told.length_eq.symm
  have htake : s.sent.take s.told.length = p.heard := by
    rw [h.sent, hlength, List.append_assoc, List.take_left]
  have hsent := congrArg List.length h.sent
  rw [List.length_append, List.length_append] at hsent
  have hqueued := Option.length_toList_le (o := p.queued)
  have hcoming := Option.length_toList_le (o := p.coming)
  exact ⟨htake ▸ h.told, by omega, h.settles⟩

def sampleCard : Card where
  code := #v[0x0a, 0x1b, 0x2c, 0x3d, 0x4e]
  frame := sampleFrame
  nonzero := by decide
  length := rfl
  spelled := frame_congr sampleBuf_frame (by decide)

def reading : List Event := List.replicate 16 Event.arrive ++ [Event.receiveReady]

/-- A card, the same again with a digit damaged before the first is heard, and once more when the
reader is disabled, and enabled too late. -/
def session : List Event := List.flatten [
  [.card ⟨sampleCard, none⟩], reading,
  [.card ⟨sampleCard, some (2, 0x3f)⟩, .task], reading, [.task, .disable],
  [.card ⟨sampleCard, none⟩], reading, [.task, .enable false]]

def enabled : Station := ⟨[], [], 16, { bootedUart with reader := ⟨true, .replicate 5 0⟩ }, [], []⟩

end RpiCc2520.RfidStation
