import RpiCc2520.EventMachine

/-! Control of the radio: the module keeps the settings, the driver is told them with `ioctl`. -/
namespace RpiCc2520.RadioControl

abbrev Eui64 := Vector UInt8 8

/-- `struct cc2520_set_address_data`, the extended address byte by byte. -/
structure AddressData where
  shortAddr : UInt16
  extendedAddr : Eui64
  panId : UInt16
  deriving DecidableEq

structure LplData where
  window : UInt32
  interval : UInt32
  enabled : Bool
  deriving DecidableEq

inductive Request
  | init
  | on
  | off
  | setChannel (channel : UInt8)
  | setAddress (data : AddressData)
  | setTxpower (txpower : UInt8)
  | setAck (timeout : UInt32)
  | setLpl (data : LplData)
  | setPrint (debugLevel : UInt8)
  deriving DecidableEq

/-- What the makefiles and `RadioConfig.h` define. -/
structure Build where
  tosNodeId : UInt16
  defChannel : UInt8
  panId : UInt16
  defRfpower : UInt8
  lplWindow : UInt32
  lplData : LplData
  debugLevel : UInt8
  disabled : lplData.enabled = false

/-- The module, the requests it made of the driver, and whether the radio is to be on: the last it
heard was not that it is to stop. -/
structure Control where
  cc2520File : Option ℕ
  addrData : AddressData
  lplData : LplData
  lplInterval : UInt16
  extAddr : Eui64
  sequenceNumber : UInt8
  requests : List Request
  on : Bool

def zeroes : Eui64 := Vector.replicate 8 0

variable (b : Build)

def boot : Control :=
  ⟨none, ⟨0, zeroes, b.panId⟩, b.lplData, 0, zeroes, 0, [], false⟩

/-- Without a file a request goes nowhere. -/
def ioctl (rs : List Request) (s : Control) : Control :=
  if s.cc2520File = none then s else { s with requests := s.requests ++ rs }

/-- `sum += ext_addr.data[i]` for all eight bytes. -/
def addBytes (sum : UInt16) (id : Eui64) : UInt16 :=
  id.toList.foldl (fun sum byte => sum + byte.toUInt16) sum

/-- `getId` is called until the sum is not zero. -/
def validId (sum : UInt16) : List Eui64 → Option Eui64
  | [] => none
  | id :: ids =>
      let sum := addBytes sum id
      if sum = 0 then validId sum ids else some id

/-- `SplitControl.start`, with the file the driver opens and the answers of `getId`. Without a file
the process ends. -/
def start (file : Option ℕ) (ids : List Eui64) (s : Control) : Option Control :=
  match file with
  | none => none
  | some file => (validId 0 ids).map fun id =>
      let s := { s with
        cc2520File := some file
        sequenceNumber := b.tosNodeId.toUInt8 <<< 3
        extAddr := id
        addrData := { s.addrData with shortAddr := b.tosNodeId, extendedAddr := id.reverse }
        on := true }
      ioctl [.setChannel b.defChannel, .setAddress s.addrData, .setAck 5000,
        .setTxpower b.defRfpower, .setLpl s.lplData, .setPrint b.debugLevel, .init, .on] s

def stop (s : Control) : Control := ioctl [.off] { s with on := false }

def setLocalWakeupInterval (interval : UInt16) (s : Control) : Control :=
  let told (lplData : LplData) : Control :=
    ioctl [.off, .setLpl lplData, .on] { s with
      lplData := lplData, lplInterval := interval, on := s.on || s.cc2520File.isSome }
  if interval = 0 then told { s.lplData with enabled := false }
  else if interval ≠ s.lplInterval then told ⟨b.lplWindow, interval.toUInt32, true⟩
  else { s with lplInterval := interval }

def getLocalWakeupInterval (s : Control) : UInt16 := s.lplInterval

def getExtAddr (s : Control) : Eui64 × Control :=
  let s := { s with extAddr := s.addrData.extendedAddr }
  (s.extAddr, s)

inductive Event
  | start (file : Option ℕ) (ids : List Eui64)
  | stop
  | setLocalWakeupInterval (interval : UInt16)
  | getExtAddr

def step (s : Control) : Event → Option Control
  | .start file ids => start b file ids s
  | .stop => some (stop s)
  | .setLocalWakeupInterval interval => some (setLocalWakeupInterval b interval s)
  | .getExtAddr => some (getExtAddr s).2

def machine : Machine Control Event := ⟨fun s => s = boot b, step b⟩

/-- The radio is started when it is not on. -/
def InTurn (s : Control) : Event → Prop
  | .start _ _ => s.on = false
  | _ => True

instance (s : Control) (e : Event) : Decidable (InTurn s e) := by
  cases e <;> unfold InTurn <;> infer_instance

/-- A driver that takes settings only while the radio is off, and turns it on only when it has all of
them and was initialized. -/
structure Driver where
  channel : Option UInt8
  address : Option AddressData
  txpower : Option UInt8
  ack : Option UInt32
  lpl : Option LplData
  print : Option UInt8
  initialized : Bool
  on : Bool
  deriving DecidableEq

def Driver.set (d t : Driver) : Option Driver := if d.on then none else some t

def Driver.ioctl (d : Driver) : Request → Option Driver
  | .setChannel channel => d.set { d with channel := some channel }
  | .setAddress data => d.set { d with address := some data }
  | .setTxpower txpower => d.set { d with txpower := some txpower }
  | .setAck timeout => d.set { d with ack := some timeout }
  | .setLpl data => d.set { d with lpl := some data }
  | .setPrint debugLevel => d.set { d with print := some debugLevel }
  | .init => d.set { d with initialized := true }
  | .off => some { d with on := false }
  | .on =>
      if d.channel.isSome ∧ d.address.isSome ∧ d.txpower.isSome ∧ d.ack.isSome ∧ d.lpl.isSome ∧
          d.print.isSome ∧ d.initialized then some { d with on := true }
      else none

def Driver.fresh : Driver := ⟨none, none, none, none, none, none, false, false⟩

/-- What the requests leave the driver with, if it takes them all. -/
def serve (d : Driver) (rs : List Request) : Option Driver := rs.foldlM Driver.ioctl d

/-- The driver the module believes in. -/
def believed (s : Control) : Driver :=
  ⟨some b.defChannel, some s.addrData, some b.defRfpower, some 5000, some s.lplData,
    some b.debugLevel, true, s.on⟩

/-- The driver takes every request and has the settings the module has. Low power listening is on
just when the interval is not zero, with the interval it was given. The node has an address of its
own. -/
structure Agreed (s : Control) : Prop where
  unopened : s.cc2520File = none → s.requests = [] ∧ s.on = false
  served : s.cc2520File ≠ none → serve Driver.fresh s.requests = some (believed b s)
  listening : s.lplData = if getLocalWakeupInterval s = 0 then { s.lplData with enabled := false }
    else ⟨b.lplWindow, (getLocalWakeupInterval s).toUInt32, true⟩
  panId : s.addrData.panId = b.panId
  address : s.cc2520File ≠ none →
    s.addrData.shortAddr = b.tosNodeId ∧ s.addrData.extendedAddr ≠ zeroes

theorem serve_append (d : Driver) (rs qs : List Request) :
    serve d (rs ++ qs) = (serve d rs).bind fun d => serve d qs :=
  List.foldlM_append

theorem toNat_addBytes (sum : UInt16) (bytes : List UInt8)
    (h : sum.toNat + bytes.length * 255 < 2 ^ 16) :
    (bytes.foldl (fun sum byte => sum + byte.toUInt16) sum).toNat =
      sum.toNat + (bytes.map UInt8.toNat).sum := by
  induction bytes generalizing sum with
  | nil => rfl
  | cons byte bytes ih =>
    have hbyte := byte.toNat_lt
    rw [List.length_cons] at h
    have hsum : (sum + byte.toUInt16).toNat = sum.toNat + byte.toNat := by
      rw [UInt16.toNat_add, UInt8.toNat_toUInt16]
      exact Nat.mod_eq_of_lt (by omega)
    rw [List.foldl_cons, ih _ (by omega), hsum, List.map_cons, List.sum_cons, Nat.add_assoc]

theorem addBytes_eq_zero (id : Eui64) : addBytes 0 id = 0 ↔ id = zeroes := by
  have hsum := toNat_addBytes 0 id.toList (by simp)
  rw [addBytes, ← UInt16.toNat_inj, hsum, UInt16.toNat_zero, Nat.zero_add, List.sum_eq_zero_iff]
  constructor
  · intro hzero
    apply Vector.ext
    intro i hi
    have hmem := hzero _ (List.mem_map_of_mem (Vector.mem_toList_iff.mpr (Vector.getElem_mem hi)))
    rw [zeroes, Vector.getElem_replicate]
    exact UInt8.toNat_inj.mp hmem
  · rintro rfl n hn
    obtain ⟨byte, hbyte, rfl⟩ := List.mem_map.mp hn
    rw [zeroes, Vector.mem_toList_iff, Vector.mem_replicate] at hbyte
    rw [hbyte.2]
    rfl

theorem validId_eq_find? (ids : List Eui64) : validId 0 ids = ids.find? (· ≠ zeroes) := by
  induction ids with
  | nil => rfl
  | cons id ids ih =>
    by_cases hid : id = zeroes
    · have hzero := (addBytes_eq_zero id).mpr hid
      rw [List.find?_cons_of_neg (by simpa using hid), ← ih]
      simp only [validId, hzero, if_true]
    · have hzero := mt (addBytes_eq_zero id).mp hid
      rw [List.find?_cons_of_pos (by simpa using hid)]
      simp only [validId, hzero, if_false]

theorem validId_ne {ids : List Eui64} {id : Eui64} (h : validId 0 ids = some id) :
    id ≠ zeroes := by
  rw [validId_eq_find?] at h
  simpa using List.find?_some h

/-- A driver whose radio is off takes all that `SplitControl.start` tells it. -/
theorem serve_start {d : Driver} (hoff : d.on = false) (channel : UInt8) (address : AddressData)
    (ack : UInt32) (txpower : UInt8) (lpl : LplData) (print : UInt8) :
    serve d [.setChannel channel, .setAddress address, .setAck ack, .setTxpower txpower,
      .setLpl lpl, .setPrint print, .init, .on] =
      some ⟨some channel, some address, some txpower, some ack, some lpl, some print, true, true⟩ := by
  obtain ⟨_, _, _, _, _, _, _, on⟩ := d
  obtain rfl : on = false := hoff
  rfl

theorem serve_interval (s : Control) (lpl : LplData) :
    serve (believed b s) [.off, .setLpl lpl, .on] =
      some (believed b { s with lplData := lpl, on := true }) := rfl

variable {b} {s t : Control}

theorem agreed_boot : Agreed b (boot b) := by
  constructor
  · exact fun _ => ⟨rfl, rfl⟩
  · exact fun h => absurd rfl h
  · have hoff := b.disabled
    change b.lplData = { b.lplData with enabled := false }
    rw [← hoff]
  · rfl
  · exact fun h => absurd rfl h

theorem Agreed.served_off (h : Agreed b s) (hoff : s.on = false) :
    ∃ d, serve Driver.fresh s.requests = some d ∧ d.on = false := by
  by_cases hfile : s.cc2520File = none
  · rw [(h.unopened hfile).1]
    exact ⟨Driver.fresh, rfl, rfl⟩
  · exact ⟨believed b s, h.served hfile, hoff⟩

theorem Agreed.start (h : Agreed b s) (hoff : s.on = false) {file : Option ℕ} {ids : List Eui64}
    (hst : start b file ids s = some t) : Agreed b t := by
  cases file with
  | none => cases hst
  | some file =>
    obtain ⟨id, hid, rfl⟩ := Option.map_eq_some_iff.mp hst
    obtain ⟨d, hd, hdoff⟩ := h.served_off hoff
    have hne : some file ≠ none := Option.some_ne_none file
    rw [ioctl, if_neg hne]
    constructor
    · exact fun hfile => absurd hfile hne
    · intro _
      rw [serve_append, hd, Option.bind_some, serve_start hdoff]
      rfl
    · exact h.listening
    · exact h.panId
    · refine fun _ => ⟨rfl, fun hzero => validId_ne hid ?_⟩
      have hrev : id = zeroes.reverse := Vector.reverse_eq_iff.mp hzero
      rw [hrev, zeroes, Vector.reverse_replicate]

theorem Agreed.stop (h : Agreed b s) : Agreed b (stop s) := by
  by_cases hfile : s.cc2520File = none
  · rw [RadioControl.stop, ioctl, if_pos hfile]
    exact ⟨fun _ => ⟨(h.unopened hfile).1, rfl⟩, fun hf => absurd hfile hf, h.listening, h.panId,
      h.address⟩
  · rw [RadioControl.stop, ioctl, if_neg hfile]
    refine ⟨fun hf => absurd hf hfile, fun _ => ?_, h.listening, h.panId, h.address⟩
    rw [serve_append, h.served hfile]
    rfl

theorem Agreed.interval (h : Agreed b s) (interval : UInt16) (lpl : LplData)
    (hlpl : lpl = if interval = 0 then { lpl with enabled := false }
      else ⟨b.lplWindow, interval.toUInt32, true⟩) :
    Agreed b (ioctl [.off, .setLpl lpl, .on] { s with
      lplData := lpl, lplInterval := interval, on := s.on || s.cc2520File.isSome }) := by
  by_cases hfile : s.cc2520File = none
  · rw [ioctl, if_pos hfile]
    refine ⟨fun _ => ⟨(h.unopened hfile).1, ?_⟩, fun hf => absurd hfile hf, hlpl, h.panId, h.address⟩
    rw [(h.unopened hfile).2, hfile]
    rfl
  · rw [ioctl, if_neg hfile]
    refine ⟨fun hf => absurd hf hfile, fun _ => ?_, hlpl, h.panId, h.address⟩
    have hsome := Option.isSome_iff_ne_none.mpr hfile
    rw [serve_append, h.served hfile, Option.bind_some, serve_interval, hsome, Bool.or_true]
    rfl

theorem Agreed.setLocalWakeupInterval (h : Agreed b s) (interval : UInt16) :
    Agreed b (setLocalWakeupInterval b interval s) := by
  unfold RadioControl.setLocalWakeupInterval
  dsimp only
  split_ifs with hzero hnew
  · exact h.interval interval _ (if_pos hzero).symm
  · exact h.interval interval _ (if_neg hzero).symm
  · -- the interval it has already: nothing is told
    obtain rfl : interval = s.lplInterval := not_not.mp hnew
    exact h

theorem Agreed.getExtAddr (h : Agreed b s) : Agreed b (getExtAddr s).2 :=
  ⟨h.unopened, h.served, h.listening, h.panId, h.address⟩

theorem Agreed.step {e : Event} (h : Agreed b s) (met : InTurn s e) (hst : step b s e = some t) :
    Agreed b t := by
  cases e with
  | start file ids => exact h.start met hst
  | stop =>
    obtain rfl := Option.some.inj hst
    exact h.stop
  | setLocalWakeupInterval interval =>
    obtain rfl := Option.some.inj hst
    exact h.setLocalWakeupInterval interval
  | getExtAddr =>
    obtain rfl := Option.some.inj hst
    exact h.getExtAddr

/-- Whatever the driver is told, and whether or not low power listening was set before the radio is
first started. -/
theorem agreed_of_reachable (b : Build) (s : Control) (h : (machine b).Reachable InTurn s) :
    Agreed b s := by
  apply h.invariant (I := Agreed b)
  · rintro s rfl
    exact agreed_boot
  · exact fun s e t hs met hst => hs.step met hst

def borderRouter : Build := ⟨5, 11, 0x22, 0x32, 320, ⟨0, 0, false⟩, 0, rfl⟩

def session : List Event :=
  [.setLocalWakeupInterval 512, .start (some 3) [zeroes, #v[0xc0, 0x98, 0xe5, 0, 0, 0, 0, 7]],
    .getExtAddr, .setLocalWakeupInterval 512, .setLocalWakeupInterval 0, .stop,
    .setLocalWakeupInterval 100]

/-- Low power listening is set before the start, then turned off. A new interval after the stop turns
the radio on again. -/
theorem agreed_of_reachable_session :
    ∃ s, (machine borderRouter).runMeeting InTurn (boot borderRouter) session = some s ∧
      s.on = true ∧ s.sequenceNumber = 40 ∧ s.requests.length = 15 ∧
      s.addrData.extendedAddr = #v[7, 0, 0, 0, 0, 0xe5, 0x98, 0xc0] ∧ Agreed borderRouter s := by
  have hseen : ((machine borderRouter).runMeeting InTurn (boot borderRouter) session).map
      (fun s => (s.on, s.sequenceNumber, s.requests.length, s.addrData.extendedAddr)) =
      some (true, 40, 15, #v[7, 0, 0, 0, 0, 0xe5, 0x98, 0xc0]) := by decide +kernel
  obtain ⟨s, hs, hout⟩ := Option.map_eq_some_iff.mp hseen
  simp only [Prod.mk.injEq] at hout
  have hboot : (machine borderRouter).Reachable InTurn (boot borderRouter) := .start rfl
  exact ⟨s, hs, hout.1, hout.2.1, hout.2.2.1, hout.2.2.2,
    agreed_of_reachable borderRouter s (hboot.runMeeting session hs)⟩

end RpiCc2520.RadioControl
