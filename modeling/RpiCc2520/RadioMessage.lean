import Mathlib

/-! Message buffers of the radio stack and the metadata the layers keep in them. -/
namespace RpiCc2520.RadioMessage

/-- Addresses of `message_t` buffers on the 32-bit target. -/
abbrev Ptr := UInt32

/-! `error_t` of TinyOS, an 8-bit code. -/
def success : UInt8 := 0
def fail : UInt8 := 1
def ecancel : UInt8 := 3
def ebusy : UInt8 := 5

/-- A `message_t`: the header and the data as one byte region of more than 128 bytes,
followed by the metadata. `TOSH_DATA_LENGTH` is 128, so a frame never reaches the metadata. -/
structure Message where
  bytes : ℕ → UInt8
  maxRetries : UInt16
  retryDelay : UInt16
  ack : UInt8
  lqi : UInt8
  rssi : UInt8
  timestamp : UInt64
  deriving Inhabited

namespace Message

def getRetries (msg : Message) : UInt16 := msg.maxRetries
def getRetryDelay (msg : Message) : UInt16 := msg.retryDelay
def wasAcked (msg : Message) : Bool := msg.ack != 0
def setRetries (msg : Message) (n : UInt16) : Message := { msg with maxRetries := n }
def setWasAcked (msg : Message) (ack : Bool) : Message :=
  { msg with ack := if ack then 1 else 0 }
def getLqi (msg : Message) : UInt8 := msg.lqi
def getRssi (msg : Message) : UInt8 := msg.rssi
def setLqi (msg : Message) (lqi : UInt8) : Message := { msg with lqi := lqi }
def setRssi (msg : Message) (rssi : UInt8) : Message := { msg with rssi := rssi }
def setTimestamp (msg : Message) (t : UInt64) : Message := { msg with timestamp := t }

/-- The low byte of the little-endian frame control field is byte 1; bit 5 asks for an ack. -/
def requestAck (msg : Message) : Message :=
  { msg with bytes := Function.update msg.bytes 1 (msg.bytes 1 ||| 0x20) }

/-- What `Send.send` of the radio layer writes: the length byte counts the two CRC bytes but
not itself, and the sequence number follows the frame control field. -/
def setHeader (msg : Message) (len dsn : UInt8) : Message :=
  { msg with bytes := Function.update (Function.update msg.bytes 0 (len + 1)) 3 dsn }

theorem setHeader_length (msg : Message) (len dsn : UInt8) :
    (msg.setHeader len dsn).bytes 0 = len + 1 := rfl

@[simp] theorem wasAcked_setWasAcked (msg : Message) (ack : Bool) :
    (msg.setWasAcked ack).wasAcked = ack := by
  cases ack <;> rfl

@[simp] theorem getRetries_requestAck (msg : Message) :
    msg.requestAck.getRetries = msg.getRetries := rfl

end Message
end RpiCc2520.RadioMessage
