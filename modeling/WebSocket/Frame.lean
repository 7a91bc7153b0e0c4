import WebSocket.Mask
import WebSocket.Opcode
import WebSocket.Close.Status

/-!
# Frames

A frame is the unit that is sent: a piece of a message, or a control frame. Its payload is held
unmasked; `mask` is the key that hides it on the wire.
-/

namespace WebSocket

/-- A **frame**. -/
structure Frame where
  /-- Whether this is the last frame of its message. -/
  fin : Bool
  /-- The three reserved bits; no extension uses them, so they must be zero on the wire. -/
  rsv : UInt8
  opcode : Opcode
  /-- The key that hides the payload on the wire, if any. -/
  mask : Option Mask
  payload : Bytes
  deriving DecidableEq, Repr, Inhabited

namespace Frame

/-- The most payload that a control frame may carry. -/
def maxControlPayload : Nat := 125

/-- A final frame with no reserved bit and no mask. -/
def ofPayload (opcode : Opcode) (payload : Bytes) : Frame :=
  ⟨true, 0, opcode, none, payload⟩

def text (payload : Bytes) : Frame := ofPayload .text payload

def binary (payload : Bytes) : Frame := ofPayload .binary payload

def continuation (payload : Bytes) : Frame := ofPayload .continuation payload

def ping (payload : Bytes) : Frame := ofPayload .ping payload

def pong (payload : Bytes) : Frame := ofPayload .pong payload

/-- A close frame; with no status its payload is empty. -/
def close (status : Option Close.Status) : Frame :=
  ofPayload .close ((status.map Close.Status.payload).getD [])

/-- Close, ping and pong frames. -/
def isControl (f : Frame) : Bool := f.opcode.isControl

/-- The rule that a control frame of the given payload length breaks, if it breaks one. -/
def controlViolation? (opcode : Opcode) (fin : Bool) (length : Nat) : Option Violation :=
  if opcode.isControl then
    if maxControlPayload < length then some (.controlFrameTooLarge length)
    else if fin then none
    else some (.fragmentedControlFrame opcode)
  else none

end Frame

end WebSocket
