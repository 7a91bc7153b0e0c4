import WebSocket.Opcode
import WebSocket.Close.Code

/-!
# What breaks the rules of framing

A `Violation` names the rule that a frame or a sequence of frames breaks. A `Fault` is anything
that ends a stream of frames: a violation, a frame or a message over its limit, or a transport
that fails.

Each of them has one text, and each but the last has a close code that tells the peer about it.
-/

namespace WebSocket

/-- A number in lower-case **hexadecimal** digits behind the mark for them. -/
def hexadecimal (n : Nat) : String := "0x" ++ String.ofList (Nat.toDigits 16 n)

/-- A number in at least three **binary** digits behind the mark for them. -/
def binaryFlags (n : Nat) : String :=
  let digits := Nat.toDigits 2 n
  "0b" ++ String.ofList (List.replicate (3 - digits.length) '0' ++ digits)

/-- Who must mask and who must not. -/
inductive MaskRule where
  | clientReceivesUnmasked
  | serverReceivesMasked
  | serverSendsUnmasked
  deriving DecidableEq, Repr, Inhabited

/-- The rule in words. -/
def MaskRule.text : MaskRule → String
  | clientReceivesUnmasked => "Client must not receive masked frames"
  | serverReceivesMasked => "Server must receive masked frames"
  | serverSendsUnmasked => "Server must not send masked frames"

/-- A **rule of framing** that was broken. -/
inductive Violation where
  /-- An opcode that is not assigned. -/
  | unknownOpcode (code : UInt8)
  /-- Reserved bits are set, and no extension was agreed on that uses them. -/
  | reservedBits (bits : UInt8)
  /-- A length of eight bytes whose top bit is set. -/
  | invalidLength (length : Nat)
  /-- A control frame with more than 125 bytes of payload. -/
  | controlFrameTooLarge (length : Nat)
  /-- A control frame that is not final. -/
  | fragmentedControlFrame (opcode : Opcode)
  /-- A mask where none may be, or none where one must be. -/
  | maskPolicy (rule : MaskRule)
  /-- A message begins while another is not complete. -/
  | unexpectedDataFrame
  /-- A continuation with no message to continue. -/
  | unexpectedContinuation
  /-- A text message that is not UTF-8. -/
  | invalidUtf8
  /-- A close frame with a payload of a single byte. -/
  | invalidClosePayload
  deriving DecidableEq, Repr, Inhabited

namespace Violation

/-- The violation in words. -/
def message : Violation → String
  | unknownOpcode code => "Unknown opcode " ++ hexadecimal code.toNat
  | reservedBits bits => "Reserved bits set: " ++ binaryFlags bits.toNat
  | invalidLength length =>
    "Payload length " ++ hexadecimal length ++ " has the most significant bit set"
  | controlFrameTooLarge length => s!"Control frame payload of {length} bytes exceeds 125"
  | fragmentedControlFrame opcode =>
    "Control frame " ++ opcode.name ++ " must not be fragmented"
  | maskPolicy rule => "Mask policy violation: " ++ rule.text
  | unexpectedDataFrame => "Data frame received while a fragmented message is in progress"
  | unexpectedContinuation => "Continuation frame without an initial data frame"
  | invalidUtf8 => "Text message is not valid UTF-8"
  | invalidClosePayload => "Close payload must be empty or at least 2 bytes"

/-- The code that tells the peer of the violation. -/
def closeCode : Violation → Close.Code
  | invalidUtf8 => .invalidPayloadData
  | _ => .protocolError

end Violation

/-- What **ends a stream of frames**. -/
inductive Fault where
  | violation (v : Violation)
  /-- A frame announces more payload than is accepted. -/
  | frameTooLarge (length : Nat)
  /-- A message has grown over the limit. -/
  | messageTooLarge (size limit : Nat)
  /-- The transport failed. -/
  | transport (reason : String)
  deriving DecidableEq, Repr, Inhabited

namespace Fault

/-- The fault in words. -/
def message : Fault → String
  | violation v => "Protocol violation: " ++ v.message
  | frameTooLarge length => s!"Frame too big: {length} bytes"
  | messageTooLarge size limit => s!"Message of {size} bytes exceeds the {limit} byte limit"
  | transport reason => "IO Error: " ++ reason

/-- The code that tells the peer of the fault; a transport that failed can carry none. -/
def closeCode? : Fault → Option Close.Code
  | violation v => some v.closeCode
  | frameTooLarge _ | messageTooLarge _ _ => some .messageTooBig
  | transport _ => none

end Fault

end WebSocket
