import WebSocket.Handshake.Failure
import WebSocket.Message.Assembly

/-!
# Phases, events and errors of a connection

A connection begins `connecting`, is `opened` by a handshake, is `closing` once either end has
asked for the end, and ends `closed`. What the peer sends reaches the application as events.
Whatever an operation on a connection can fail with is a `ConnectionError`.
-/

namespace WebSocket

/-- The **phase** of a connection's life. -/
inductive Phase where
  | connecting
  | opened
  | closing
  | closed
  deriving DecidableEq, Repr, Inhabited

namespace Phase

/-- The phase in words. -/
def name : Phase → String
  | connecting => "Connecting"
  | opened => "Open"
  | closing => "Closing"
  | closed => "Closed"

end Phase

/-- Why an address cannot be **dialled**. -/
inductive AddressFlaw where
  /-- The address asks for an encrypted transport. -/
  | encryptedScheme
  | httpScheme
  | httpsScheme
  | otherScheme
  | missingScheme
  | missingHost
  deriving DecidableEq, Repr, Inhabited

namespace AddressFlaw

/-- The flaw in words. -/
def message : AddressFlaw → String
  | encryptedScheme => "wss requires TLS termination, wrap the stream with Connection::client"
  | httpScheme => "http scheme is not supported for WebSocket"
  | httpsScheme => "https scheme is not supported for WebSocket"
  | otherScheme => "unsupported URI scheme for WebSocket"
  | missingScheme => "missing URI scheme"
  | missingHost => "missing host"

end AddressFlaw

/-- What an **operation** on a connection fails with. -/
inductive ConnectionError where
  /-- The operation is not for this phase. -/
  | invalidState (phase : Phase)
  | connectionClosed
  /-- The peer did not answer in time. -/
  | timeout
  /-- The code is never to be sent. -/
  | reservedCloseCode (code : Close.Code)
  /-- A ping with too much payload. -/
  | payloadTooLarge (length : Nat)
  | invalidAddress (flaw : AddressFlaw)
  /-- Nobody could be reached at the address. -/
  | unreachable (reason : String)
  | handshake (failure : Handshake.Failure)
  | codec (fault : Fault)
  deriving DecidableEq, Repr, Inhabited

namespace ConnectionError

/-- The error in words. -/
def message : ConnectionError → String
  | invalidState phase => "Operation not permitted while " ++ phase.name
  | connectionClosed => "WebSocket closed"
  | timeout => "Timed out waiting for the peer"
  | reservedCloseCode code => "Close code " ++ code.describe ++ " is reserved"
  | payloadTooLarge length => s!"Control payload of {length} bytes exceeds 125"
  | invalidAddress flaw => "Invalid URI: " ++ flaw.message
  | unreachable reason => "Failed to connect to server: " ++ reason
  | handshake failure => "Handshake failed: " ++ failure.message
  | codec fault => "Codec error: " ++ fault.message

end ConnectionError

/-- What the peer **has sent**, as the application receives it. -/
inductive Event where
  | message (m : Message)
  | ping (payload : Bytes)
  | pong (payload : Bytes)
  /-- The peer has asked for the end; its close frame may carry a status. -/
  | close (status : Option Close.Status)
  deriving DecidableEq, Repr

end WebSocket
