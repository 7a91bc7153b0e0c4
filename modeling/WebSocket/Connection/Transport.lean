import WebSocket.Bytes

/-!
# Transports

A connection runs over two streams of bytes, one in each direction. The transport holds what is on
its way: bytes from the peer that were not read yet, and bytes for the peer that it has not taken
yet. The peer may end its own stream, or go away altogether, after which nothing can be written. A
transport that is stalled takes no bytes for the time being.
-/

namespace WebSocket

/-- How a stream of bytes **ends**. -/
inductive Ending where
  | ended
  | failed (reason : String)
  deriving DecidableEq, Repr, Inhabited

/-- The **two streams** under a connection. -/
structure Transport where
  /-- Bytes from the peer, not read yet. -/
  incoming : Bytes := []
  /-- How the peer's stream ends behind those bytes, once it does. -/
  ending : Option Ending := none
  /-- Bytes for the peer, not taken yet. -/
  outgoing : Bytes := []
  /-- Whether this end has ended its stream. -/
  shut : Bool := false
  /-- Whether the peer has gone away, so that writing fails. -/
  broken : Bool := false
  /-- Whether writing has to wait. -/
  stalled : Bool := false
  deriving DecidableEq, Repr, Inhabited

namespace Transport

/-- What writing fails with when the peer has gone away. -/
def brokenPipe : String := "broken pipe"

/-- The outcome of an attempt to **write**. -/
inductive Written where
  /-- The transport takes nothing now. -/
  | stalled
  /-- The peer has gone away. -/
  | broken
  | done (t : Transport)
  deriving DecidableEq, Repr

/-- Writes all of some bytes. Writing nothing always succeeds. -/
def write (t : Transport) (b : Bytes) : Written :=
  if b.isEmpty then .done t
  else if t.broken then .broken
  else if t.stalled then .stalled
  else .done { t with outgoing := t.outgoing ++ b }

/-- Whether everything that will ever come from the peer has been read. -/
def isExhausted (t : Transport) : Bool := t.incoming.isEmpty && t.ending.isSome

end Transport

end WebSocket
