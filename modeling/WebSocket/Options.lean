/-!
# Options

The limits, times and preferences of one connection. Sizes are in bytes and times in milliseconds.
-/

namespace WebSocket

/-- The **options** of a connection. -/
structure Options where
  /-- The most payload accepted in one frame. -/
  maxFrameSize : Nat := 16 * 1024 * 1024
  /-- The most bytes accepted in one message, if there is a limit. -/
  maxMessageSize : Option Nat := some (64 * 1024 * 1024)
  /-- The most payload sent in one frame of a message. -/
  fragmentSize : Nat := 1024 * 1024
  /-- How long a ping waits for its pong. -/
  pingTimeout : Nat := 20000
  /-- How long draining waits for the peer's close frame. -/
  closeTimeout : Nat := 5000
  /-- The most bytes accepted in the head of a handshake. -/
  maxHandshakeSize : Nat := 8192
  /-- How many events wait to be received before the reader waits. -/
  eventBuffer : Nat := 64
  /-- The subprotocols offered by a client or supported by a server, the preferred one first. -/
  protocols : List String := []
  deriving DecidableEq, Repr, Inhabited

namespace Options

/-- Sends at most `size` bytes in a frame; zero counts as one. -/
def withFragmentSize (o : Options) (size : Nat) : Options :=
  { o with fragmentSize := max size 1 }

/-- Lets `capacity` events wait; zero counts as one. -/
def withEventBuffer (o : Options) (capacity : Nat) : Options :=
  { o with eventBuffer := max capacity 1 }

/-- Adds a subprotocol behind the others. -/
def withProtocol (o : Options) (protocol : String) : Options :=
  { o with protocols := o.protocols ++ [protocol] }

end Options

end WebSocket
