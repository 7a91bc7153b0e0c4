import WebSocket.Bytes

/-!
# Reading from the front of a buffer

Frames and handshake heads arrive in pieces. A reader looks at the bytes that have come so far and
finds the thing it looks for, finds that no bytes to come can make it right, or has to wait.
-/

namespace WebSocket

/-- The outcome of **reading one thing** from the front of a buffer. -/
inductive Scan (ε α : Type) where
  /-- The buffer ends too early to tell. -/
  | incomplete
  /-- The thing read, and the bytes behind it. -/
  | found (value : α) (rest : Bytes)
  /-- No bytes that might follow can mend the buffer. -/
  | fault (e : ε)
  deriving Repr

namespace Scan

/-- Reads one thing and then, **behind it**, the next. -/
def andThen {ε α β : Type} (s : Scan ε α) (next : α → Bytes → Scan ε β) : Scan ε β :=
  match s with
  | incomplete => incomplete
  | found value rest => next value rest
  | fault e => fault e

/-- Changes the thing read. -/
def map {ε α β : Type} (f : α → β) (s : Scan ε α) : Scan ε β :=
  s.andThen fun value rest => found (f value) rest

end Scan

end WebSocket
