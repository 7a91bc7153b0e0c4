import WebSocket.Connection.Error

/-!
# Pings and their waiters

Every ping that was sent and not answered is in a queue, the oldest first. A pong that echoes a
ping acknowledges that ping **and every ping before it**. The application holds a waiter for each
ping. The waiter tells how long the pong took, or that it did not come in time, or that the
connection was closed first; which of these it is, is decided when the waiter is looked at.
-/

namespace WebSocket

/-- What has become of a ping. -/
inductive PingFate where
  | pending
  /-- A pong came at the given time. -/
  | acknowledged (time : Nat)
  /-- The connection closed before a pong came. -/
  | lost
  deriving DecidableEq, Repr, Inhabited

/-- The application's view of **a ping it has sent**. -/
structure Waiter where
  /-- The ping that is waited for. -/
  id : Nat
  sentAt : Nat
  /-- When the waiting ends, known once the ping has been written. -/
  deadline : Option Nat
  fate : PingFate
  deriving DecidableEq, Repr, Inhabited

/-- A ping in the **queue**. -/
structure Ping where
  payload : Bytes
  id : Nat
  deriving DecidableEq, Repr, Inhabited

namespace Waiter

/-- What a waiter tells at a given time, or nothing while it still has to wait. A pong that has
come counts whenever the waiter is looked at. -/
def outcome? (w : Waiter) (now : Nat) : Option (Except ConnectionError Nat) :=
  match w.fate with
  | .acknowledged time => some (.ok (time - w.sentAt))
  | .lost => some (.error .connectionClosed)
  | .pending =>
    match w.deadline with
    | none => none
    | some deadline => if deadline ≤ now then some (.error .timeout) else none

/-- Settles the fate of the pings in a list. -/
def settle (fate : PingFate) (pings : List Ping) (ws : List Waiter) : List Waiter :=
  ws.map fun w => if pings.any fun p => p.id == w.id then { w with fate := fate } else w

end Waiter

namespace Ping

/-- Splits the queue behind the first ping with a given payload: the pings that a pong with this
payload **acknowledges**, and the others. -/
def acknowledge (payload : Bytes) (queue : List Ping) : List Ping × List Ping :=
  match queue.findIdx? fun p => p.payload == payload with
  | none => ([], queue)
  | some i => (queue.take (i + 1), queue.drop (i + 1))

/-- The pings that somebody still waits for. -/
def awaited (ws : List Waiter) (queue : List Ping) : List Ping :=
  queue.filter fun p => ws.any fun w => w.id == p.id

end Ping

end WebSocket
