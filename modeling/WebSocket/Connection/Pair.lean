import WebSocket.Connection.Schedule

/-!
# Two connections joined by a pipe

A client and a server talk to each other when what one writes is what the other reads. The pipe
loses nothing and keeps the order. It carries any number of bytes at a time, the end of a stream
once everything before it was carried, and the news that an end has gone away.
-/

namespace WebSocket

/-- A **client and a server**, joined by a pipe. -/
structure Pair where
  client : Connection
  server : Connection

namespace Pair

/-- The connection at one end. -/
def get (p : Pair) : Role → Connection
  | .client => p.client
  | .server => p.server

/-- Puts a connection to one end. -/
def set (p : Pair) (end_ : Role) (c : Connection) : Pair :=
  match end_ with
  | .client => { p with client := c }
  | .server => { p with server := c }

/-- Two connections that have not talked yet. -/
def new (client server : Options) (clientKeys serverKeys : Nat → Mask) : Pair :=
  ⟨Connection.new .client client clientKeys, Connection.new .server server serverKeys⟩

/-- What can **happen** to a pair. -/
inductive Move where
  /-- A move of one connection that does not concern the pipe. -/
  | on (end_ : Role) (move : Connection.Move)
  /-- The pipe carries bytes away from one end. -/
  | carry (from_ : Role) (count : Nat)
  /-- The pipe carries the end of the stream of one end. -/
  | carryEnd (from_ : Role)
  /-- The pipe carries the news that one end has gone away. -/
  | carryGone (from_ : Role)

/-- Whether a move of a connection is left to the pipe. -/
def isPipeMove : Connection.Move → Bool
  | .peerSend _ | .peerEnd _ | .peerGone | .peerTake _ => true
  | _ => false

/-- The pair after a **move**, if the move is possible. -/
def step (p : Pair) : Move → Option Pair
  | .on end_ move =>
    if isPipeMove move then none else ((p.get end_).step move).map (p.set end_)
  | .carry from_ count =>
    let source := p.get from_
    if 0 < count ∧ count ≤ source.transport.outgoing.length then do
      let target ← (p.get from_.opposite).step (.peerSend (source.transport.outgoing.take count))
      let source ← source.step (.peerTake count)
      some ((p.set from_ source).set from_.opposite target)
    else none
  | .carryEnd from_ =>
    let source := p.get from_
    if (source.transport.shut || source.released) && source.transport.outgoing.isEmpty then
      ((p.get from_.opposite).step (.peerEnd .ended)).map (p.set from_.opposite)
    else none
  | .carryGone from_ =>
    if (p.get from_).released && (p.get from_).transport.outgoing.isEmpty then
      ((p.get from_.opposite).step .peerGone).map (p.set from_.opposite)
    else none

/-- A move that is left out when it is not possible. -/
def attempt (p : Pair) (move : Move) : Pair := (p.step move).getD p

/-! ### Until everything is quiet -/

/-- Carries everything that one end has written. -/
def carryAll (from_ : Role) (p : Pair) : Pair :=
  let p := p.attempt (.carry from_ (p.get from_).transport.outgoing.length)
  (p.attempt (.carryEnd from_)).attempt (.carryGone from_)

/-- One end takes its turns, and the pipe carries what comes of it. -/
def turn (end_ : Role) (p : Pair) : Pair :=
  carryAll end_ (p.set end_ (p.get end_).settle)

/-- Whether both ends have to wait and nothing is on its way. -/
def isQuiet (p : Pair) : Bool :=
  [Role.client, Role.server].all fun end_ =>
    (p.get end_).isQuiet && (p.step (.carry end_ (p.get end_).transport.outgoing.length)).isNone &&
      (p.step (.carryEnd end_)).isNone

/-- Both ends take turns until all is quiet; the number bounds the rounds. -/
def settleWithin : Nat → Pair → Pair
  | 0, p => p
  | bound + 1, p =>
    if p.isQuiet then p else settleWithin bound (turn .server (turn .client p))

/-- Both ends take turns **until all is quiet**. -/
def settle (p : Pair) : Pair :=
  settleWithin (p.client.effort + p.server.effort + p.client.transport.outgoing.length +
    p.server.transport.outgoing.length) p

/-- A pair that is run, seen from one end. Time passes at both. -/
def scene (end_ : Role) : Scene Pair where
  connection := fun p => p.get end_
  update := fun f p => p.set end_ (f (p.get end_))
  settle := Pair.settle
  tick := fun milliseconds p =>
    (p.attempt (.on .client (.tick milliseconds))).attempt (.on .server (.tick milliseconds))

/-- Both ends run their **handshake**; the answers of the client and of the server, as far as they
have come. -/
def handshake (host path : String) (nonce : Bytes) (p : Pair) :
    Pair × Option Answer × Option Answer :=
  let (p, client) := (scene .client).start (.connect host path [] nonce) p
  let (p, server) := (scene .server).start .accept p
  let p := p.settle
  let (p, clientAnswer) := (scene .client).collect client p
  let (p, serverAnswer) := (scene .server).collect server p
  (p, clientAnswer, serverAnswer)

end Pair

end WebSocket
