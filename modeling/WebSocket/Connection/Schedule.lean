import WebSocket.Connection.Step

/-!
# Schedules

Of the many runs of a connection this module picks one: a task goes on until it has to wait, then
the next one takes its turn, and when nobody can go on any more the connection is quiet. Time
passes only while an operation waits for something that has a time of its own. All that happens
here is a sequence of moves, so whatever holds of every run holds here.
-/

namespace WebSocket

namespace Connection

/-! ### Until everything is quiet -/

/-- An upper bound for how many actions are still to be taken about one action. -/
def actionEffort : Action → Nat
  | .lockWriter frames _ | .feed frames _ => 16 + 4 * frames.length
  | _ => 16

/-- An upper bound for how many actions the tasks can take **before they all have to wait**. -/
def effort (c : Connection) : Nat :=
  64 + 16 * (c.buffer.length + c.transport.incoming.length + c.events.length) +
    ((c.calls.map Call.script).flatten ++ c.reader).foldl (fun n a => n + actionEffort a) 0

/-- Lets a task go on **until it has to wait**; the number bounds its actions. -/
def turn (task : TaskId) : Nat → Connection → Connection
  | 0, c => c
  | bound + 1, c =>
    match c.act task with
    | none => c
    | some c => turn task bound c

/-- A move that is left out when it is not possible. -/
def attempt (c : Connection) (move : Move) : Connection := (c.step move).getD c

/-- Reads whatever has come from the peer. -/
def readAll (c : Connection) : Connection := c.attempt (.read c.transport.incoming.length)

/-- Everybody takes a turn: the operations in the order in which they began, then the reader. -/
def round (c : Connection) : Connection :=
  let c := c.readAll
  let c := c.calls.foldl (fun c call => turn (.call call.id) c.effort c) c
  let c := c.attempt .stopReader
  turn .reader c.effort c

/-- Whether everybody **has to wait**. -/
def isQuiet (c : Connection) : Bool :=
  c.transport.incoming.isEmpty && (c.step .stopReader).isNone && (c.act .reader).isNone &&
    c.calls.all fun call => (c.act (.call call.id)).isNone

/-- Lets everybody take turns until the connection is quiet; the number bounds the rounds. -/
def settleWithin : Nat → Connection → Connection
  | 0, c => c
  | bound + 1, c => if c.isQuiet then c else settleWithin bound c.round

/-- Lets everybody take turns **until the connection is quiet**. -/
def settle (c : Connection) : Connection := settleWithin c.effort c

/-! ### Times -/

/-- When an operation that waits would give up by itself. -/
def deadline? (c : Connection) (id : Nat) : Option Nat :=
  match c.script (.call id) with
  | .drainEvents deadline _ :: _ => some deadline
  | .awaitPong ping :: _ => (c.waiter? ping).bind Waiter.deadline
  | _ => none

/-- A number that is not in use. -/
def freshId (c : Connection) : Nat :=
  1 + (c.calls.map Call.id ++ c.waiters.map Waiter.id ++ c.pings.map Ping.id).foldl max 0

end Connection

/-! ### Operations on a clock -/

/-- Something that **holds a connection** and can be run: the connection alone, or together with
whatever it talks to. -/
structure Scene (σ : Type) where
  connection : σ → Connection
  update : (Connection → Connection) → σ → σ
  /-- Lets everybody take turns until all is quiet. -/
  settle : σ → σ
  /-- Lets time pass. -/
  tick : Nat → σ → σ

namespace Scene

variable {σ : Type}

/-- The answer of an operation that has ended, and the scene without it. -/
def collect (scene : Scene σ) (id : Nat) (s : σ) : σ × Option Answer :=
  match (scene.connection s).answer? id with
  | none => (s, none)
  | some a => (scene.update (fun c => c.attempt (.collect id)) s, some a)

/-- Gives an operation up. -/
def giveUp (scene : Scene σ) (id : Nat) (s : σ) : σ :=
  scene.update (fun c => c.attempt (.giveUp id)) s

/-- Begins an operation and lets it go on until it has to wait; its number comes with the scene. -/
def start (scene : Scene σ) (operation : Operation) (s : σ) : σ × Nat :=
  let id := (scene.connection s).freshId
  (scene.update (fun c =>
    let c := c.attempt (.start id operation)
    Connection.turn (.call id) c.effort c) s, id)

/-- The answer of an operation **without waiting**; an operation that would have to wait is given
up. -/
def poll (scene : Scene σ) (operation : Operation) (s : σ) : σ × Option Answer :=
  let (s, id) := scene.start operation s
  match scene.collect id s with
  | (s, some a) => (scene.settle s, some a)
  | (s, none) => (scene.settle (scene.giveUp id s), none)

/-- Something that is to happen at a time of its own. -/
structure Later (σ : Type) where
  time : Nat
  happen : σ → σ

/-- Lets time pass up to what is to happen later, and lets it happen. -/
def finishLater (scene : Scene σ) (later : Option (Later σ)) (s : σ) : σ :=
  match later with
  | none => s
  | some event =>
    let s := scene.tick (event.time - (scene.connection s).now) s
    scene.settle (event.happen s)

/-- Waits for the answer of an operation, and tells when it came. The operation is given up at
`limit`; what is to happen later happens in any case. The first number bounds how often time
passes. -/
def waitWithin (scene : Scene σ) (id : Nat) (limit : Option Nat) :
    Nat → Option (Later σ) → σ → σ × Option (Answer × Nat)
  | 0, later, s => (scene.finishLater later (scene.giveUp id s), none)
  | bound + 1, later, s =>
    let s := scene.settle s
    let now := (scene.connection s).now
    match scene.collect id s with
    | (s, some a) => (scene.finishLater later s, some (a, now))
    | (s, none) =>
      let times := [limit, (scene.connection s).deadline? id, later.map Later.time]
      match (times.filterMap fun t => t).min? with
      | none => (scene.settle (scene.giveUp id s), none)
      | some time =>
        let s := scene.tick (time - now) s
        let (s, later) := match later with
          | some event => if event.time ≤ time then (event.happen s, none) else (s, some event)
          | none => (s, none)
        let s := scene.update (fun c => Connection.turn (.call id) c.effort c) s
        if limit = some time ∧ ((scene.connection s).answer? id).isNone then
          (scene.finishLater later (scene.settle (scene.giveUp id s)), none)
        else waitWithin scene id limit bound later s

/-- Begins an operation and **waits for its answer**, which comes with the time that has passed.
`limit` is how long to wait at most. -/
def await (scene : Scene σ) (operation : Operation) (limit : Option Nat)
    (later : Option (Later σ)) (s : σ) : σ × Option (Answer × Nat) :=
  let began := (scene.connection s).now
  let (s, id) := scene.start operation s
  match scene.waitWithin id (limit.map (began + ·)) 4 later s with
  | (s, some (a, time)) => (s, some (a, time - began))
  | (s, none) => (s, none)

end Scene

namespace Connection

/-- A connection that is run **alone**. -/
def scene : Scene Connection where
  connection := id
  update := fun f c => f c
  settle := Connection.settle
  tick := fun milliseconds c => c.attempt (.tick milliseconds)

end Connection

end WebSocket
