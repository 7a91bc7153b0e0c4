import WebSocket.Connection.Action
import WebSocket.Connection.Ping
import WebSocket.Connection.Transport
import WebSocket.Frame.Codec
import WebSocket.Options

/-!
# The state of a connection

Everything that the tasks of a connection share: its phase, the transport, the writer and its lock,
the pings, the events that wait to be received, and for each task the script that it still has to
follow. Two ledgers keep what the connection has done: `sent` every frame that was ever handed to
the writer, and `offered` everything that was ever put into the event queue.
-/

namespace WebSocket

/-- How far a connection has got with its **transport**. -/
inductive Stage where
  /-- The transport waits for a handshake. -/
  | handshake
  /-- A handshake is under way. -/
  | negotiating
  /-- The reader was started. -/
  | running
  /-- The handshake has failed, and the transport was given up. -/
  | done
  deriving DecidableEq, Repr, Inhabited

/-- The **writer**: a slot for one frame, and the bytes of the frames in front of it that the
transport has not taken yet. A frame stays in the slot until the next one comes or everything is to
be written; only then it is encoded. -/
structure Writer where
  /-- The frame that came last, if it was not encoded yet. -/
  slot : Option Frame := none
  /-- The bytes of one frame each, newest first. -/
  held : List Bytes := []
  /-- How many bytes are held. -/
  size : Nat := 0
  deriving DecidableEq, Repr, Inhabited

namespace Writer

/-- A writer that holds this much encodes no frame before it has written what it holds. -/
def capacity : Nat := 8192

/-- Whether the writer has to write before it encodes a frame. -/
def isFull (w : Writer) : Bool := capacity ≤ w.size

/-- Whether the writer has to write before its **slot is free** for another frame. -/
def isBlocked (w : Writer) : Bool := w.slot.isSome && w.isFull

/-- Takes a frame into the slot. -/
def put (w : Writer) (f : Frame) : Writer := { w with slot := some f }

/-- Holds the bytes of the frame that was in the slot. -/
def add (w : Writer) (b : Bytes) : Writer := ⟨none, b :: w.held, w.size + b.length⟩

/-- All bytes held, in the order in which they came. -/
def bytes (w : Writer) : Bytes := w.held.reverse.flatten

theorem bytes_add (w : Writer) (b : Bytes) : (w.add b).bytes = w.bytes ++ b := by
  simp [bytes, add]

/-- The writer once everything that it held was written. -/
def written (w : Writer) : Writer := { slot := w.slot }

end Writer

/-- An **operation in progress**. -/
structure Call where
  id : Nat
  claim : Claim
  /-- What is still to be done. -/
  script : Script

/-- A frame that was **handed to the writer**, and the task that did so. -/
structure Sent where
  task : TaskId
  frame : Frame
  deriving DecidableEq, Repr

/-- A **connection**. -/
structure Connection where
  role : Role
  options : Options
  phase : Phase := .connecting
  stage : Stage := .handshake
  /-- The subprotocol agreed on. -/
  protocol : Option Bytes := none
  transport : Transport := {}
  /-- Bytes that were read and not used yet. -/
  buffer : Bytes := []
  /-- The message in progress. -/
  assembly : Assembly
  writer : Option Writer := none
  lock : Lock := {}
  /-- Whether the close frame was sent, or is about to be. -/
  closeSent : Bool := false
  /-- The pings that wait for a pong, the oldest first. -/
  pings : List Ping := []
  waiters : List Waiter := []
  /-- The events that wait to be received, the oldest first. -/
  events : List (Except ConnectionError Event) := []
  /-- What the reader still has to do; nothing once it has ended. -/
  reader : Script := []
  /-- Whether the reader was told to stop. -/
  cancelled : Bool := false
  /-- The operations in progress. -/
  calls : List Call := []
  /-- The masking keys that will be drawn. -/
  keys : Nat → Mask := fun _ => Mask.zero
  /-- How many keys were drawn. -/
  drawn : Nat := 0
  /-- The time in milliseconds. -/
  now : Nat := 0
  /-- Every frame handed to the writer, newest first. -/
  sent : List Sent := []
  /-- Everything put into the event queue, newest first. -/
  offered : List (Except ConnectionError Event) := []

namespace Connection

/-- A connection over a fresh transport, with a source of masking keys. -/
def new (role : Role) (options : Options) (keys : Nat → Mask) : Connection :=
  { role := role
    options := options
    assembly := Assembly.fresh options.maxMessageSize
    keys := keys }

/-- What the connection reads and writes frames with. -/
def codec (c : Connection) : Codec := ⟨c.role, c.options.maxFrameSize⟩

/-- How many events may wait to be received. -/
def capacity (c : Connection) : Nat := max c.options.eventBuffer 1

/-- Whether the reader was started and **has ended**. -/
def readerEnded (c : Connection) : Bool := c.reader.isEmpty

/-- Whether a script still works on the transport outside the reader and the writer. -/
def holdsTransport (script : Script) : Bool :=
  script.any fun
    | .shutDown _ => true
    | _ => false

/-- Whether nothing of the connection **holds the transport** any more. -/
def released (c : Connection) : Bool :=
  match c.stage with
  | .handshake | .negotiating => false
  | .done => true
  | .running =>
    c.readerEnded && c.writer.isNone && !c.calls.any fun call => holdsTransport call.script

/-- What a task still has to do. -/
def script (c : Connection) : TaskId → Script
  | .reader => c.reader
  | .call id => ((c.calls.find? fun call => call.id == id).map Call.script).getD []

/-- Whether a task stands in front of an action where it **may have to wait**. -/
def isSuspended (c : Connection) (task : TaskId) : Bool :=
  match c.script task with
  | [] => false
  | action :: _ => action.mayWait

/-- Gives a task a new script. -/
def setScript (c : Connection) (task : TaskId) (script : Script) : Connection :=
  match task with
  | .reader => { c with reader := script }
  | .call id =>
    { c with
      calls := c.calls.map fun call =>
        if call.id == id then { call with script := script } else call }

/-- Encodes the frame in the slot of a writer, if there is one, **behind what the writer holds**;
the number says how many keys were drawn after that. -/
def emptySlot (c : Connection) (w : Writer) : Except Fault (Writer × Nat) :=
  match w.slot with
  | none => .ok (w, c.drawn)
  | some f =>
    match c.codec.encode (c.keys c.drawn) f with
    | .error fault => .error fault
    | .ok bytes => .ok (w.add bytes, if Codec.drawsKey c.role f then c.drawn + 1 else c.drawn)

/-- A writer **all of whose frames are encoded**, and how many keys were drawn then; a frame that
cannot be encoded is left out. -/
def emptied (c : Connection) (w : Writer) : Writer × Nat :=
  (c.emptySlot w).toOption.getD (w, c.drawn)

/-- The connection after the writer lock was given back. -/
def unlock (c : Connection) : Connection := { c with lock := c.lock.release }

/-- The waiter of a ping. -/
def waiter? (c : Connection) (id : Nat) : Option Waiter := c.waiters.find? fun w => w.id == id

/-- Forgets the waiter of a ping: nobody waits for the pong any more. -/
def forget (c : Connection) (id : Nat) : Connection :=
  { c with waiters := c.waiters.filter fun w => w.id != id }

/-- The connection in its **last phase**: the pings in the queue are lost. -/
def closed (c : Connection) : Connection :=
  { c with
    phase := .closed
    pings := []
    waiters := Waiter.settle .lost c.pings c.waiters }

end Connection

end WebSocket
