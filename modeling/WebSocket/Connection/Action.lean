import WebSocket.Connection.Error
import WebSocket.Connection.Lock
import WebSocket.Handshake.Response

/-!
# Operations and the actions they are made of

An operation on a connection does not happen at once. It is a **script** of actions, and between
two actions of one script other tasks may act. Each action looks at or changes the connection in
one place only: it reads the phase, changes the phase, marks the close frame as sent, takes the
writer lock, hands one frame to the writer, and so on. The background reader follows a script too,
which grows with every frame that it reads.
-/

namespace WebSocket

/-- What an **operation** ends with. -/
inductive Answer where
  | done
  | connected (response : Handshake.Response)
  | accepted (request : Handshake.Request)
  | event (e : Event)
  /-- No event will come any more. -/
  | ended
  /-- The peer's status, if its close frame was still to be received and had one. -/
  | drained (status : Option Close.Status)
  /-- How long a pong took. -/
  | pong (latency : Nat)
  | failed (e : ConnectionError)
  deriving DecidableEq, Repr

/-- What a task does when a frame **could not be written**. -/
inductive Recovery where
  /-- The operation fails. -/
  | report
  /-- The reader stops. -/
  | stop
  /-- The task goes on. -/
  | ignore
  deriving DecidableEq, Repr, Inhabited

/-- One **step** of a script. -/
inductive Action where
  /-- The operation has ended. -/
  | answer (a : Answer)
  /-- Fails because of the phase as it is now. -/
  | refuse
  /-- Reads the phase, and goes on only while it is `opened`. -/
  | ensureOpen
  /-- Moves from `opened` to `closing`, or fails. -/
  | beginClosing
  /-- Moves from `opened` to `closing`, if it can. -/
  | followClosing
  /-- Marks the close frame as sent; unless it was before, writes one. -/
  | claimClose (status : Option Close.Status) (recovery : Recovery)
  /-- Puts a ping into the queue. -/
  | enlist (payload : Bytes)
  /-- Starts the time in which the pong has to come. -/
  | startWaiting
  /-- Forgets the ping of an operation that has failed. -/
  | abandon
  /-- Waits for the writer lock. -/
  | lockWriter (frames : List Frame) (recovery : Recovery)
  /-- Hands the next frame to the writer, or has it encode the last one. -/
  | feed (frames : List Frame) (recovery : Recovery)
  /-- Has the writer write everything, and gives the lock back. -/
  | flush (recovery : Recovery)
  /-- Moves to `closed`; the pings in the queue are lost. -/
  | markClosed
  /-- Takes the writer away, behind the writer lock. -/
  | takeWriter
  /-- Writes what the writer still holds and ends the stream. -/
  | shutDown (held : Bytes)
  /-- Reads the next frame. -/
  | readFrame
  /-- Reads the phase, and answers a ping only while it is `opened`. -/
  | answerPing (payload : Bytes)
  /-- Lets a pong acknowledge pings. -/
  | resolvePings (payload : Bytes)
  /-- Reads the phase, and tells the peer of a fault unless it is `closed`. -/
  | reportFault (fault : Fault)
  /-- Puts an event, or the error that ended the stream, into the queue. -/
  | offer (item : Except ConnectionError Event)
  /-- Waits for the next event. -/
  | takeEvent
  /-- Waits for the next event or for the end of the events. -/
  | takeEventOrEnd
  /-- Reads the phase, and drains only when it is `closing` or `closed`. -/
  | beginDraining
  /-- Throws events away until there will be no more, or until the time is over. -/
  | drainEvents (deadline : Nat) (status : Option Close.Status)
  /-- Tells the reader to stop. -/
  | cancelReader
  /-- Waits for what becomes of a ping. -/
  | awaitPong (id : Nat)
  /-- Takes the transport for a client's handshake. -/
  | beginConnecting (host path : String) (headers : List (String × String)) (nonce : Bytes)
  | sendRequest (request : Handshake.Request)
  | awaitResponse (request : Handshake.Request)
  /-- Takes the transport for a server's handshake. -/
  | beginAccepting
  | awaitRequest
  | sendAcceptance (request : Handshake.Request) (response : Handshake.Response)
  | sendRejection (failure : Handshake.Failure)
  /-- Gives the transport up after a failed handshake. -/
  | failHandshake (failure : Handshake.Failure)
  /-- Starts the stream of frames. -/
  | establish (protocol : Option Bytes) (a : Answer)

/-- Whether a task may be **suspended in front of** an action. In front of every other action it
goes on at once, so that nothing can stop it there. -/
def Action.mayWait : Action → Bool
  | .lockWriter .. | .feed .. | .flush _ | .takeWriter | .shutDown _ | .readFrame | .offer _
  | .takeEvent | .takeEventOrEnd | .drainEvents .. | .awaitPong _ | .sendRequest _
  | .awaitResponse _ | .awaitRequest | .sendAcceptance .. | .sendRejection _ => true
  | _ => false

/-- The actions that are **still to come**. -/
abbrev Script := List Action

/-- An **operation** of the application. -/
inductive Operation where
  | connect (host path : String) (headers : List (String × String)) (nonce : Bytes)
  | accept
  | send (m : Message)
  | sendFragmented (m : Message) (size : Nat)
  | ping (payload : Bytes)
  | awaitPong (id : Nat)
  | receive
  /-- Like receiving, but tells the end of the events apart. -/
  | next
  | close (code : Close.Code) (reason : String)
  | drain
  | abort

/-- How much of a connection an operation **needs for itself**. -/
inductive Claim where
  /-- No other operation may be in progress. -/
  | whole
  /-- Operations of this kind may be in progress together. -/
  | shared
  /-- The operation does not touch the connection. -/
  | nothing
  deriving DecidableEq, Repr, Inhabited

namespace Claim

/-- Whether two operations **may be in progress together**. -/
def agrees : Claim → Claim → Bool
  | nothing, _ | _, nothing | shared, shared => true
  | whole, _ | _, whole => false

end Claim

namespace Operation

/-- What an operation needs for itself. -/
def claim : Operation → Claim
  | connect .. | accept | receive | next | drain | abort => .whole
  | send _ | sendFragmented .. | ping _ | close .. => .shared
  | awaitPong _ => .nothing

/-- The message that an operation **sends**. -/
def message? : Operation → Option Message
  | send m | sendFragmented m _ => some m
  | _ => none

/-- Whether the message of an operation is **no longer than a byte string in memory** can be. -/
def isLight (operation : Operation) : Bool :=
  operation.message?.all fun m => decide (m.payload.length < 0x8000000000000000)

end Operation

namespace Script

/-- The script that writes frames back to back. -/
def writing (frames : List Frame) (recovery : Recovery) (rest : Script) : Script :=
  .lockWriter frames recovery :: rest

/-- The script that ends a connection. -/
def finishing (rest : Script) : Script := .markClosed :: .takeWriter :: rest

/-- How a task **goes on** when a frame could not be written. -/
def recover (recovery : Recovery) (e : ConnectionError) (rest : Script) : Script :=
  match recovery with
  | .report => [.abandon, .answer (.failed e)]
  | .stop => finishing []
  | .ignore => rest

/-- Sends a message in frames of at most `size` bytes. -/
def sending (m : Message) (size : Nat) : Script :=
  .ensureOpen :: writing (m.fragments size) .report [.answer .done]

/-- The script of an operation; options give the size of fragments. -/
def ofOperation (fragmentSize : Nat) : Operation → Script
  | .connect host path headers nonce => [.beginConnecting host path headers nonce]
  | .accept => [.beginAccepting]
  | .send m => sending m fragmentSize
  | .sendFragmented m size => sending m size
  | .ping payload =>
    if Frame.maxControlPayload < payload.length then
      [.answer (.failed (.payloadTooLarge payload.length))]
    else
      .ensureOpen :: .enlist payload ::
        writing [Frame.ping payload] .report [.startWaiting, .answer .done]
  | .awaitPong id => [.awaitPong id]
  | .receive => [.takeEvent]
  | .next => [.takeEventOrEnd]
  | .close code reason =>
    if code.isReserved then [.answer (.failed (.reservedCloseCode code))]
    else [.beginClosing, .claimClose (some ⟨code, reason⟩) .report, .answer .done]
  | .drain => [.beginDraining]
  | .abort => .cancelReader :: finishing [.answer .done]

/-! ### What the reader does -/

/-- Stops after a fault: the peer is told, then the application, and the connection ends. -/
def ofFault (fault : Fault) : Script :=
  .reportFault fault :: .offer (.error (.codec fault)) :: finishing []

/-- The code of the reply to a close frame: the peer's own, or a normal closure in place of one
that is never to be sent. -/
def replyCode (code : Close.Code) : Close.Code :=
  if code.isReserved then .normalClosure else code

/-- Answers a close frame and stops. -/
def ofClose (payload : Bytes) : Script :=
  match Close.parse payload with
  | .error v => ofFault (.violation v)
  | .ok reading =>
    let status := reading.status?
    let reply := status.map fun s => ⟨replyCode s.code, ""⟩
    .followClosing :: .claimClose reply .ignore :: .offer (.ok (.close status)) :: finishing []

/-- What the reader does about a **control frame**. -/
def ofControl (f : Frame) : Script :=
  match f.opcode with
  | .ping => [.answerPing f.payload, .offer (.ok (.ping f.payload)), .readFrame]
  | .pong => [.resolvePings f.payload, .offer (.ok (.pong f.payload)), .readFrame]
  | .close => ofClose f.payload
  | .continuation | .text | .binary => [.readFrame]

/-- What the reader does about what a frame **completes**. -/
def ofAssembled : Except Fault (Option Assembled) → Script
  | .error fault => ofFault fault
  | .ok none => [.readFrame]
  | .ok (some (.message m)) => [.offer (.ok (.message m)), .readFrame]
  | .ok (some (.control f)) => ofControl f

end Script

end WebSocket
