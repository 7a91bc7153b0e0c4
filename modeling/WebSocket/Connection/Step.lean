import WebSocket.Connection.State
import WebSocket.Handshake.HeadReader

/-!
# One step of a connection

`Connection.perform` says what an action does to the connection, and what its task still has to do
afterwards; it says nothing while the action has to wait. `Connection.step` adds what comes from
outside: operations that begin or are given up, bytes that move, the peer, and the time. A run is
any sequence of such moves that is possible one after the other. Every order in which tasks may
take turns is a run, so a statement about all runs is one about all schedules.
-/

namespace WebSocket

namespace Connection

/-- The outcome of an **action**: the connection, and what the task still has to do; nothing while
the action has to wait. -/
abbrev Outcome := Option (Connection × Script)

/-- Ends an operation. -/
def ending (c : Connection) (a : Answer) : Outcome := some (c, [.answer a])

/-! ### Writing -/

/-- Asks for the writer lock and goes on once the lock is held. -/
def withLock (c : Connection) (task : TaskId) (again : Script) (go : Connection → Outcome) :
    Outcome :=
  let lock := c.lock.acquire task
  if lock.holder = some task then go { c with lock := lock }
  else if c.lock = lock then none
  else some ({ c with lock := lock }, again)

/-- The transport has failed: the writer is gone, and the connection ends. -/
def writeFailed (c : Connection) (recovery : Recovery) (rest : Script) : Outcome :=
  some ({ c.unlock with writer := none },
    .markClosed :: Script.recover recovery .connectionClosed rest)

/-- Starts to write frames, if there is still a writer. -/
def startWriting (c : Connection) (frames : List Frame) (recovery : Recovery) (rest : Script) :
    Outcome :=
  match c.writer with
  | none => some (c.unlock, Script.recover recovery .connectionClosed rest)
  | some _ => some (c, .feed frames recovery :: rest)

/-- Writes what the writer holds. -/
def drainWriter (c : Connection) (w : Writer) (recovery : Recovery) (rest : Script)
    (go : Connection → Outcome) : Outcome :=
  match c.transport.write w.bytes with
  | .stalled => none
  | .broken => c.writeFailed recovery rest
  | .done transport => go { c with transport := transport, writer := some w.written }

/-- Hands the next frame to the writer, whose slot has to be free for it: the frame in the slot is
encoded, once there is room. With no frame left, everything is to be written. -/
def feedFrame (c : Connection) (task : TaskId) (frames : List Frame) (recovery : Recovery)
    (rest : Script) : Outcome :=
  match c.writer with
  | none => some (c.unlock, Script.recover recovery .connectionClosed rest)
  | some w =>
    if w.isBlocked then
      c.drainWriter w recovery rest fun c => some (c, .feed frames recovery :: rest)
    else
      match c.emptySlot w with
      | .error fault =>
        some
          ({ c.unlock with writer := some { w with slot := none } },
            Script.recover recovery (.codec fault) rest)
      | .ok (w, drawn) =>
        match frames with
        | [] => some ({ c with writer := some w, drawn := drawn }, .flush recovery :: rest)
        | f :: more =>
          some
            ({ c with writer := some (w.put f), drawn := drawn, sent := ⟨task, f⟩ :: c.sent },
              .feed more recovery :: rest)

/-- Writes everything and gives the lock back. -/
def flushWriter (c : Connection) (recovery : Recovery) (rest : Script) : Outcome :=
  match c.writer with
  | none => some (c.unlock, Script.recover recovery .connectionClosed rest)
  | some w => c.drainWriter w recovery rest fun c => some (c.unlock, rest)

/-- Marks the close frame as sent; unless it was before, a close frame is to be written. -/
def claimCloseFrame (c : Connection) (status : Option Close.Status) (recovery : Recovery)
    (rest : Script) : Outcome :=
  if c.closeSent then some (c, rest)
  else
    some ({ c with closeSent := true }, Script.writing [Frame.close status] recovery rest)

/-- Takes the writer away; what it holds is still to be written, and the frame in its slot behind
that, if it can be encoded. -/
def removeWriter (c : Connection) (rest : Script) : Outcome :=
  match c.writer with
  | none => some (c.unlock, rest)
  | some w =>
    let (w, drawn) := c.emptied w
    some ({ c.unlock with writer := none, drawn := drawn }, .shutDown w.bytes :: rest)

/-- Writes what is left and ends the stream. -/
def shutTransport (c : Connection) (held : Bytes) (rest : Script) : Outcome :=
  match c.transport.write held with
  | .stalled => none
  | .broken => some (c, rest)
  | .done transport => some ({ c with transport := { transport with shut := true } }, rest)

/-! ### Reading -/

/-- Reads one frame and decides what to do about it. With no whole frame there, the reader waits,
or ends when no more bytes will come. -/
def readNext (c : Connection) (rest : Script) : Outcome :=
  match c.codec.decode c.buffer with
  | .incomplete =>
    if c.transport.isExhausted then some (c, Script.finishing rest) else none
  | .fault fault => some (c, Script.ofFault fault ++ rest)
  | .found f buffer =>
    let (assembly, assembled) := c.assembly.feed f
    some ({ c with buffer := buffer, assembly := assembly }, Script.ofAssembled assembled ++ rest)

/-- Tells the peer of a fault, if there is a code for it and the connection has not ended. -/
def reportTo (c : Connection) (fault : Fault) (rest : Script) : Outcome :=
  match fault.closeCode? with
  | none => some (c, rest)
  | some code =>
    if c.phase = .closed then some (c, rest)
    else
      some (c, .followClosing :: .claimClose (some ⟨code, fault.message⟩) .ignore :: rest)

/-- A pong acknowledges the pings up to the one that it echoes. -/
def pongArrived (c : Connection) (payload : Bytes) (rest : Script) : Outcome :=
  let (acknowledged, others) := Ping.acknowledge payload c.pings
  some
    ({ c with
        pings := others
        waiters := Waiter.settle (.acknowledged c.now) acknowledged c.waiters },
      rest)

/-- Puts an event into the queue once there is room. -/
def offerEvent (c : Connection) (item : Except ConnectionError Event) (rest : Script) : Outcome :=
  if c.events.length < c.capacity then
    some ({ c with events := c.events ++ [item], offered := item :: c.offered }, rest)
  else none

/-! ### Receiving -/

/-- The answer that an item of the event queue amounts to. -/
def answerOfItem : Except ConnectionError Event → Answer
  | .ok e => .event e
  | .error e => .failed e

/-- Takes the oldest event; with none there, waits while the reader runs. -/
def nextEvent (c : Connection) (atEnd : Answer) : Outcome :=
  match c.events with
  | item :: more => ending { c with events := more } (answerOfItem item)
  | [] => if c.readerEnded then c.ending atEnd else none

/-- Throws one event away and keeps the status of a close event. When the time is over the
connection is torn down. -/
def discardEvent (c : Connection) (deadline : Nat) (status : Option Close.Status) : Outcome :=
  match c.events with
  | item :: more =>
    let status := match item with
      | .ok (.close s) => s
      | _ => status
    some ({ c with events := more }, [.drainEvents deadline status])
  | [] =>
    if c.readerEnded then c.ending (.drained status)
    else if deadline ≤ c.now then
      some (c, .cancelReader :: Script.finishing [.answer (.failed .timeout)])
    else none

/-! ### The handshake -/

/-- Writes a head and goes on; when the peer has gone away, does something else. -/
def writeHead (c : Connection) (head : Bytes) (lost go : Script) : Outcome :=
  match c.transport.write head with
  | .stalled => none
  | .broken => some (c, lost)
  | .done transport => some ({ c with transport := transport }, go)

/-- Collects a head and goes on with what it holds; waits while the head may still become whole. -/
def withHead (c : Connection) (fail : Handshake.Failure → Script) (go : Bytes → Script) :
    Outcome :=
  let limit := c.options.maxHandshakeSize
  match Handshake.headProgress limit c.buffer with
  | .tooLarge => some (c, fail (.tooLarge limit))
  | .done head rest => some ({ c with buffer := rest }, go head)
  | .wait =>
    if c.transport.incoming.isEmpty then
      match c.transport.ending with
      | none => none
      | some .ended => some (c, fail .incomplete)
      | some (.failed reason) => some (c, fail (.transport reason))
    else none

/-- The request of a client: the subprotocols of its options, then further headers. -/
def clientRequest (options : Options) (host path : String) (headers : List (String × String))
    (nonce : Bytes) : Except Handshake.Failure Handshake.Request := do
  let request ← Handshake.Request.build host path nonce
  let offer :=
    if options.protocols.isEmpty then []
    else [(Handshake.HeaderKind.secWebSocketProtocol.text, ", ".intercalate options.protocols)]
  request.setHeaders (offer ++ headers)

/-- A client's **judgement** of a response head. -/
def judgeResponse (request : Handshake.Request) (head : Bytes) : Script :=
  match Handshake.Response.parse head with
  | .error failure => [.failHandshake failure]
  | .ok response =>
    match response.validate request with
    | .error failure => [.failHandshake failure]
    | .ok () => [.establish response.protocol? (.connected response)]

/-- What a server does about a failure: it tells the peer, if the peer is still there. -/
def turnDown (failure : Handshake.Failure) : Script :=
  if failure.isAnswered then [.sendRejection failure] else [.failHandshake failure]

/-- A server's reading of a request head: the request, and the response that accepts it. -/
def acceptHead (protocols : List String) (head : Bytes) :
    Except Handshake.Failure (Handshake.Request × Handshake.Response) := do
  let request ← Handshake.Request.parse head
  request.validate
  let response ← Handshake.Response.accepting request protocols
  pure (request, response)

/-- A server's **judgement** of a request head. -/
def judgeRequest (protocols : List String) (head : Bytes) : Script :=
  match acceptHead protocols head with
  | .error failure => turnDown failure
  | .ok (request, response) => [.sendAcceptance request response]

/-- Takes the transport for a handshake, or fails when that was done before. -/
def takeTransport (c : Connection) (go : Script) : Outcome :=
  if c.stage = .handshake then some ({ c with stage := .negotiating }, go)
  else c.ending (.failed (.invalidState c.phase))

/-- The stream of frames begins: there is a writer, the phase moves on from `connecting`, and the
reader starts with the bytes that came behind the head. -/
def establishFrames (c : Connection) (protocol : Option Bytes) (a : Answer) : Outcome :=
  ending
    { c with
      writer := some {}
      phase := if c.phase = .connecting then .opened else c.phase
      stage := .running
      protocol := protocol
      reader := [.readFrame] }
    a

/-- The handshake has failed: the stream ends, and so does the connection. -/
def giveUp (c : Connection) (failure : Handshake.Failure) : Outcome :=
  ending
    { c.closed with
      stage := .done
      transport := { c.transport with shut := true } }
    (.failed (.handshake failure))

/-! ### Actions -/

/-- What an **action** does. -/
def perform (c : Connection) (task : TaskId) (action : Action) (rest : Script) : Outcome :=
  match action with
  | .answer _ => none
  | .refuse => c.ending (.failed (.invalidState c.phase))
  | .ensureOpen =>
    if c.phase = .opened then some (c, rest) else c.ending (.failed (.invalidState c.phase))
  | .beginClosing =>
    if c.phase = .opened then some ({ c with phase := .closing }, rest) else some (c, [.refuse])
  | .followClosing =>
    some ({ c with phase := if c.phase = .opened then .closing else c.phase }, rest)
  | .claimClose status recovery => c.claimCloseFrame status recovery rest
  | .enlist payload =>
    match task with
    | .reader => some (c, rest)
    | .call id =>
      some
        ({ c with
            pings := Ping.awaited c.waiters c.pings ++ [⟨payload, id⟩]
            waiters := c.waiters ++ [⟨id, c.now, none, .pending⟩] },
          rest)
  | .startWaiting =>
    match task with
    | .reader => some (c, rest)
    | .call id =>
      let deadline := c.now + c.options.pingTimeout
      some
        ({ c with
            waiters := c.waiters.map fun w =>
              if w.id == id then { w with deadline := some deadline } else w },
          rest)
  | .abandon =>
    match task with
    | .reader => some (c, rest)
    | .call id => some (c.forget id, rest)
  | .lockWriter frames recovery =>
    c.withLock task (.lockWriter frames recovery :: rest) fun c =>
      c.startWriting frames recovery rest
  | .feed frames recovery => c.feedFrame task frames recovery rest
  | .flush recovery => c.flushWriter recovery rest
  | .markClosed => some (c.closed, rest)
  | .takeWriter => c.withLock task (.takeWriter :: rest) fun c => c.removeWriter rest
  | .shutDown held => c.shutTransport held rest
  | .readFrame => c.readNext rest
  | .answerPing payload =>
    if c.phase = .opened then some (c, Script.writing [Frame.pong payload] .stop rest)
    else some (c, rest)
  | .resolvePings payload => c.pongArrived payload rest
  | .reportFault fault => c.reportTo fault rest
  | .offer item => c.offerEvent item rest
  | .takeEvent =>
    match c.stage with
    | .running => c.nextEvent (.failed .connectionClosed)
    | .handshake => c.ending (.failed (.invalidState .connecting))
    | .negotiating | .done => c.ending (.failed .connectionClosed)
  | .takeEventOrEnd =>
    match c.stage with
    | .running => c.nextEvent .ended
    | .handshake | .negotiating | .done => c.ending .ended
  | .beginDraining =>
    match c.phase with
    | .connecting | .opened => c.ending (.failed (.invalidState c.phase))
    | .closing | .closed =>
      if c.stage = .running then
        some (c, [.drainEvents (c.now + c.options.closeTimeout) none])
      else c.ending (.drained none)
  | .drainEvents deadline status => c.discardEvent deadline status
  | .cancelReader => some ({ c with cancelled := c.cancelled || c.stage = .running }, rest)
  | .awaitPong id =>
    match c.waiter? id with
    | none => c.ending (.failed .connectionClosed)
    | some w =>
      match w.outcome? c.now with
      | none => none
      | some (.ok latency) => ending (c.forget id) (.pong latency)
      | some (.error e) => ending (c.forget id) (.failed e)
  | .beginConnecting host path headers nonce =>
    c.takeTransport
      (match clientRequest c.options host path headers nonce with
        | .error failure => [.failHandshake failure]
        | .ok request => [.sendRequest request])
  | .sendRequest request =>
    c.writeHead request.written [.failHandshake (.transport Transport.brokenPipe)]
      [.awaitResponse request]
  | .awaitResponse request =>
    c.withHead (fun failure => [.failHandshake failure]) (judgeResponse request)
  | .beginAccepting => c.takeTransport [.awaitRequest]
  | .awaitRequest => c.withHead turnDown (judgeRequest c.options.protocols)
  | .sendAcceptance request response =>
    c.writeHead response.written [.failHandshake (.transport Transport.brokenPipe)]
      [.establish response.protocol? (.accepted request)]
  | .sendRejection failure =>
    c.writeHead (Handshake.Response.rejecting failure).written [.failHandshake failure]
      [.failHandshake failure]
  | .failHandshake failure => c.giveUp failure
  | .establish protocol a => c.establishFrames protocol a

/-- Lets a task take **its next action**. -/
def act (c : Connection) (task : TaskId) : Option Connection :=
  match c.script task with
  | [] => none
  | action :: rest =>
    match c.perform task action rest with
    | none => none
    | some (c, script) => some (c.setScript task script)

/-! ### Moves -/

/-- What can **happen** to a connection. -/
inductive Move where
  /-- The application begins an operation. -/
  | start (id : Nat) (operation : Operation)
  /-- A task takes its next action. -/
  | act (task : TaskId)
  /-- The application takes the answer of an operation that has ended. -/
  | collect (id : Nat)
  /-- The application gives an operation up where it may have to wait. -/
  | giveUp (id : Nat)
  /-- The application lets the waiter of a ping go. -/
  | forget (id : Nat)
  /-- Some bytes are read from the transport. -/
  | read (count : Nat)
  /-- The reader stops where it may have to wait, because it was told to. -/
  | stopReader
  /-- The peer sends bytes. -/
  | peerSend (b : Bytes)
  /-- The peer's stream ends. -/
  | peerEnd (e : Ending)
  /-- The peer goes away. -/
  | peerGone
  /-- The peer takes some bytes. -/
  | peerTake (count : Nat)
  /-- The transport stops taking bytes, or takes them again. -/
  | stall (stalled : Bool)
  /-- Time passes. -/
  | tick (milliseconds : Nat)

/-- The answer of an operation, once it has ended. -/
def answer? (c : Connection) (id : Nat) : Option Answer :=
  match c.script (.call id) with
  | [.answer a] => some a
  | _ => none

/-- Whether a number is in use neither for an operation nor for a ping. -/
def isFresh (c : Connection) (id : Nat) : Bool :=
  c.calls.all (fun call => call.id != id) && c.waiters.all (fun w => w.id != id) &&
    c.pings.all fun p => p.id != id

/-- Whether an operation **may begin** beside those in progress. -/
def mayStart (c : Connection) (operation : Operation) : Bool :=
  c.calls.all fun call => call.claim.agrees operation.claim

/-- Whether an operation needs the connection for itself. -/
def isAlone (c : Connection) (id : Nat) : Bool :=
  c.calls.any fun call => call.id == id && call.claim == .whole

/-- A task that goes away gives up its place at the lock. -/
def dismiss (c : Connection) (task : TaskId) : Connection :=
  { c with lock := c.lock.leave task }

/-- The connection after a **move**, if the move is possible. -/
def step (c : Connection) : Move → Option Connection
  | .start id operation =>
    if c.isFresh id && c.mayStart operation && operation.isLight then
      some { c with
        calls := c.calls ++
          [⟨id, operation.claim, Script.ofOperation c.options.fragmentSize operation⟩] }
    else none
  | .act task => c.act task
  | .collect id =>
    if (c.answer? id).isSome then
      some { c with calls := c.calls.filter fun call => call.id != id }
    else none
  | .giveUp id =>
    if c.isSuspended (.call id) then
      let c := c.dismiss (.call id)
      some
        { c.forget id with
          calls := c.calls.filter fun call => call.id != id
          stage := if c.stage = .negotiating ∧ c.isAlone id then .done else c.stage }
    else none
  | .forget id => some (c.forget id)
  | .read count =>
    if 0 < count ∧ count ≤ c.transport.incoming.length then
      some { c with
        buffer := c.buffer ++ c.transport.incoming.take count
        transport := { c.transport with incoming := c.transport.incoming.drop count } }
    else none
  | .stopReader =>
    if c.cancelled && c.isSuspended .reader then some { c.dismiss .reader with reader := [] }
    else none
  | .peerSend b =>
    if c.transport.ending.isNone && !c.released then
      some { c with transport := { c.transport with incoming := c.transport.incoming ++ b } }
    else none
  | .peerEnd e =>
    if c.transport.ending.isNone then
      some { c with transport := { c.transport with ending := some e } }
    else none
  | .peerGone =>
    some { c with
      transport := { c.transport with
        broken := true
        ending := some (c.transport.ending.getD .ended) } }
  | .peerTake count =>
    some { c with
      transport := { c.transport with outgoing := c.transport.outgoing.drop count } }
  | .stall stalled => some { c with transport := { c.transport with stalled := stalled } }
  | .tick milliseconds => some { c with now := c.now + milliseconds }

/-- The connection after a **run**: moves one after the other, all of them possible. -/
def run (c : Connection) : List Move → Option Connection
  | [] => some c
  | move :: moves => (c.step move).bind fun c => c.run moves

end Connection

end WebSocket
