import WebSocket.Connection.Step

/-!
# What an action can do

`Connection.perform` is a program with many branches. `Connection.Effect` lists them as a relation:
one constructor for every way in which an action can end, with the condition under which it ends
that way, the connection afterwards, and what its task still has to do. Every statement about runs
is proved by cases on this relation, so that `perform` is taken apart in one place only.

## Main results

* `Connection.effect_of_perform`: **whatever an action does** is one of the listed effects.
* `Connection.perform_of_effect`: **each listed effect** is what its action does.
-/

namespace WebSocket

namespace Transport

variable {t t' : Transport} {b : Bytes}

/-- Writing concerns only what goes **to the peer**. -/
theorem write_eq_done (h : t.write b = .done t') :
    t' = { t with outgoing := t'.outgoing } := by
  unfold write at h
  split at h
  · cases h; rfl
  · split at h
    · cases h
    · split at h
      · cases h
      · cases h; rfl

theorem incoming_of_write (h : t.write b = .done t') : t'.incoming = t.incoming := by
  have hincoming := congrArg incoming (write_eq_done h)
  exact hincoming

/-- While the peer is there, writing **never fails**. -/
theorem write_ne_broken (h : t.broken = false) : t.write b ≠ .broken := by
  unfold write
  split
  · exact nofun
  · rw [if_neg (by rw [h]; exact nofun)]
    split <;> exact nofun

/-- Unless the transport has stalled, writing **does not wait**. -/
theorem write_ne_stalled (h : t.stalled = false) : t.write b ≠ .stalled := by
  unfold write
  split
  · exact nofun
  · split
    · exact nofun
    · rw [if_neg (by rw [h]; exact nofun)]
      exact nofun

end Transport

namespace Connection

/-- The failure with which the **collection of a head** ends: the head is too long, or the stream
ends or fails before the head does. -/
inductive HeadFails (c : Connection) : Handshake.Failure → Prop
  | tooLarge (h : Handshake.headProgress c.options.maxHandshakeSize c.buffer = .tooLarge) :
      HeadFails c (.tooLarge c.options.maxHandshakeSize)
  | ended (h : Handshake.headProgress c.options.maxHandshakeSize c.buffer = .wait)
      (hend : c.transport.isExhausted = true) (he : c.transport.ending = some .ended) :
      HeadFails c .incomplete
  | failed {reason : String}
      (h : Handshake.headProgress c.options.maxHandshakeSize c.buffer = .wait)
      (hend : c.transport.isExhausted = true) (he : c.transport.ending = some (.failed reason)) :
      HeadFails c (.transport reason)

/-- **What an action can do**: the action, what stands behind it in its script, the connection
afterwards, and the script afterwards. -/
inductive Effect (c : Connection) (task : TaskId) :
    Action → Script → Connection → Script → Prop
  | refuse {rest : Script} :
      Effect c task .refuse rest c [.answer (.failed (.invalidState c.phase))]
  | passOpen {rest : Script} (h : c.phase = .opened) : Effect c task .ensureOpen rest c rest
  | failOpen {rest : Script} (h : c.phase ≠ .opened) :
      Effect c task .ensureOpen rest c [.answer (.failed (.invalidState c.phase))]
  | beginClosing {rest : Script} (h : c.phase = .opened) :
      Effect c task .beginClosing rest { c with phase := .closing } rest
  | failClosing {rest : Script} (h : c.phase ≠ .opened) :
      Effect c task .beginClosing rest c [.refuse]
  | followClosing {rest : Script} (h : c.phase = .opened) :
      Effect c task .followClosing rest { c with phase := .closing } rest
  | pastClosing {rest : Script} (h : c.phase ≠ .opened) : Effect c task .followClosing rest c rest
  | claimClose {status : Option Close.Status} {recovery : Recovery} {rest : Script}
      (h : c.closeSent = false) :
      Effect c task (.claimClose status recovery) rest { c with closeSent := true }
        (.lockWriter [Frame.close status] recovery :: rest)
  | closeClaimed {status : Option Close.Status} {recovery : Recovery} {rest : Script}
      (h : c.closeSent = true) : Effect c task (.claimClose status recovery) rest c rest
  | markClosed {rest : Script} : Effect c task .markClosed rest c.closed rest
  | enlist {id : Nat} {payload : Bytes} {rest : Script} (h : task = .call id) :
      Effect c task (.enlist payload) rest
        { c with
          pings := Ping.awaited c.waiters c.pings ++ [⟨payload, id⟩]
          waiters := c.waiters ++ [⟨id, c.now, none, .pending⟩] } rest
  | startWaiting {id : Nat} {rest : Script} (h : task = .call id) :
      Effect c task .startWaiting rest
        { c with
          waiters := c.waiters.map fun w =>
            if w.id == id then { w with deadline := some (c.now + c.options.pingTimeout) }
            else w } rest
  | abandon {id : Nat} {rest : Script} (h : task = .call id) :
      Effect c task .abandon rest (c.forget id) rest
  | enlistReader {payload : Bytes} {rest : Script} (h : task = .reader) :
      Effect c task (.enlist payload) rest c rest
  | startWaitingReader {rest : Script} (h : task = .reader) :
      Effect c task .startWaiting rest c rest
  | abandonReader {rest : Script} (h : task = .reader) : Effect c task .abandon rest c rest
  | resolvePings {payload : Bytes} {rest : Script} :
      Effect c task (.resolvePings payload) rest
        { c with
          pings := (Ping.acknowledge payload c.pings).2
          waiters := Waiter.settle (.acknowledged c.now) (Ping.acknowledge payload c.pings).1
            c.waiters } rest
  | awaitNothing {id : Nat} {rest : Script} (h : c.waiter? id = none) :
      Effect c task (.awaitPong id) rest c [.answer (.failed .connectionClosed)]
  | awaitOutcome {id : Nat} {rest : Script} {w : Waiter} {outcome : Except ConnectionError Nat}
      (h : c.waiter? id = some w) (ho : w.outcome? c.now = some outcome) :
      Effect c task (.awaitPong id) rest (c.forget id)
        [.answer (match outcome with
          | .ok latency => .pong latency
          | .error e => .failed e)]
  | queueUp {frames : List Frame} {recovery : Recovery} {rest : Script}
      (h : (c.lock.acquire task).holder ≠ some task) (hne : c.lock ≠ c.lock.acquire task) :
      Effect c task (.lockWriter frames recovery) rest { c with lock := c.lock.acquire task }
        (.lockWriter frames recovery :: rest)
  | startWriting {frames : List Frame} {recovery : Recovery} {rest : Script} {w : Writer}
      (h : (c.lock.acquire task).holder = some task) (hw : c.writer = some w) :
      Effect c task (.lockWriter frames recovery) rest { c with lock := c.lock.acquire task }
        (.feed frames recovery :: rest)
  | lockInVain {frames : List Frame} {recovery : Recovery} {rest : Script}
      (h : (c.lock.acquire task).holder = some task) (hw : c.writer = none) :
      Effect c task (.lockWriter frames recovery) rest
        { c with lock := (c.lock.acquire task).release }
        (Script.recover recovery .connectionClosed rest)
  | feedInVain {frames : List Frame} {recovery : Recovery} {rest : Script}
      (hw : c.writer = none) :
      Effect c task (.feed frames recovery) rest c.unlock
        (Script.recover recovery .connectionClosed rest)
  | makeRoom {frames : List Frame} {recovery : Recovery} {rest : Script} {w : Writer}
      {t : Transport} (hw : c.writer = some w) (hfull : w.isBlocked = true)
      (ht : c.transport.write w.bytes = .done t) :
      Effect c task (.feed frames recovery) rest
        { c with transport := t, writer := some w.written } (.feed frames recovery :: rest)
  | failToMakeRoom {frames : List Frame} {recovery : Recovery} {rest : Script} {w : Writer}
      (hw : c.writer = some w) (hfull : w.isBlocked = true)
      (ht : c.transport.write w.bytes = .broken) :
      Effect c task (.feed frames recovery) rest { c.unlock with writer := none }
        (.markClosed :: Script.recover recovery .connectionClosed rest)
  | refuseFrame {frames : List Frame} {recovery : Recovery} {rest : Script} {w : Writer}
      {fault : Fault} (hw : c.writer = some w) (hroom : w.isBlocked = false)
      (he : c.emptySlot w = .error fault) :
      Effect c task (.feed frames recovery) rest
        { c.unlock with writer := some { w with slot := none } }
        (Script.recover recovery (.codec fault) rest)
  | fedAll {recovery : Recovery} {rest : Script} {w w' : Writer} {drawn : Nat}
      (hw : c.writer = some w) (hroom : w.isBlocked = false)
      (he : c.emptySlot w = .ok (w', drawn)) :
      Effect c task (.feed [] recovery) rest { c with writer := some w', drawn := drawn }
        (.flush recovery :: rest)
  | feed {f : Frame} {more : List Frame} {recovery : Recovery} {rest : Script} {w w' : Writer}
      {drawn : Nat} (hw : c.writer = some w) (hroom : w.isBlocked = false)
      (he : c.emptySlot w = .ok (w', drawn)) :
      Effect c task (.feed (f :: more) recovery) rest
        { c with writer := some (w'.put f), drawn := drawn, sent := ⟨task, f⟩ :: c.sent }
        (.feed more recovery :: rest)
  | flushInVain {recovery : Recovery} {rest : Script} (hw : c.writer = none) :
      Effect c task (.flush recovery) rest c.unlock
        (Script.recover recovery .connectionClosed rest)
  | flush {recovery : Recovery} {rest : Script} {w : Writer} {t : Transport}
      (hw : c.writer = some w) (ht : c.transport.write w.bytes = .done t) :
      Effect c task (.flush recovery) rest
        { c.unlock with transport := t, writer := some w.written } rest
  | failToFlush {recovery : Recovery} {rest : Script} {w : Writer}
      (hw : c.writer = some w) (ht : c.transport.write w.bytes = .broken) :
      Effect c task (.flush recovery) rest { c.unlock with writer := none }
        (.markClosed :: Script.recover recovery .connectionClosed rest)
  | queueUpToTake {rest : Script} (h : (c.lock.acquire task).holder ≠ some task)
      (hne : c.lock ≠ c.lock.acquire task) :
      Effect c task .takeWriter rest { c with lock := c.lock.acquire task } (.takeWriter :: rest)
  | takeNothing {rest : Script} (h : (c.lock.acquire task).holder = some task)
      (hw : c.writer = none) :
      Effect c task .takeWriter rest { c with lock := (c.lock.acquire task).release } rest
  | takeWriter {rest : Script} {w : Writer} (h : (c.lock.acquire task).holder = some task)
      (hw : c.writer = some w) :
      Effect c task .takeWriter rest
        { c with
          lock := (c.lock.acquire task).release
          writer := none
          drawn := (c.emptied w).2 }
        (.shutDown (c.emptied w).1.bytes :: rest)
  | shutBroken {held : Bytes} {rest : Script} (ht : c.transport.write held = .broken) :
      Effect c task (.shutDown held) rest c rest
  | shutDown {held : Bytes} {rest : Script} {t : Transport}
      (ht : c.transport.write held = .done t) :
      Effect c task (.shutDown held) rest { c with transport := { t with shut := true } } rest
  | readEnd {rest : Script} (hd : c.codec.decode c.buffer = .incomplete)
      (hend : c.transport.isExhausted = true) :
      Effect c task .readFrame rest c (Script.finishing rest)
  | readFault {rest : Script} {fault : Fault} (hd : c.codec.decode c.buffer = .fault fault) :
      Effect c task .readFrame rest c (Script.ofFault fault ++ rest)
  | readFrame {rest : Script} {f : Frame} {buffer : Bytes}
      (hd : c.codec.decode c.buffer = .found f buffer) :
      Effect c task .readFrame rest
        { c with buffer := buffer, assembly := (c.assembly.feed f).1 }
        (Script.ofAssembled (c.assembly.feed f).2 ++ rest)
  | answerPing {payload : Bytes} {rest : Script} (h : c.phase = .opened) :
      Effect c task (.answerPing payload) rest c
        (.lockWriter [Frame.pong payload] .stop :: rest)
  | ignorePing {payload : Bytes} {rest : Script} (h : c.phase ≠ .opened) :
      Effect c task (.answerPing payload) rest c rest
  | keepFault {fault : Fault} {rest : Script}
      (h : fault.closeCode? = none ∨ c.phase = .closed) :
      Effect c task (.reportFault fault) rest c rest
  | reportFault {fault : Fault} {code : Close.Code} {rest : Script}
      (h : fault.closeCode? = some code) (hphase : c.phase ≠ .closed) :
      Effect c task (.reportFault fault) rest c
        (.followClosing :: .claimClose (some ⟨code, fault.message⟩) .ignore :: rest)
  | offer {item : Except ConnectionError Event} {rest : Script}
      (h : c.events.length < c.capacity) :
      Effect c task (.offer item) rest
        { c with events := c.events ++ [item], offered := item :: c.offered } rest
  | takeItem {item : Except ConnectionError Event}
      {more : List (Except ConnectionError Event)} {rest : Script}
      (hstage : c.stage = .running) (h : c.events = item :: more) :
      Effect c task .takeEvent rest { c with events := more } [.answer (answerOfItem item)]
  | takeNext {item : Except ConnectionError Event}
      {more : List (Except ConnectionError Event)} {rest : Script}
      (hstage : c.stage = .running) (h : c.events = item :: more) :
      Effect c task .takeEventOrEnd rest { c with events := more } [.answer (answerOfItem item)]
  | takeLast {rest : Script} (hstage : c.stage = .running) (h : c.events = [])
      (hend : c.readerEnded = true) :
      Effect c task .takeEvent rest c [.answer (.failed .connectionClosed)]
  | takeEarly {rest : Script} (hstage : c.stage = .handshake) :
      Effect c task .takeEvent rest c [.answer (.failed (.invalidState .connecting))]
  | takeNone {rest : Script} (hstage : c.stage = .negotiating ∨ c.stage = .done) :
      Effect c task .takeEvent rest c [.answer (.failed .connectionClosed)]
  | takeEnd {rest : Script} (hstage : c.stage = .running → c.events = [] ∧ c.readerEnded = true) :
      Effect c task .takeEventOrEnd rest c [.answer .ended]
  | failToDrain {rest : Script} (h : c.phase = .connecting ∨ c.phase = .opened) :
      Effect c task .beginDraining rest c [.answer (.failed (.invalidState c.phase))]
  | beginDraining {rest : Script} (h : c.phase = .closing ∨ c.phase = .closed)
      (hstage : c.stage = .running) :
      Effect c task .beginDraining rest c
        [.drainEvents (c.now + c.options.closeTimeout) none]
  | drainNothing {rest : Script} (h : c.phase = .closing ∨ c.phase = .closed)
      (hstage : c.stage ≠ .running) :
      Effect c task .beginDraining rest c [.answer (.drained none)]
  | discard {deadline : Nat} {status status' : Option Close.Status}
      {item : Except ConnectionError Event} {more : List (Except ConnectionError Event)}
      {rest : Script} (h : c.events = item :: more)
      (hs : status' = match item with
        | .ok (.close s) => s
        | _ => status) :
      Effect c task (.drainEvents deadline status) rest { c with events := more }
        [.drainEvents deadline status']
  | drained {deadline : Nat} {status : Option Close.Status} {rest : Script} (h : c.events = [])
      (hend : c.readerEnded = true) :
      Effect c task (.drainEvents deadline status) rest c [.answer (.drained status)]
  | drainTimeout {deadline : Nat} {status : Option Close.Status} {rest : Script}
      (h : c.events = []) (hgoesOn : c.readerEnded = false) (hlate : deadline ≤ c.now) :
      Effect c task (.drainEvents deadline status) rest c
        (.cancelReader :: Script.finishing [.answer (.failed .timeout)])
  | cancelReader {rest : Script} :
      Effect c task .cancelReader rest
        { c with cancelled := c.cancelled || c.stage = .running } rest
  | beginConnecting {host path : String} {headers : List (String × String)} {nonce : Bytes}
      {request : Handshake.Request} {rest : Script} (hstage : c.stage = .handshake)
      (hbuild : clientRequest c.options host path headers nonce = .ok request) :
      Effect c task (.beginConnecting host path headers nonce) rest { c with stage := .negotiating }
        [.sendRequest request]
  | failToBuild {host path : String} {headers : List (String × String)} {nonce : Bytes}
      {failure : Handshake.Failure} {rest : Script} (hstage : c.stage = .handshake)
      (hbuild : clientRequest c.options host path headers nonce = .error failure) :
      Effect c task (.beginConnecting host path headers nonce) rest { c with stage := .negotiating }
        [.failHandshake failure]
  | connectAgain {host path : String} {headers : List (String × String)} {nonce : Bytes}
      {rest : Script} (hstage : c.stage ≠ .handshake) :
      Effect c task (.beginConnecting host path headers nonce) rest c
        [.answer (.failed (.invalidState c.phase))]
  | beginAccepting {rest : Script} (hstage : c.stage = .handshake) :
      Effect c task .beginAccepting rest { c with stage := .negotiating } [.awaitRequest]
  | acceptAgain {rest : Script} (hstage : c.stage ≠ .handshake) :
      Effect c task .beginAccepting rest c [.answer (.failed (.invalidState c.phase))]
  | sendRequest {request : Handshake.Request} {rest : Script} {t : Transport}
      (ht : c.transport.write request.written = .done t) :
      Effect c task (.sendRequest request) rest { c with transport := t } [.awaitResponse request]
  | failToRequest {request : Handshake.Request} {rest : Script}
      (ht : c.transport.write request.written = .broken) :
      Effect c task (.sendRequest request) rest c
        [.failHandshake (.transport Transport.brokenPipe)]
  | sendAcceptance {request : Handshake.Request} {response : Handshake.Response} {rest : Script}
      {t : Transport} (ht : c.transport.write response.written = .done t) :
      Effect c task (.sendAcceptance request response) rest { c with transport := t }
        [.establish response.protocol? (.accepted request)]
  | failToAccept {request : Handshake.Request} {response : Handshake.Response} {rest : Script}
      (ht : c.transport.write response.written = .broken) :
      Effect c task (.sendAcceptance request response) rest c
        [.failHandshake (.transport Transport.brokenPipe)]
  | sendRejection {failure : Handshake.Failure} {rest : Script} {t : Transport}
      (ht : c.transport.write (Handshake.Response.rejecting failure).written = .done t) :
      Effect c task (.sendRejection failure) rest { c with transport := t }
        [.failHandshake failure]
  | failToReject {failure : Handshake.Failure} {rest : Script}
      (ht : c.transport.write (Handshake.Response.rejecting failure).written = .broken) :
      Effect c task (.sendRejection failure) rest c [.failHandshake failure]
  | judgeResponse {request : Handshake.Request} {head buffer : Bytes} {rest : Script}
      (h : Handshake.headProgress c.options.maxHandshakeSize c.buffer = .done head buffer) :
      Effect c task (.awaitResponse request) rest { c with buffer := buffer }
        (Connection.judgeResponse request head)
  | missResponse {request : Handshake.Request} {failure : Handshake.Failure} {rest : Script}
      (h : HeadFails c failure) :
      Effect c task (.awaitResponse request) rest c [.failHandshake failure]
  | judgeRequest {head buffer : Bytes} {rest : Script}
      (h : Handshake.headProgress c.options.maxHandshakeSize c.buffer = .done head buffer) :
      Effect c task .awaitRequest rest { c with buffer := buffer }
        (Connection.judgeRequest c.options.protocols head)
  | missRequest {failure : Handshake.Failure} {rest : Script} (h : HeadFails c failure) :
      Effect c task .awaitRequest rest c (turnDown failure)
  | failHandshake {failure : Handshake.Failure} {rest : Script} :
      Effect c task (.failHandshake failure) rest
        { c.closed with
          stage := .done
          transport := { c.transport with shut := true } }
        [.answer (.failed (.handshake failure))]
  | establish {protocol : Option Bytes} {a : Answer} {rest : Script} :
      Effect c task (.establish protocol a) rest
        { c with
          writer := some {}
          phase := if c.phase = .connecting then .opened else c.phase
          stage := .running
          protocol := protocol
          reader := [.readFrame] }
        [.answer a]

/-! ### Every action has one of these effects -/

/-- The writer lock is held in the end, or the task has begun to wait for it. -/
theorem withLock_eq_some {c : Connection} {task : TaskId} {again : Script}
    {go : Connection → Outcome} {c' : Connection} {script : Script}
    (h : c.withLock task again go = some (c', script)) :
    ((c.lock.acquire task).holder = some task ∧
        go { c with lock := c.lock.acquire task } = some (c', script)) ∨
      ((c.lock.acquire task).holder ≠ some task ∧ c.lock ≠ c.lock.acquire task ∧
        c' = { c with lock := c.lock.acquire task } ∧ script = again) := by
  unfold withLock at h
  by_cases hheld : (c.lock.acquire task).holder = some task
  · simp only [if_pos hheld] at h
    exact Or.inl ⟨hheld, h⟩
  · simp only [if_neg hheld] at h
    by_cases hsame : c.lock = c.lock.acquire task
    · rw [if_pos hsame] at h
      cases h
    · rw [if_neg hsame, Option.some.injEq, Prod.mk.injEq] at h
      exact Or.inr ⟨hheld, hsame, h.1.symm, h.2.symm⟩

/-- Taking the next event gives the oldest one, or the end of the events. -/
theorem nextEvent_eq_some {c : Connection} {atEnd : Answer} {c' : Connection} {script : Script}
    (h : c.nextEvent atEnd = some (c', script)) :
    (∃ item more, c.events = item :: more ∧ c' = { c with events := more } ∧
        script = [.answer (answerOfItem item)]) ∨
      (c.events = [] ∧ c.readerEnded = true ∧ c' = c ∧ script = [.answer atEnd]) := by
  unfold nextEvent ending at h
  split at h
  · rename_i item more heq
    cases h
    exact Or.inl ⟨item, more, heq, rfl, rfl⟩
  · rename_i heq
    split at h
    · rename_i hend
      cases h
      exact Or.inr ⟨heq, hend, rfl, rfl⟩
    · cases h

/-- The collection of a head ends with a head, or with a failure. -/
theorem withHead_eq_some {c : Connection} {fail : Handshake.Failure → Script}
    {go : Bytes → Script} {c' : Connection} {script : Script}
    (h : c.withHead fail go = some (c', script)) :
    (∃ head buffer,
        Handshake.headProgress c.options.maxHandshakeSize c.buffer = .done head buffer ∧
          c' = { c with buffer := buffer } ∧ script = go head) ∨
      ∃ failure, HeadFails c failure ∧ c' = c ∧ script = fail failure := by
  unfold withHead at h
  dsimp only at h
  split at h
  · rename_i heq
    cases h
    exact Or.inr ⟨_, .tooLarge heq, rfl, rfl⟩
  · rename_i head buffer heq
    cases h
    exact Or.inl ⟨head, buffer, heq, rfl, rfl⟩
  · rename_i heq
    split at h
    · rename_i hempty
      split at h
      · cases h
      · rename_i he
        cases h
        exact Or.inr ⟨_, .ended heq (by simp [Transport.isExhausted, hempty, he]) he, rfl, rfl⟩
      · rename_i reason he
        cases h
        exact Or.inr ⟨_, .failed heq (by simp [Transport.isExhausted, hempty, he]) he, rfl, rfl⟩
    · cases h

/-- Writing a head succeeds, or the peer has gone away. -/
theorem writeHead_eq_some {c : Connection} {head : Bytes} {lost go : Script} {c' : Connection}
    {script : Script} (h : c.writeHead head lost go = some (c', script)) :
    (∃ t, c.transport.write head = .done t ∧ c' = { c with transport := t } ∧ script = go) ∨
      (c.transport.write head = .broken ∧ c' = c ∧ script = lost) := by
  unfold writeHead at h
  split at h
  · cases h
  · rename_i heq
    cases h
    exact Or.inr ⟨heq, rfl, rfl⟩
  · rename_i t heq
    cases h
    exact Or.inl ⟨t, heq, rfl, rfl⟩

section Parts

variable {c c' : Connection} {task : TaskId} {rest script : Script} {recovery : Recovery}

theorem effect_of_claimCloseFrame {status : Option Close.Status}
    (h : c.claimCloseFrame status recovery rest = some (c', script)) :
    Effect c task (.claimClose status recovery) rest c' script := by
  unfold claimCloseFrame at h
  split at h
  · cases h; exact .closeClaimed ‹_›
  · rename_i hsent
    cases h
    exact .claimClose (Bool.eq_false_iff.mpr hsent)

/-- Who gets the lock **starts to write**, if the writer is still there. -/
theorem effect_of_startWriting {frames : List Frame}
    (hheld : (c.lock.acquire task).holder = some task)
    (h : startWriting { c with lock := c.lock.acquire task } frames recovery rest =
      some (c', script)) :
    Effect c task (.lockWriter frames recovery) rest c' script := by
  unfold startWriting at h
  split at h
  · cases h; exact .lockInVain hheld ‹_›
  · cases h; exact .startWriting hheld ‹_›

/-- A frame is **handed to the writer**, or the writer is emptied first, or one of them fails. -/
theorem effect_of_feedFrame {frames : List Frame}
    (h : c.feedFrame task frames recovery rest = some (c', script)) :
    Effect c task (.feed frames recovery) rest c' script := by
  unfold feedFrame at h
  split at h
  · cases h; exact .feedInVain ‹_›
  · rename_i w hw
    split at h
    · rename_i hfull
      simp only [drainWriter, writeFailed] at h
      split at h
      · cases h
      · cases h; exact .failToMakeRoom hw hfull ‹_›
      · cases h; exact .makeRoom hw hfull ‹_›
    · rename_i hroom
      rw [Bool.not_eq_true] at hroom
      split at h
      · cases h; exact .refuseFrame hw hroom ‹_›
      · cases frames with
        | nil => cases h; exact .fedAll hw hroom ‹_›
        | cons f more => cases h; exact .feed hw hroom ‹_›

theorem effect_of_flushWriter (h : c.flushWriter recovery rest = some (c', script)) :
    Effect c task (.flush recovery) rest c' script := by
  unfold flushWriter at h
  split at h
  · cases h; exact .flushInVain ‹_›
  · rename_i w hw
    simp only [drainWriter, writeFailed] at h
    split at h
    · cases h
    · cases h; exact .failToFlush hw ‹_›
    · cases h; exact .flush hw ‹_›

/-- Who gets the lock **takes the writer away**, if it is still there. -/
theorem effect_of_removeWriter (hheld : (c.lock.acquire task).holder = some task)
    (h : removeWriter { c with lock := c.lock.acquire task } rest = some (c', script)) :
    Effect c task .takeWriter rest c' script := by
  unfold removeWriter at h
  split at h
  · cases h; exact .takeNothing hheld ‹_›
  · cases h; exact .takeWriter hheld ‹_›

theorem effect_of_shutTransport {held : Bytes}
    (h : c.shutTransport held rest = some (c', script)) :
    Effect c task (.shutDown held) rest c' script := by
  unfold shutTransport at h
  split at h
  · cases h
  · cases h; exact .shutBroken ‹_›
  · cases h; exact .shutDown ‹_›

/-- The reader finds **a frame, a fault or the end**. -/
theorem effect_of_readNext (h : c.readNext rest = some (c', script)) :
    Effect c task .readFrame rest c' script := by
  unfold readNext at h
  split at h
  · rename_i hd
    split at h
    · cases h; exact .readEnd hd ‹_›
    · cases h
  · cases h; exact .readFault ‹_›
  · cases h; exact .readFrame ‹_›

theorem effect_of_reportTo {fault : Fault} (h : c.reportTo fault rest = some (c', script)) :
    Effect c task (.reportFault fault) rest c' script := by
  unfold reportTo at h
  split at h
  · cases h; exact .keepFault (Or.inl ‹_›)
  · rename_i code hcode
    split at h
    · cases h; exact .keepFault (Or.inr ‹_›)
    · cases h; exact .reportFault hcode ‹_›

/-- Who drains **throws an event away**, or is done because of the end or because of the time. -/
theorem effect_of_discardEvent {deadline : Nat} {status : Option Close.Status}
    (h : c.discardEvent deadline status = some (c', script)) :
    Effect c task (.drainEvents deadline status) rest c' script := by
  unfold discardEvent at h
  split at h
  · rename_i item more heq
    cases h
    refine .discard heq ?_
    cases item with
    | error e => rfl
    | ok e => cases e <;> rfl
  · rename_i heq
    split at h
    · cases h; exact .drained heq ‹_›
    · rename_i hgoesOn
      split at h
      · cases h; exact .drainTimeout heq (Bool.eq_false_iff.mpr hgoesOn) ‹_›
      · cases h

end Parts

/-- **Whatever an action does** is one of the listed effects. -/
theorem effect_of_perform {c : Connection} {task : TaskId} {action : Action} {rest : Script}
    {c' : Connection} {script : Script} (h : c.perform task action rest = some (c', script)) :
    Effect c task action rest c' script := by
  cases action with
  | answer a => cases h
  | refuse => cases h; exact .refuse
  | ensureOpen =>
      simp only [perform] at h
      split at h
      · cases h; exact .passOpen ‹_›
      · cases h; exact .failOpen ‹_›
  | beginClosing =>
      simp only [perform] at h
      split at h
      · cases h; exact .beginClosing ‹_›
      · cases h; exact .failClosing ‹_›
  | followClosing =>
      simp only [perform, Option.some.injEq, Prod.mk.injEq] at h
      obtain ⟨rfl, rfl⟩ := h
      by_cases hphase : c.phase = .opened
      · rw [if_pos hphase]; exact .followClosing hphase
      · rw [if_neg hphase]; exact .pastClosing hphase
  | claimClose status recovery => exact effect_of_claimCloseFrame h
  | enlist payload =>
      cases task with
      | reader => cases h; exact .enlistReader rfl
      | call id => cases h; exact .enlist rfl
  | startWaiting =>
      cases task with
      | reader => cases h; exact .startWaitingReader rfl
      | call id => cases h; exact .startWaiting rfl
  | abandon =>
      cases task with
      | reader => cases h; exact .abandonReader rfl
      | call id => cases h; exact .abandon rfl
  | lockWriter frames recovery =>
      simp only [perform] at h
      obtain ⟨hheld, hgo⟩ | ⟨hheld, hne, rfl, rfl⟩ := withLock_eq_some h
      · exact effect_of_startWriting hheld hgo
      · exact .queueUp hheld hne
  | feed frames recovery => exact effect_of_feedFrame h
  | flush recovery => exact effect_of_flushWriter h
  | markClosed => cases h; exact .markClosed
  | takeWriter =>
      simp only [perform] at h
      obtain ⟨hheld, hgo⟩ | ⟨hheld, hne, rfl, rfl⟩ := withLock_eq_some h
      · exact effect_of_removeWriter hheld hgo
      · exact .queueUpToTake hheld hne
  | shutDown held => exact effect_of_shutTransport h
  | readFrame => exact effect_of_readNext h
  | answerPing payload =>
      simp only [perform] at h
      split at h
      · cases h; exact .answerPing ‹_›
      · cases h; exact .ignorePing ‹_›
  | resolvePings payload => cases h; exact .resolvePings
  | reportFault fault => exact effect_of_reportTo h
  | offer item =>
      simp only [perform, offerEvent] at h
      split at h
      · cases h; exact .offer ‹_›
      · cases h
  | takeEvent =>
      simp only [perform] at h
      split at h
      · rename_i hstage
        obtain ⟨item, more, heq, rfl, rfl⟩ | ⟨heq, hend, rfl, rfl⟩ := nextEvent_eq_some h
        · exact .takeItem hstage heq
        · exact .takeLast hstage heq hend
      · cases h; exact .takeEarly ‹_›
      · cases h; exact .takeNone (Or.inl ‹_›)
      · cases h; exact .takeNone (Or.inr ‹_›)
  | takeEventOrEnd =>
      simp only [perform] at h
      split at h
      · rename_i hstage
        obtain ⟨item, more, heq, rfl, rfl⟩ | ⟨heq, hend, rfl, rfl⟩ := nextEvent_eq_some h
        · exact .takeNext hstage heq
        · exact .takeEnd fun _ => ⟨heq, hend⟩
      all_goals
        rename_i hstage
        cases h
        exact .takeEnd fun hrunning => absurd (hstage.symm.trans hrunning) nofun
  | beginDraining =>
      simp only [perform] at h
      split at h
      · cases h; exact .failToDrain (Or.inl ‹_›)
      · cases h; exact .failToDrain (Or.inr ‹_›)
      · rename_i hphase
        split at h
        · cases h; exact .beginDraining (Or.inl hphase) ‹_›
        · cases h; exact .drainNothing (Or.inl hphase) ‹_›
      · rename_i hphase
        split at h
        · cases h; exact .beginDraining (Or.inr hphase) ‹_›
        · cases h; exact .drainNothing (Or.inr hphase) ‹_›
  | drainEvents deadline status => exact effect_of_discardEvent h
  | cancelReader => cases h; exact .cancelReader
  | awaitPong id =>
      simp only [perform] at h
      split at h
      · cases h; exact .awaitNothing ‹_›
      · rename_i w hw
        split at h
        · cases h
        · cases h; exact .awaitOutcome hw ‹_›
        · cases h; exact .awaitOutcome hw ‹_›
  | beginConnecting host path headers nonce =>
      simp only [perform, Connection.takeTransport] at h
      split at h
      · rename_i hstage
        split at h
        · cases h; exact .failToBuild hstage ‹_›
        · cases h; exact .beginConnecting hstage ‹_›
      · cases h; exact .connectAgain ‹_›
  | sendRequest request =>
      obtain ⟨t, ht, rfl, rfl⟩ | ⟨ht, rfl, rfl⟩ := writeHead_eq_some h
      · exact .sendRequest ht
      · exact .failToRequest ht
  | awaitResponse request =>
      simp only [perform] at h
      obtain ⟨head, buffer, hhead, rfl, rfl⟩ | ⟨failure, hfail, rfl, rfl⟩ := withHead_eq_some h
      · exact .judgeResponse hhead
      · exact .missResponse hfail
  | beginAccepting =>
      simp only [perform, Connection.takeTransport] at h
      split at h
      · cases h; exact .beginAccepting ‹_›
      · cases h; exact .acceptAgain ‹_›
  | awaitRequest =>
      simp only [perform] at h
      obtain ⟨head, buffer, hhead, rfl, rfl⟩ | ⟨failure, hfail, rfl, rfl⟩ := withHead_eq_some h
      · exact .judgeRequest hhead
      · exact .missRequest hfail
  | sendAcceptance request response =>
      obtain ⟨t, ht, rfl, rfl⟩ | ⟨ht, rfl, rfl⟩ := writeHead_eq_some h
      · exact .sendAcceptance ht
      · exact .failToAccept ht
  | sendRejection failure =>
      obtain ⟨t, ht, rfl, rfl⟩ | ⟨ht, rfl, rfl⟩ := writeHead_eq_some h
      · exact .sendRejection ht
      · exact .failToReject ht
  | failHandshake failure => cases h; exact .failHandshake
  | establish protocol a => cases h; exact .establish

/-! ### The listed effects are no others -/

/-- A head that cannot be collected **fails**. -/
theorem withHead_of_headFails {c : Connection} {failure : Handshake.Failure}
    (h : HeadFails c failure) {fail : Handshake.Failure → Script} {go : Bytes → Script} :
    c.withHead fail go = some (c, fail failure) := by
  cases h with
  | tooLarge h => simp only [withHead, h]
  | ended h hend he | failed h hend he =>
      rw [Transport.isExhausted, Bool.and_eq_true] at hend
      simp only [withHead, h, if_pos hend.1, he]

/-- **Each listed effect** is what its action does. -/
theorem perform_of_effect {c : Connection} {task : TaskId} {action : Action} {rest : Script}
    {c' : Connection} {script : Script} (h : Effect c task action rest c' script) :
    c.perform task action rest = some (c', script) := by
  cases h with
  | passOpen h | beginClosing h | answerPing h => exact if_pos h
  | failOpen h | failClosing h | ignorePing h => exact if_neg h
  | followClosing h => simp only [perform, if_pos h]
  | pastClosing h => simp only [perform, if_neg h]
  | claimClose h => exact if_neg (Bool.eq_false_iff.mp h)
  | closeClaimed h => exact if_pos h
  | enlist h | startWaiting h | abandon h => subst h; rfl
  | enlistReader h | startWaitingReader h | abandonReader h => subst h; rfl
  | awaitNothing h => simp only [perform, h, ending]
  | @awaitOutcome _ _ w outcome h ho =>
      simp only [perform, h, ho]
      cases outcome <;> rfl
  | queueUp h hne | queueUpToTake h hne => simp only [perform, withLock, if_neg h, if_neg hne]
  | startWriting h hw | lockInVain h hw =>
      simp only [perform, withLock, if_pos h, Connection.startWriting, hw, unlock]
  | feedInVain hw | flushInVain hw => simp only [perform, feedFrame, flushWriter, hw]
  | makeRoom hw hfull ht | failToMakeRoom hw hfull ht =>
      simp only [perform, feedFrame, hw, if_pos hfull, drainWriter, ht, writeFailed]
  | refuseFrame hw hroom he | fedAll hw hroom he | feed hw hroom he =>
      simp only [perform, feedFrame, hw, if_neg (Bool.eq_false_iff.mp hroom), he]
  | flush hw ht | failToFlush hw ht =>
      simp only [perform, flushWriter, hw, drainWriter, ht, writeFailed, unlock]
  | takeNothing h hw => simp only [perform, withLock, if_pos h, removeWriter, hw, unlock]
  | takeWriter h hw =>
      simp only [perform, withLock, if_pos h, removeWriter, hw, unlock]
      rfl
  | shutBroken ht | shutDown ht => simp only [perform, shutTransport, ht]
  | readEnd hd hend => simp only [perform, readNext, hd, if_pos hend]
  | readFault hd | readFrame hd => simp only [perform, readNext, hd]
  | keepFault h =>
      simp only [perform, reportTo]
      obtain hcode | hphase := h
      · rw [hcode]
      · split
        · rfl
        · rw [if_pos hphase]
  | reportFault h hphase => simp only [perform, reportTo, h, if_neg hphase]
  | offer h => exact if_pos h
  | takeItem hstage h | takeNext hstage h => simp only [perform, hstage, nextEvent, h, ending]
  | takeLast hstage h hend => simp only [perform, hstage, nextEvent, h, if_pos hend, ending]
  | takeEarly hstage => simp only [perform, hstage, ending]
  | takeNone hstage => obtain h | h := hstage <;> simp only [perform, h, ending]
  | takeEnd hstage =>
      simp only [perform]
      split
      · rename_i hrunning
        obtain ⟨h, hend⟩ := hstage hrunning
        simp only [nextEvent, h, if_pos hend, ending]
      all_goals rfl
  | failToDrain h => obtain h | h := h <;> simp only [perform, h, ending]
  | beginDraining h hstage => obtain h | h := h <;> simp only [perform, h, if_pos hstage]
  | drainNothing h hstage => obtain h | h := h <;> simp only [perform, h, if_neg hstage, ending]
  | @discard _ _ _ item _ _ h hs =>
      rw [hs]
      simp only [perform, discardEvent, h]
      match item with
      | .ok (.message _) | .ok (.ping _) | .ok (.pong _) | .ok (.close _) | .error _ => rfl
  | drained h hend => simp only [perform, discardEvent, h, if_pos hend, ending]
  | drainTimeout h hgoesOn hlate =>
      simp only [perform, discardEvent, h, if_neg (Bool.eq_false_iff.mp hgoesOn), if_pos hlate]
  | beginConnecting hstage hbuild | failToBuild hstage hbuild =>
      simp only [perform, takeTransport, if_pos hstage, hbuild]
  | beginAccepting hstage => exact if_pos hstage
  | connectAgain hstage | acceptAgain hstage => exact if_neg hstage
  | sendRequest ht | failToRequest ht | sendAcceptance ht | failToAccept ht | sendRejection ht
  | failToReject ht => simp only [perform, writeHead, ht]
  | judgeResponse h | judgeRequest h => simp only [perform, withHead, h]
  | missResponse h | missRequest h => simp only [perform, withHead_of_headFails h]
  | _ => rfl

/-! ### What no action changes -/

/-- No action changes what comes **from the peer**, nor whether the peer is there. -/
theorem Effect.transport {c c₁ : Connection} {task : TaskId} {action : Action}
    {rest script : Script} (heffect : Effect c task action rest c₁ script) :
    ∃ outgoing shut, c₁.transport = { c.transport with outgoing := outgoing, shut := shut } := by
  cases heffect with
  | makeRoom _ _ ht => exact ⟨_, _, Transport.write_eq_done ht⟩
  | flush _ ht => exact ⟨_, _, Transport.write_eq_done ht⟩
  | @shutDown _ _ t ht =>
      refine ⟨t.outgoing, true, ?_⟩
      rw [Transport.write_eq_done ht]
  | sendRequest ht => exact ⟨_, _, Transport.write_eq_done ht⟩
  | sendAcceptance ht => exact ⟨_, _, Transport.write_eq_done ht⟩
  | sendRejection ht => exact ⟨_, _, Transport.write_eq_done ht⟩
  | failHandshake => exact ⟨_, true, rfl⟩
  | _ => exact ⟨_, _, rfl⟩

/-- No action changes what a connection was made with. -/
theorem Effect.settings {c c₁ : Connection} {task : TaskId} {action : Action} {rest script : Script}
    (heffect : Effect c task action rest c₁ script) :
    c₁.role = c.role ∧ c₁.options = c.options := by
  cases heffect <;> exact ⟨rfl, rfl⟩

/-- No action takes time. -/
theorem Effect.now_eq {c c₁ : Connection} {task : TaskId} {action : Action} {rest script : Script}
    (heffect : Effect c task action rest c₁ script) : c₁.now = c.now := by
  cases heffect <;> rfl

end Connection

end WebSocket
