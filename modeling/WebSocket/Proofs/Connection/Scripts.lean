import Mathlib.Data.List.Nodup
import Mathlib.Data.List.Pairwise
import WebSocket.Proofs.Connection.Run
import WebSocket.Proofs.Frame.Rules
import WebSocket.Proofs.Message.Assembly

/-!
# The scripts that tasks follow

An operation begins with a script of its own, and every action replaces the script by what is still
to be done. Only few scripts ever come up. `CallScript` lists those of an operation, by what the
operation needs for itself, and `ReaderScript` those of the reader. Both lists are closed under
every effect of an action.

## Main results

* `Connection.ReaderScript.next`, `Connection.CallScript.next`: a listed script is followed by a
  **listed script**.
* `Connection.Effect.comesTo`: how a task **comes to** an action that has its place in a script.
* `Connection.Reachable.scripted`: no other script ever comes up.
-/

namespace WebSocket

/-- The actions with which an operation **begins**. -/
def Action.isOpening : Action → Bool
  | .answer _ | .ensureOpen | .awaitPong _ | .takeEvent | .takeEventOrEnd | .beginClosing
  | .beginDraining | .cancelReader | .beginConnecting .. | .beginAccepting => true
  | _ => false

theorem Claim.agrees_comm (a b : Claim) : a.agrees b = b.agrees a := by
  cases a <;> cases b <;> rfl

namespace Connection

/-! ### Writing -/

/-- The action at which a task stands **while it writes** frames: it waits for the lock, hands over
what is left of the frames, or has the writer write everything. -/
inductive Writes (frames : List Frame) (recovery : Recovery) : Action → Prop
  | lock : Writes frames recovery (.lockWriter frames recovery)
  | feed {more : List Frame} (h : more <:+ frames) : Writes frames recovery (.feed more recovery)
  | flush : Writes frames recovery (.flush recovery)

/-- Writing goes on, is **done**, or has failed, with the writer lost or not. -/
theorem Writes.next {frames : List Frame} {recovery : Recovery} {action : Action}
    (h : Writes frames recovery action) {c : Connection} {task : TaskId} {rest : Script}
    {c' : Connection} {script : Script} (heffect : Effect c task action rest c' script) :
    (∃ action', Writes frames recovery action' ∧ script = action' :: rest) ∨
      script = rest ∨ (∃ e, script = Script.recover recovery e rest) ∨
        ∃ e, script = .markClosed :: Script.recover recovery e rest := by
  cases h with
  | lock =>
      cases heffect with
      | queueUp => exact Or.inl ⟨_, .lock, rfl⟩
      | startWriting => exact Or.inl ⟨_, .feed (List.suffix_refl frames), rfl⟩
      | lockInVain => exact Or.inr (Or.inr (Or.inl ⟨_, rfl⟩))
  | feed hmore =>
      cases heffect with
      | fedAll => exact Or.inl ⟨_, .flush, rfl⟩
      | feedInVain => exact Or.inr (Or.inr (Or.inl ⟨_, rfl⟩))
      | makeRoom => exact Or.inl ⟨_, .feed hmore, rfl⟩
      | failToMakeRoom => exact Or.inr (Or.inr (Or.inr ⟨_, rfl⟩))
      | refuseFrame => exact Or.inr (Or.inr (Or.inl ⟨_, rfl⟩))
      | feed => exact Or.inl ⟨_, .feed ((List.suffix_cons _ _).trans hmore), rfl⟩
  | flush =>
      cases heffect with
      | flushInVain => exact Or.inr (Or.inr (Or.inl ⟨_, rfl⟩))
      | flush => exact Or.inr (Or.inl rfl)
      | failToFlush => exact Or.inr (Or.inr (Or.inr ⟨_, rfl⟩))

/-! ### The reader -/

/-- The scripts of the **reader**. -/
inductive ReaderScript : Script → Prop
  | ended : ReaderScript []
  | reading : ReaderScript [.readFrame]
  | offering {e : Event} (hgoesOn : ∀ status, e ≠ .close status) :
      ReaderScript [.offer (.ok e), .readFrame]
  | answering {payload : Bytes} (hlength : payload.length ≤ Frame.maxControlPayload) :
      ReaderScript [.answerPing payload, .offer (.ok (.ping payload)), .readFrame]
  | ponging {payload : Bytes} {action : Action}
      (hlength : payload.length ≤ Frame.maxControlPayload)
      (h : Writes [Frame.pong payload] .stop action) :
      ReaderScript [action, .offer (.ok (.ping payload)), .readFrame]
  | resolving {payload : Bytes} :
      ReaderScript [.resolvePings payload, .offer (.ok (.pong payload)), .readFrame]
  | reporting {fault : Fault} :
      ReaderScript [.reportFault fault, .offer (.error (.codec fault)), .markClosed, .takeWriter]
  | following {status : Option Close.Status} {item : Except ConnectionError Event} :
      ReaderScript
        [.followClosing, .claimClose status .ignore, .offer item, .markClosed, .takeWriter]
  | claiming {status : Option Close.Status} {item : Except ConnectionError Event} :
      ReaderScript [.claimClose status .ignore, .offer item, .markClosed, .takeWriter]
  | closing {status : Option Close.Status} {item : Except ConnectionError Event} {action : Action}
      (h : Writes [Frame.close status] .ignore action) :
      ReaderScript [action, .offer item, .markClosed, .takeWriter]
  | broken {item : Except ConnectionError Event} :
      ReaderScript [.markClosed, .offer item, .markClosed, .takeWriter]
  | offeringLast {item : Except ConnectionError Event} :
      ReaderScript [.offer item, .markClosed, .takeWriter]
  | brokenPong : ReaderScript [.markClosed, .markClosed, .takeWriter]
  | finishing : ReaderScript [.markClosed, .takeWriter]
  | releasing : ReaderScript [.takeWriter]
  | shutting {held : Bytes} : ReaderScript [.shutDown held]

/-- The reader **begins** to react to a frame with one of these actions. -/
def reacts : Action → Bool
  | .readFrame | .offer _ | .answerPing _ | .resolvePings _ | .reportFault _
  | .followClosing => true
  | _ => false

/-- What the reader does first about what a frame completes. -/
theorem ofAssembled_head (assembled : Except Fault (Option Assembled)) (more : Script) :
    ∃ action rest, Script.ofAssembled assembled ++ more = action :: rest ∧
      reacts action = true := by
  cases assembled with
  | error fault => exact ⟨_, _, rfl, rfl⟩
  | ok completed =>
      cases completed with
      | none => exact ⟨_, _, rfl, rfl⟩
      | some what =>
          cases what with
          | message m => exact ⟨_, _, rfl, rfl⟩
          | control f =>
              simp only [Script.ofAssembled, Script.ofControl]
              split <;> try exact ⟨_, _, rfl, rfl⟩
              unfold Script.ofClose
              split <;> exact ⟨_, _, rfl, rfl⟩

/-- What the reader does about a control frame. -/
theorem ReaderScript.ofControl {f : Frame}
    (h : Frame.controlViolation? f.opcode f.fin f.payload.length = none) :
    ReaderScript (Script.ofControl f) := by
  unfold Script.ofControl
  split
  · rename_i hping
    exact .answering (Frame.length_control_le h (by rw [hping]; rfl))
  · exact .resolving
  · unfold Script.ofClose
    split
    · exact .reporting
    · exact .following
  · exact .reading
  · exact .reading
  · exact .reading

/-- What the reader does about what a frame completes. -/
theorem ReaderScript.ofAssembled {a : Assembly} {f : Frame}
    (h : Frame.controlViolation? f.opcode f.fin f.payload.length = none) :
    ReaderScript (Script.ofAssembled (a.feed f).2) := by
  cases hfed : (a.feed f).2 with
  | error fault => exact .reporting
  | ok completed =>
      cases completed with
      | none => exact .reading
      | some what =>
          cases what with
          | message m => exact .offering nofun
          | control g =>
              obtain rfl : f = g := Assembly.control_of_feed hfed
              exact .ofControl h

/-- **The reader** goes from one of its scripts to another. -/
theorem ReaderScript.next {action : Action} {rest : Script} (h : ReaderScript (action :: rest))
    {c c' : Connection} {script : Script}
    (heffect : Effect c .reader action rest c' script) : ReaderScript script := by
  cases h with
  | reading =>
      cases heffect with
      | readEnd => exact .finishing
      | readFault => exact .reporting
      | readFrame hd =>
          rw [List.append_nil]
          exact .ofAssembled (Codec.obeys_of_decode hd).control
  | offering =>
      cases heffect with
      | offer => exact .reading
  | answering hlength =>
      cases heffect with
      | answerPing => exact .ponging hlength .lock
      | ignorePing => exact .offering nofun
  | ponging hlength hwrites =>
      obtain ⟨a, ha, rfl⟩ | rfl | ⟨e, rfl⟩ | ⟨e, rfl⟩ := hwrites.next heffect
      · exact .ponging hlength ha
      · exact .offering nofun
      · exact .finishing
      · exact .brokenPong
  | resolving =>
      cases heffect with
      | resolvePings => exact .offering nofun
  | reporting =>
      cases heffect with
      | keepFault => exact .offeringLast
      | reportFault => exact .following
  | following =>
      cases heffect with
      | followClosing => exact .claiming
      | pastClosing => exact .claiming
  | claiming =>
      cases heffect with
      | claimClose => exact .closing .lock
      | closeClaimed => exact .offeringLast
  | closing hwrites =>
      obtain ⟨a, ha, rfl⟩ | rfl | ⟨e, rfl⟩ | ⟨e, rfl⟩ := hwrites.next heffect
      · exact .closing ha
      · exact .offeringLast
      · exact .offeringLast
      · exact .broken
  | broken =>
      cases heffect with
      | markClosed => exact .offeringLast
  | offeringLast =>
      cases heffect with
      | offer => exact .finishing
  | brokenPong =>
      cases heffect with
      | markClosed => exact .finishing
  | finishing =>
      cases heffect with
      | markClosed => exact .releasing
  | releasing =>
      cases heffect with
      | queueUpToTake => exact .releasing
      | takeNothing => exact .ended
      | takeWriter => exact .shutting
  | shutting =>
      cases heffect with
      | shutBroken => exact .ended
      | shutDown => exact .ended

/-! ### Operations -/

/-- The scripts of an operation that is **no handshake**, by what it needs for itself. -/
inductive OrdinaryScript : Claim → Script → Prop
  | ended {claim : Claim} {a : Answer} : OrdinaryScript claim [.answer a]
  | refusing {claim : Claim} : OrdinaryScript claim [.refuse]
  | send {m : Message} {size : Nat} :
      OrdinaryScript .shared [.ensureOpen, .lockWriter (m.fragments size) .report, .answer .done]
  | sending {m : Message} {size : Nat} {action : Action}
      (h : Writes (m.fragments size) .report action) :
      OrdinaryScript .shared [action, .answer .done]
  | ping {payload : Bytes} (hlength : payload.length ≤ Frame.maxControlPayload) :
      OrdinaryScript .shared
        [.ensureOpen, .enlist payload, .lockWriter [Frame.ping payload] .report, .startWaiting,
          .answer .done]
  | enlisting {payload : Bytes} (hlength : payload.length ≤ Frame.maxControlPayload) :
      OrdinaryScript .shared
        [.enlist payload, .lockWriter [Frame.ping payload] .report, .startWaiting, .answer .done]
  | pinging {payload : Bytes} {action : Action}
      (hlength : payload.length ≤ Frame.maxControlPayload)
      (h : Writes [Frame.ping payload] .report action) :
      OrdinaryScript .shared [action, .startWaiting, .answer .done]
  | pinged : OrdinaryScript .shared [.startWaiting, .answer .done]
  | close {status : Close.Status} (hcode : status.code.isReserved = false) :
      OrdinaryScript .shared [.beginClosing, .claimClose (some status) .report, .answer .done]
  | claiming {status : Close.Status} (hcode : status.code.isReserved = false) :
      OrdinaryScript .shared [.claimClose (some status) .report, .answer .done]
  | closing {status : Close.Status} {action : Action} (hcode : status.code.isReserved = false)
      (h : Writes [Frame.close (some status)] .report action) :
      OrdinaryScript .shared [action, .answer .done]
  | broken {e : ConnectionError} :
      OrdinaryScript .shared [.markClosed, .abandon, .answer (.failed e)]
  | failing {e : ConnectionError} : OrdinaryScript .shared [.abandon, .answer (.failed e)]
  | waiting {ping : Nat} : OrdinaryScript .nothing [.awaitPong ping]
  | receive : OrdinaryScript .whole [.takeEvent]
  | receiveOrEnd : OrdinaryScript .whole [.takeEventOrEnd]
  | drain : OrdinaryScript .whole [.beginDraining]
  | draining {deadline : Nat} {status : Option Close.Status} :
      OrdinaryScript .whole [.drainEvents deadline status]
  | abort {a : Answer} (ha : a = .done ∨ a = .failed .timeout) :
      OrdinaryScript .whole [.cancelReader, .markClosed, .takeWriter, .answer a]
  | finishing {a : Answer} (ha : a = .done ∨ a = .failed .timeout) :
      OrdinaryScript .whole [.markClosed, .takeWriter, .answer a]
  | releasing {a : Answer} (ha : a = .done ∨ a = .failed .timeout) :
      OrdinaryScript .whole [.takeWriter, .answer a]
  | shutting {held : Bytes} {a : Answer} (ha : a = .done ∨ a = .failed .timeout) :
      OrdinaryScript .whole [.shutDown held, .answer a]

/-- The scripts of an operation that **has taken the transport** for a handshake. -/
inductive Negotiating : Script → Prop
  | sendRequest {request : Handshake.Request} : Negotiating [.sendRequest request]
  | awaitResponse {request : Handshake.Request} : Negotiating [.awaitResponse request]
  | awaitRequest : Negotiating [.awaitRequest]
  | sendAcceptance {request : Handshake.Request} {response : Handshake.Response} :
      Negotiating [.sendAcceptance request response]
  | sendRejection {failure : Handshake.Failure} : Negotiating [.sendRejection failure]
  | failHandshake {failure : Handshake.Failure} : Negotiating [.failHandshake failure]
  | establish {protocol : Option Bytes} {a : Answer} : Negotiating [.establish protocol a]

/-- The scripts of an **operation**, by what it needs for itself. -/
inductive CallScript : Claim → Script → Prop
  | ordinary {claim : Claim} {script : Script} (h : OrdinaryScript claim script) :
      CallScript claim script
  | connect {host path : String} {headers : List (String × String)} {nonce : Bytes} :
      CallScript .whole [.beginConnecting host path headers nonce]
  | accept : CallScript .whole [.beginAccepting]
  | negotiating {script : Script} (h : Negotiating script) : CallScript .whole script

/-- Every operation begins with a listed script. -/
theorem CallScript.ofOperation (size : Nat) (operation : Operation) :
    CallScript operation.claim (Script.ofOperation size operation) := by
  cases operation with
  | connect => exact .connect
  | accept => exact .accept
  | send m => exact .ordinary .send
  | sendFragmented m size => exact .ordinary .send
  | ping payload =>
      simp only [Script.ofOperation]
      split
      · exact .ordinary .ended
      · rename_i hlength
        exact .ordinary (.ping (Nat.le_of_not_lt hlength))
  | awaitPong => exact .ordinary .waiting
  | receive => exact .ordinary .receive
  | next => exact .ordinary .receiveOrEnd
  | close code reason =>
      simp only [Script.ofOperation]
      split
      · exact .ordinary .ended
      · rename_i hcode
        exact .ordinary (.close (Bool.eq_false_iff.mpr hcode))
  | drain => exact .ordinary .drain
  | abort => exact .ordinary (.abort (Or.inl rfl))

theorem Negotiating.judgeResponse (request : Handshake.Request) (head : Bytes) :
    Negotiating (Connection.judgeResponse request head) := by
  unfold Connection.judgeResponse
  split
  · exact .failHandshake
  · split
    · exact .failHandshake
    · exact .establish

theorem Negotiating.turnDown (failure : Handshake.Failure) :
    Negotiating (Connection.turnDown failure) := by
  unfold Connection.turnDown
  split
  · exact .sendRejection
  · exact .failHandshake

theorem Negotiating.judgeRequest (protocols : List String) (head : Bytes) :
    Negotiating (Connection.judgeRequest protocols head) := by
  unfold Connection.judgeRequest
  split
  · exact .turnDown _
  · exact .sendAcceptance

/-- A handshake **goes on**, or it has ended with an answer. -/
theorem Negotiating.next {action : Action} {rest : Script} (h : Negotiating (action :: rest))
    {c c' : Connection} {task : TaskId} {script : Script}
    (heffect : Effect c task action rest c' script) :
    Negotiating script ∨ ∃ a, script = [.answer a] := by
  cases h with
  | sendRequest =>
      cases heffect with
      | sendRequest => exact Or.inl .awaitResponse
      | failToRequest => exact Or.inl .failHandshake
  | awaitResponse =>
      cases heffect with
      | judgeResponse => exact Or.inl (.judgeResponse _ _)
      | missResponse => exact Or.inl .failHandshake
  | awaitRequest =>
      cases heffect with
      | judgeRequest => exact Or.inl (.judgeRequest _ _)
      | missRequest => exact Or.inl (.turnDown _)
  | sendAcceptance =>
      cases heffect with
      | sendAcceptance => exact Or.inl .establish
      | failToAccept => exact Or.inl .failHandshake
  | sendRejection =>
      cases heffect with
      | sendRejection => exact Or.inl .failHandshake
      | failToReject => exact Or.inl .failHandshake
  | failHandshake =>
      cases heffect with
      | failHandshake => exact Or.inr ⟨_, rfl⟩
  | establish =>
      cases heffect with
      | establish => exact Or.inr ⟨_, rfl⟩

/-! ### What comes only in its place -/

/-- The actions that **have their place** in a script: no failure to write, no frame from the peer
and no head leads straight to one of them. -/
def isPlaced : Action → Bool
  | .claimClose .. | .flush _ | .takeWriter | .shutDown _ => true
  | _ => false

/-- How a task **comes to** an action that has its place. -/
inductive ComesTo (c : Connection) (task : TaskId) (rest : Script) (c₁ : Connection) :
    Action → Action → Script → Prop
  /-- It is the next one in the script. -/
  | next {action next : Action} {more : Script} (hrest : rest = next :: more) :
      ComesTo c task rest c₁ action next more
  /-- All frames are handed over, and the slot is emptied. -/
  | fedAll {recovery : Recovery} {w w' : Writer} {drawn : Nat} (hw : c.writer = some w)
      (he : c.emptySlot w = .ok (w', drawn)) (hw₁ : c₁.writer = some w') :
      ComesTo c task rest c₁ (.feed [] recovery) (.flush recovery) rest
  /-- It waits at the lock in order to take the writer away. -/
  | waits : ComesTo c task rest c₁ .takeWriter .takeWriter rest
  /-- It has taken the writer away. -/
  | takes {w : Writer} (hheld : (c.lock.acquire task).holder = some task)
      (hw : c.writer = some w) :
      ComesTo c task rest c₁ .takeWriter (.shutDown (c.emptied w).1.bytes) rest

/-- **How a task comes** to an action that has its place. -/
theorem Effect.comesTo {c c₁ : Connection} {task : TaskId} {action next : Action}
    {rest script more : Script} (heffect : Effect c task action rest c₁ script)
    (hnew : script = next :: more) (hplaced : isPlaced next = true) :
    ComesTo c task rest c₁ action next more := by
  have hrecover : ∀ {r : Recovery} {e : ConnectionError},
      Script.recover r e rest = next :: more → rest = next :: more := by
    intro r e heq
    cases r with
    | ignore => exact heq
    | _ => cases heq; cases hplaced
  have hjudged : Negotiating script → False := fun hnegotiating => by
    rw [hnew] at hnegotiating
    cases hnegotiating <;> cases hplaced
  cases heffect with
  | fedAll hw _ he => cases hnew; exact .fedAll hw he rfl
  | queueUpToTake => cases hnew; exact .waits
  | takeWriter hheld hw => cases hnew; exact .takes hheld hw
  | lockInVain | feedInVain | refuseFrame | flushInVain => exact .next (hrecover hnew)
  | readFrame =>
      obtain ⟨first, r, heq, hreacts⟩ := ofAssembled_head (c.assembly.feed _).2 rest
      rw [heq] at hnew
      cases hnew
      cases next <;> first | (cases hreacts; done) | cases hplaced
  | judgeResponse => exact (hjudged (.judgeResponse _ _)).elim
  | judgeRequest => exact (hjudged (.judgeRequest _ _)).elim
  | missRequest => exact (hjudged (.turnDown _)).elim
  | _ => first
    | exact .next hnew
    | (cases hnew; cases hplaced)

/-! ### Operations, step by step -/

/-- An operation that is no handshake goes from one of its scripts to another. -/
theorem OrdinaryScript.next {claim : Claim} {action : Action} {rest : Script}
    (h : OrdinaryScript claim (action :: rest)) {c c' : Connection} {id : Nat} {script : Script}
    (heffect : Effect c (.call id) action rest c' script) : OrdinaryScript claim script := by
  cases h with
  | ended => cases heffect
  | refusing =>
      cases heffect with
      | refuse => exact .ended
  | send =>
      cases heffect with
      | passOpen => exact .sending .lock
      | failOpen => exact .ended
  | sending hwrites =>
      obtain ⟨a, ha, rfl⟩ | rfl | ⟨e, rfl⟩ | ⟨e, rfl⟩ := hwrites.next heffect
      · exact .sending ha
      · exact .ended
      · exact .failing
      · exact .broken
  | ping hlength =>
      cases heffect with
      | passOpen => exact .enlisting hlength
      | failOpen => exact .ended
  | enlisting hlength =>
      cases heffect with
      | enlist => exact .pinging hlength .lock
      | enlistReader h => cases h
  | pinging hlength hwrites =>
      obtain ⟨a, ha, rfl⟩ | rfl | ⟨e, rfl⟩ | ⟨e, rfl⟩ := hwrites.next heffect
      · exact .pinging hlength ha
      · exact .pinged
      · exact .failing
      · exact .broken
  | pinged =>
      cases heffect with
      | startWaiting => exact .ended
      | startWaitingReader h => cases h
  | close hcode =>
      cases heffect with
      | beginClosing => exact .claiming hcode
      | failClosing => exact .refusing
  | claiming hcode =>
      cases heffect with
      | claimClose => exact .closing hcode .lock
      | closeClaimed => exact .ended
  | closing hcode hwrites =>
      obtain ⟨a, ha, rfl⟩ | rfl | ⟨e, rfl⟩ | ⟨e, rfl⟩ := hwrites.next heffect
      · exact .closing hcode ha
      · exact .ended
      · exact .failing
      · exact .broken
  | broken =>
      cases heffect with
      | markClosed => exact .failing
  | failing =>
      cases heffect with
      | abandon => exact .ended
      | abandonReader h => cases h
  | waiting =>
      cases heffect with
      | awaitNothing => exact .ended
      | awaitOutcome => exact .ended
  | receive => cases heffect <;> exact .ended
  | receiveOrEnd => cases heffect <;> exact .ended
  | drain =>
      cases heffect with
      | failToDrain => exact .ended
      | beginDraining => exact .draining
      | drainNothing => exact .ended
  | draining =>
      cases heffect with
      | discard => exact .draining
      | drained => exact .ended
      | drainTimeout => exact .abort (Or.inr rfl)
  | abort ha =>
      cases heffect with
      | cancelReader => exact .finishing ha
  | finishing ha =>
      cases heffect with
      | markClosed => exact .releasing ha
  | releasing ha =>
      cases heffect with
      | queueUpToTake => exact .releasing ha
      | takeNothing => exact .ended
      | takeWriter => exact .shutting ha
  | shutting =>
      cases heffect with
      | shutBroken => exact .ended
      | shutDown => exact .ended

/-- **An operation** goes from one of its scripts to another. -/
theorem CallScript.next {claim : Claim} {action : Action} {rest : Script}
    (h : CallScript claim (action :: rest)) {c c' : Connection} {id : Nat} {script : Script}
    (heffect : Effect c (.call id) action rest c' script) : CallScript claim script := by
  cases h with
  | ordinary h => exact .ordinary (h.next heffect)
  | connect =>
      cases heffect with
      | beginConnecting => exact .negotiating .sendRequest
      | failToBuild => exact .negotiating .failHandshake
      | connectAgain => exact .ordinary .ended
  | accept =>
      cases heffect with
      | beginAccepting => exact .negotiating .awaitRequest
      | acceptAgain => exact .ordinary .ended
  | negotiating h =>
      obtain hgoing | ⟨a, rfl⟩ := h.next heffect
      · exact .negotiating hgoing
      · exact .ordinary .ended

/-! ### All tasks together -/

/-- No action begins or ends an operation. -/
theorem Effect.calls_eq {c : Connection} {task : TaskId} {action : Action} {rest : Script}
    {c' : Connection} {script : Script} (h : Effect c task action rest c' script) :
    c'.calls = c.calls := by
  cases h <;> rfl

/-- The reader's script is left alone by all others, but for what **starts the reader**. -/
theorem Effect.reader_eq {c : Connection} {task : TaskId} {action : Action} {rest : Script}
    {c' : Connection} {script : Script} (h : Effect c task action rest c' script) :
    c'.reader = c.reader ∨
      ∃ protocol a, action = .establish protocol a ∧ c'.reader = [.readFrame] := by
  cases h with
  | establish => exact Or.inr ⟨_, _, rfl, rfl⟩
  | _ => exact Or.inl rfl

/-- **Who follows which script** after an action: its task follows the new script, the reader may
have been started, and all others go on as before. -/
theorem Effect.script_after {c : Connection} {task : TaskId} {action : Action} {rest : Script}
    {c₁ : Connection} {script : Script} (h : Effect c task action rest c₁ script)
    (hscript : c.script task = action :: rest) (other : TaskId) :
    (other = task ∧ (c₁.setScript task script).script other = script) ∨
      (other ≠ task ∧ (c₁.setScript task script).script other = c.script other) ∨
        (other = .reader ∧ other ≠ task ∧
          (c₁.setScript task script).script other = [.readFrame] ∧
            ∃ protocol a, action = .establish protocol a) := by
  by_cases hsame : other = task
  · refine Or.inl ⟨hsame, ?_⟩
    subst hsame
    cases other with
    | reader => rfl
    | call id =>
        obtain ⟨call, hcall, -⟩ := call?_of_script hscript
        rw [script_call, call?_setScript, if_pos rfl, call?, h.calls_eq]
        rw [call?] at hcall
        rw [hcall]
        rfl
  · rw [script_setScript_of_ne _ hsame]
    cases other with
    | reader =>
        obtain heq | ⟨protocol, a, haction, heq⟩ := h.reader_eq
        · exact Or.inr (Or.inl ⟨hsame, heq⟩)
        · exact Or.inr (Or.inr ⟨rfl, hsame, heq, protocol, a, haction⟩)
    | call id =>
        refine Or.inr (Or.inl ⟨hsame, ?_⟩)
        rw [script_call, script_call, call?, call?, h.calls_eq]

theorem Effect.script_self {c : Connection} {task : TaskId} {action : Action} {rest : Script}
    {c₁ : Connection} {script : Script} (h : Effect c task action rest c₁ script)
    (hscript : c.script task = action :: rest) :
    (c₁.setScript task script).script task = script := by
  obtain ⟨-, heq⟩ | ⟨hne, -⟩ | ⟨-, hne, -⟩ := h.script_after hscript task
  · exact heq
  · exact absurd rfl hne
  · exact absurd rfl hne

/-- A task that acts takes **the first action of its script**. -/
theorem perform_of_step {c c' : Connection} {task : TaskId} {action : Action} {rest : Script}
    (hstep : c.step (.act task) = some c') (hscript : c.script task = action :: rest) :
    ∃ c₁ script, c.perform task action rest = some (c₁, script) ∧
      c' = c₁.setScript task script ∧ c'.script task = script := by
  simp only [step, act, hscript] at hstep
  split at hstep
  · cases hstep
  · rename_i c₁ script hperform
    cases hstep
    exact ⟨c₁, script, hperform, rfl, (effect_of_perform hperform).script_self hscript⟩

/-- With the operation of one number gone, the others go on as before. -/
theorem script_of_filter {c c' : Connection} {id : Nat}
    (hcalls : c'.calls = c.calls.filter fun call => call.id != id) (j : Nat) :
    c'.script (.call j) = if j = id then [] else c.script (.call j) := by
  simp only [script_call, call?, hcalls, List.find?_filter]
  by_cases heq : j = id
  · subst heq
    rw [if_pos rfl, List.find?_eq_none.mpr]
    · rfl
    · intro call _
      simp
  · rw [if_neg heq]
    congr 2
    refine congrArg (fun p => List.find? p c.calls) (funext fun call => ?_)
    by_cases hj : call.id = j
    · simp [hj, heq]
    · simp [hj]

/-- An operation that begins follows its first script, and the others go on as before. -/
theorem script_of_append {c c' : Connection} (call : Call) (hcalls : c'.calls = c.calls ++ [call])
    (hfresh : ∀ old ∈ c.calls, old.id ≠ call.id) (j : Nat) :
    c'.script (.call j) = if j = call.id then call.script else c.script (.call j) := by
  simp only [script_call, call?, hcalls, List.find?_append]
  by_cases heq : j = call.id
  · have hnone : c.calls.find? (fun old => old.id == j) = none :=
      List.find?_eq_none.mpr fun old hold => by simpa [heq] using hfresh old hold
    have hfound : [call].find? (fun old => old.id == j) = some call := by simp [heq]
    rw [if_pos heq, hnone, hfound]
    rfl
  · have hone : [call].find? (fun old => old.id == j) = none := by
      simp [Ne.symm heq]
    rw [if_neg heq, hone, Option.or_none]

/-- The number of an operation that begins is not in use. -/
theorem ids_of_isFresh {c : Connection} {id : Nat} (h : c.isFresh id = true) :
    ∀ old ∈ c.calls, old.id ≠ id := by
  simp only [isFresh, Bool.and_eq_true, List.all_eq_true] at h
  exact fun old hold => by simpa using h.1.1 old hold

/-- Nobody follows a script under a number that is not in use. -/
theorem script_of_isFresh {c : Connection} {id : Nat} (h : c.isFresh id = true) :
    c.script (.call id) = [] := by
  rw [script_call, call?, List.find?_eq_none.mpr]
  · rfl
  · exact fun old hold => by simpa using ids_of_isFresh h old hold

/-- An operation begins with an opening action. -/
theorem ofOperation_opening (size : Nat) (operation : Operation) :
    ∃ action rest, Script.ofOperation size operation = action :: rest ∧
      action.isOpening = true := by
  cases operation with
  | ping payload =>
      simp only [Script.ofOperation]
      split <;> exact ⟨_, _, rfl, rfl⟩
  | close code reason =>
      simp only [Script.ofOperation]
      split <;> exact ⟨_, _, rfl, rfl⟩
  | _ => exact ⟨_, _, rfl, rfl⟩

/-- **Who follows which script** after a move that is no action: a task goes on as before, has
gone, or has just begun. -/
theorem Transition.script_of_ne_act {c c' : Connection} {move : Move} (h : Transition c move c')
    (hact : ∀ task, move ≠ .act task) (task : TaskId) :
    c'.script task = c.script task ∨ c'.script task = [] ∨
      ∃ id operation, move = .start id operation ∧ task = .call id ∧ c.script task = [] ∧
        c'.script task = Script.ofOperation c.options.fragmentSize operation := by
  cases h with
  | @start id operation hfresh hmay =>
      cases task with
      | reader => exact Or.inl rfl
      | call j =>
          rw [script_of_append ⟨id, operation.claim, _⟩ rfl (ids_of_isFresh hfresh) j]
          split
          · rename_i heq
            subst heq
            exact Or.inr (Or.inr ⟨_, operation, rfl, rfl, script_of_isFresh hfresh, rfl⟩)
          · exact Or.inl rfl
  | act => exact absurd rfl (hact _)
  | collect | giveUp =>
      cases task with
      | reader => exact Or.inl rfl
      | call j =>
          rw [script_of_filter rfl j]
          split
          · exact Or.inr (Or.inl rfl)
          · exact Or.inl rfl
  | stopReader =>
      cases task with
      | reader => exact Or.inr (Or.inl rfl)
      | call j => exact Or.inl rfl
  | _ => cases task <;> exact Or.inl rfl

/-- Behind a move that is no action, a task stands where it stood, or at an action that **opens an
operation**. -/
theorem Transition.opening_of_ne_act {c c' : Connection} {move : Move} (h : Transition c move c')
    (hact : ∀ task, move ≠ .act task) {task : TaskId} {action : Action} {rest : Script}
    (hscript : c'.script task = action :: rest) :
    c.script task = action :: rest ∨ action.isOpening = true := by
  obtain heq | heq | ⟨_, operation, -, -, -, heq⟩ := h.script_of_ne_act hact task
  · exact Or.inl (heq ▸ hscript)
  · rw [heq] at hscript
    cases hscript
  · obtain ⟨first, more, hfirst, hopening⟩ := ofOperation_opening c.options.fragmentSize operation
    rw [heq, hfirst] at hscript
    cases hscript
    exact Or.inr hopening

/-- What holds of the **tasks of every connection**: all of them follow listed scripts, no two
operations have the same number, and operations in progress together may be so. -/
structure Scripted (c : Connection) : Prop where
  reader : ReaderScript c.reader
  calls : ∀ call ∈ c.calls, CallScript call.claim call.script
  distinct : (c.calls.map Call.id).Nodup
  agree : c.calls.Pairwise fun a b => a.claim.agrees b.claim = true

/-- With distinct numbers, the operation of a number is the only one. -/
theorem Scripted.call?_eq_some {c : Connection} (h : c.Scripted) {id : Nat} {call : Call} :
    c.call? id = some call ↔ call ∈ c.calls ∧ call.id = id := by
  constructor
  · exact fun hcall => ⟨mem_of_call? hcall, id_of_call? hcall⟩
  · rintro ⟨hmem, rfl⟩
    cases hfound : c.call? call.id with
    | none =>
        exact absurd (List.find?_eq_none.mp hfound call hmem) (by simp)
    | some other =>
        have heq : other.id = call.id := id_of_call? hfound
        rw [List.inj_on_of_nodup_map h.distinct (mem_of_call? hfound) hmem heq]

/-- A new script for one operation leaves the numbers and what each operation needs alone. -/
theorem Scripted.setScript {c : Connection} (h : c.Scripted) {task : TaskId} {script : Script}
    (hreader : task = .reader → ReaderScript script)
    (hcall : ∀ id call, task = .call id → c.call? id = some call → CallScript call.claim script) :
    (c.setScript task script).Scripted := by
  cases task with
  | reader => exact { h with reader := hreader rfl }
  | call id =>
      refine ⟨h.reader, ?_, ?_, ?_⟩
      · intro call hmem
        obtain ⟨old, hold, rfl⟩ := List.mem_map.mp hmem
        by_cases hid : (old.id == id) = true
        · simp only [if_pos hid]
          exact hcall id old rfl (h.call?_eq_some.mpr ⟨hold, by simpa using hid⟩)
        · simp only [if_neg hid]
          exact h.calls old hold
      · have hids : (c.setScript (.call id) script).calls.map Call.id = c.calls.map Call.id := by
          simp only [Connection.setScript, List.map_map]
          refine List.map_congr_left fun call _ => ?_
          simp only [Function.comp_apply]
          split <;> rfl
        rw [hids]
        exact h.distinct
      · simp only [Connection.setScript, List.pairwise_map]
        refine h.agree.imp fun {a b} hab => ?_
        split <;> split <;> exact hab

/-- With some operations gone, what holds of all still holds. -/
theorem Scripted.filter {c c' : Connection} (h : c.Scripted) (hreader : c'.reader = c.reader)
    (hcalls : c'.calls.Sublist c.calls) : c'.Scripted where
  reader := hreader ▸ h.reader
  calls := fun call hmem => h.calls call (hcalls.subset hmem)
  distinct := h.distinct.sublist (hcalls.map Call.id)
  agree := h.agree.sublist hcalls

/-- An action leads from listed scripts to listed scripts. -/
theorem Scripted.effect {c : Connection} (h : c.Scripted) {task : TaskId} {action : Action}
    {rest : Script} {c₁ : Connection} {script : Script} (hscript : c.script task = action :: rest)
    (heffect : Effect c task action rest c₁ script) : (c₁.setScript task script).Scripted := by
  have hbefore : c₁.Scripted := by
    refine ⟨?_, ?_, ?_, ?_⟩
    · obtain heq | ⟨_, _, _, heq⟩ := heffect.reader_eq
      · exact heq ▸ h.reader
      · exact heq ▸ .reading
    · exact heffect.calls_eq ▸ h.calls
    · exact heffect.calls_eq ▸ h.distinct
    · exact heffect.calls_eq ▸ h.agree
  refine hbefore.setScript ?_ ?_
  · rintro rfl
    have hreader := h.reader
    rw [show c.reader = action :: rest from hscript] at hreader
    exact hreader.next heffect
  · rintro id call rfl hcall
    have hold : c.call? id = some call := by
      rw [← hcall, call?, call?, heffect.calls_eq]
    have hcallScript := h.calls call (mem_of_call? hold)
    rw [← script_of_call? hold, hscript] at hcallScript
    exact hcallScript.next heffect

/-- Every move leads from listed scripts to listed scripts. -/
theorem Scripted.transition {c c' : Connection} {move : Move} (h : c.Scripted)
    (hmove : Transition c move c') : c'.Scripted := by
  cases hmove with
  | @start id operation hfresh hmay =>
      have hother := ids_of_isFresh hfresh
      simp only [mayStart, List.all_eq_true] at hmay
      refine ⟨h.reader, ?_, ?_, ?_⟩
      · intro call hmem
        obtain hmem | hmem := List.mem_append.mp hmem
        · exact h.calls call hmem
        · obtain rfl := List.mem_singleton.mp hmem
          exact .ofOperation _ _
      · rw [List.map_append, List.nodup_append]
        refine ⟨h.distinct, by simp, ?_⟩
        intro a ha b hb
        obtain ⟨call, hmem, rfl⟩ := List.mem_map.mp ha
        obtain rfl : b = id := by simpa using hb
        exact hother call hmem
      · rw [List.pairwise_append]
        refine ⟨h.agree, List.pairwise_singleton _ _, ?_⟩
        intro a ha b hb
        obtain rfl := List.mem_singleton.mp hb
        exact hmay a ha
  | act hscript heffect => exact h.effect hscript heffect
  | collect => exact h.filter rfl List.filter_sublist
  | giveUp => exact h.filter rfl List.filter_sublist
  | stopReader => exact { h with reader := .ended }
  | _ => exact { h with }

/-- In a connection that a run leads to, **all scripts are listed**. -/
theorem Reachable.scripted {c : Connection} (h : Reachable c) : c.Scripted := by
  refine h.invariant ?_ fun _ => Scripted.transition
  intro role options keys
  exact ⟨.ended, by simp [new], by simp [new], by simp [new]⟩

/-! ### What the scripts say about each other -/

theorem Scripted.readerScript {c : Connection} (h : c.Scripted) {action : Action} {rest : Script}
    (hscript : c.script .reader = action :: rest) : ReaderScript (action :: rest) := by
  have hreader := h.reader
  rw [script_reader] at hscript
  rwa [hscript] at hreader

theorem Scripted.callScript {c : Connection} (h : c.Scripted) {id : Nat} {action : Action}
    {rest : Script} (hscript : c.script (.call id) = action :: rest) :
    ∃ call claim, c.call? id = some call ∧ call.claim = claim ∧
      CallScript claim (action :: rest) := by
  obtain ⟨call, hcall, heq⟩ := call?_of_script hscript
  exact ⟨call, _, hcall, rfl, heq ▸ h.calls call (mem_of_call? hcall)⟩

/-- What the reader begins to react with is **no operation's** action. -/
theorem Scripted.not_reacts {c : Connection} (h : c.Scripted) {id : Nat} {action : Action}
    {rest : Script} (hscript : c.script (.call id) = action :: rest) : reacts action = false := by
  obtain ⟨_, _, -, -, hcall⟩ := h.callScript hscript
  cases hcall with
  | ordinary hordinary => cases hordinary with
      | sending hw => cases hw <;> rfl
      | pinging _ hw => cases hw <;> rfl
      | closing _ hw => cases hw <;> rfl
      | _ => rfl
  | negotiating hnegotiating => cases hnegotiating <;> rfl
  | _ => rfl

/-- An operation that needs the connection for itself is **alone** with those that need nothing. -/
theorem Scripted.eq_of_whole {c : Connection} (h : c.Scripted) {i j : Nat} {a b : Call}
    (ha : c.call? i = some a) (hb : c.call? j = some b) (hwhole : a.claim = .whole)
    (hb' : b.claim ≠ .nothing) : i = j := by
  by_contra hne
  have hab : a ≠ b := by
    rintro rfl
    exact hne ((id_of_call? ha).symm.trans (id_of_call? hb))
  have : Std.Symm fun x y : Call => x.claim.agrees y.claim = true :=
    ⟨fun x y hxy => by rwa [Claim.agrees_comm]⟩
  have hagree := h.agree.forall (mem_of_call? ha) (mem_of_call? hb) hab
  rw [hwhole] at hagree
  cases hclaim : b.claim with
  | whole => rw [hclaim] at hagree; cases hagree
  | shared => rw [hclaim] at hagree; cases hagree
  | nothing => exact hb' hclaim

theorem Scripted.isAlone {c : Connection} (h : c.Scripted) {id : Nat}
    (halone : c.isAlone id = true) : ∃ call, c.call? id = some call ∧ call.claim = .whole := by
  simp only [Connection.isAlone, List.any_eq_true, Bool.and_eq_true, beq_iff_eq] at halone
  obtain ⟨call, hmem, hid, hclaim⟩ := halone
  exact ⟨call, h.call?_eq_some.mpr ⟨hmem, hid⟩, hclaim⟩

end Connection

end WebSocket
