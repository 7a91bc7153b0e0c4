import WebSocket.Proofs.Connection.Greetings
import WebSocket.Proofs.Connection.Quiet
import WebSocket.Proofs.Handshake.Judgements

/-!
# What a handshake comes to

An operation that takes the transport for a handshake keeps it until the handshake is over. All
other operations beside it only wait for pongs, so nothing but the operation itself writes to the
transport or uses what the peer sends. At each of its actions it is known what was written so far
and what the peer's stream has come to (`Connection.Undertakes`); how the stream was cut makes no
difference, and neither does what comes later.

## Main results

* `Connection.Undertakes.perform`: the **step** of a handshake, one case for each of its actions.
* `Connection.undertaking_of_run`: along every run a handshake **stands where it should**, or it is
  over.
* `Connection.Undertaking.concludes`: a handshake that ends has **achieved** what it was to achieve,
  or has failed for a reason that the stream or the peer gives.
* `Connection.Undertaking.pending`: when nobody can go on, it waits for **a stream that has not
  ended** and may still become a head.
-/

namespace WebSocket

namespace Connection

open Handshake

variable {c c' c₁ : Connection} {task : TaskId} {action : Action} {rest script : Script}
  {move : Move} {moves : List Move} {operation : Operation} {id : Nat} {stream wrote gone : Bytes}

/-! ### What the stream comes to -/

/-- What a client makes of **a response head**. -/
def answerHead (request : Request) (head : Bytes) : Except Failure Response := do
  let response ← Response.parse head
  response.validate request
  pure response

/-- A client judges a response head by **what it makes of it**. -/
theorem judgeResponse_eq (request : Request) (head : Bytes) :
    judgeResponse request head = match answerHead request head with
      | .error failure => [.failHandshake failure]
      | .ok response => [.establish response.protocol? (.connected response)] := by
  unfold judgeResponse answerHead
  cases Response.parse head with
  | error failure => rfl
  | ok response =>
      simp only [bind, Except.bind]
      cases response.validate request <;> rfl

/-- What the peer's stream **has come to**. -/
def fetched? (c : Connection) (stream : Bytes) : Option (Except Failure Bytes) :=
  Handshake.fetched? c.options.maxHandshakeSize stream c.transport.ending

/-- What a server makes of the stream: the request, and the response that accepts it. -/
def asked? (c : Connection) (stream : Bytes) : Option (Except Failure (Request × Response)) :=
  (c.fetched? stream).map (· >>= acceptHead c.options.protocols)

/-- What a client makes of the stream: the response. -/
def replied? (c : Connection) (request : Request) (stream : Bytes) :
    Option (Except Failure Response) :=
  (c.fetched? stream).map (· >>= answerHead request)

/-! ### Where a handshake stands -/

/-- What an operation **achieves** when its handshake succeeds: the subprotocol, and the answer. -/
inductive Achieves (c : Connection) (stream wrote : Bytes) :
    Operation → Option Bytes → Answer → Prop
  | connected {host path : String} {headers : List (String × String)} {nonce : Bytes}
      {request : Request} {response : Response}
      (hrequest : clientRequest c.options host path headers nonce = .ok request)
      (hresponse : c.replied? request stream = some (.ok response))
      (hwrote : wrote = request.written) :
      Achieves c stream wrote (.connect host path headers nonce) response.protocol?
        (.connected response)
  | accepted {request : Request} {response : Response}
      (hrequest : c.asked? stream = some (.ok (request, response)))
      (hwrote : wrote = response.written) :
      Achieves c stream wrote .accept response.protocol? (.accepted request)

/-- Why the handshake of an operation **fails**. -/
inductive Fails (c : Connection) (stream wrote : Bytes) : Operation → Failure → Prop
  /-- The request cannot be written. -/
  | unbuilt {host path : String} {headers : List (String × String)} {nonce : Bytes}
      {failure : Failure}
      (hrequest : clientRequest c.options host path headers nonce = .error failure)
      (hwrote : wrote = []) : Fails c stream wrote (.connect host path headers nonce) failure
  /-- The response does not do. -/
  | unmet {host path : String} {headers : List (String × String)} {nonce : Bytes}
      {request : Request} {failure : Failure}
      (hrequest : clientRequest c.options host path headers nonce = .ok request)
      (hresponse : c.replied? request stream = some (.error failure))
      (hwrote : wrote = request.written) :
      Fails c stream wrote (.connect host path headers nonce) failure
  /-- The request does not do. -/
  | refused {failure : Failure} (hrequest : c.asked? stream = some (.error failure))
      (hwrote : wrote = if failure.isAnswered then (Response.rejecting failure).written else []) :
      Fails c stream wrote .accept failure
  /-- The peer has gone away. -/
  | broken {operation : Operation} {failure : Failure} (hbroken : c.transport.broken = true) :
      Fails c stream wrote operation failure

/-- **Where an operation stands** in its handshake: at each action, what was written, what was used
of the peer's stream, and what the stream has come to. -/
inductive Undertakes (c : Connection) (stream wrote : Bytes) : Operation → Script → Prop
  | connect {host path : String} {headers : List (String × String)} {nonce : Bytes}
      (hstage : c.stage = .handshake) (hunread : c.unread = stream) (hwrote : wrote = []) :
      Undertakes c stream wrote (.connect host path headers nonce)
        [.beginConnecting host path headers nonce]
  | sendRequest {host path : String} {headers : List (String × String)} {nonce : Bytes}
      {request : Request} (hrequest : clientRequest c.options host path headers nonce = .ok request)
      (hunread : c.unread = stream) (hwrote : wrote = []) :
      Undertakes c stream wrote (.connect host path headers nonce) [.sendRequest request]
  | awaitResponse {host path : String} {headers : List (String × String)} {nonce : Bytes}
      {request : Request} (hrequest : clientRequest c.options host path headers nonce = .ok request)
      (hunread : c.unread = stream) (hwrote : wrote = request.written) :
      Undertakes c stream wrote (.connect host path headers nonce) [.awaitResponse request]
  | accept (hstage : c.stage = .handshake) (hunread : c.unread = stream) (hwrote : wrote = []) :
      Undertakes c stream wrote .accept [.beginAccepting]
  | awaitRequest (hunread : c.unread = stream) (hwrote : wrote = []) :
      Undertakes c stream wrote .accept [.awaitRequest]
  | sendAcceptance {request : Request} {response : Response}
      (hrequest : c.asked? stream = some (.ok (request, response))) (hwrote : wrote = []) :
      Undertakes c stream wrote .accept [.sendAcceptance request response]
  | sendRejection {failure : Failure} (hrequest : c.asked? stream = some (.error failure))
      (hanswered : failure.isAnswered = true) (hwrote : wrote = []) :
      Undertakes c stream wrote .accept [.sendRejection failure]
  | establish {operation : Operation} {protocol : Option Bytes} {a : Answer}
      (h : Achieves c stream wrote operation protocol a) :
      Undertakes c stream wrote operation [.establish protocol a]
  | failHandshake {operation : Operation} {failure : Failure}
      (h : Fails c stream wrote operation failure) :
      Undertakes c stream wrote operation [.failHandshake failure]

/-! ### What lasts -/

/-- What **lasts** while the peer sends some bytes: the options, and how the peer's stream has ended
or the peer has gone away. Nothing comes behind the end of a stream. -/
structure Lasts (more : Bytes) (c c' : Connection) : Prop where
  options : c'.options = c.options
  broken : c.transport.broken = true → c'.transport.broken = true
  ending : c.transport.ending ≠ none → more = [] ∧ c'.transport.ending = c.transport.ending

theorem Transition.lasts (hmove : Transition c move c') : Lasts move.peerBytes c c' := by
  refine ⟨hmove.settings.2, fun hbroken => ?_, fun hended => ?_⟩
  · cases hmove with
    | act _ heffect =>
        obtain ⟨_, _, htransport⟩ := heffect.transport
        rw [setScript_transport, htransport]
        exact hbroken
    | peerGone => rfl
    | _ => exact hbroken
  · cases hmove with
    | act _ heffect =>
        obtain ⟨_, _, htransport⟩ := heffect.transport
        rw [setScript_transport, htransport]
        exact ⟨rfl, rfl⟩
    | peerSend hopen => exact absurd hopen hended
    | peerEnd hopen => exact absurd hopen hended
    | peerGone =>
        obtain ⟨e, he⟩ := Option.ne_none_iff_exists'.mp hended
        exact ⟨rfl, by simp [he]⟩
    | _ => exact ⟨rfl, rfl⟩

theorem lasts_of_run (hrun : c.run moves = some c') : Lasts (peerBytes moves) c c' := by
  refine run_induction (P := fun moves x => Lasts (peerBytes moves) c x) ?_ ?_ hrun
  · exact ⟨rfl, fun hbroken => hbroken, fun _ => ⟨rfl, rfl⟩⟩
  · intro before c₁ move c₂ _ h hstep
    have hnext := (transition_of_step hstep).lasts
    rw [peerBytes_append, peerBytes_singleton]
    refine ⟨hnext.options.trans h.options, fun hbroken => hnext.broken (h.broken hbroken), ?_⟩
    intro hended
    obtain ⟨hnothing, hsame⟩ := h.ending hended
    obtain ⟨hnothing', hsame'⟩ := hnext.ending (by rw [hsame]; exact hended)
    exact ⟨by rw [hnothing, hnothing', List.append_nil], hsame'.trans hsame⟩

section Lasts

variable {more : Bytes} (h : Lasts more c c')

include h

/-- What the stream has come to **stays so**. -/
theorem Lasts.fetched? {outcome : Except Failure Bytes}
    (hfetched : c.fetched? stream = some outcome) :
    c'.fetched? (stream ++ more) = some outcome := by
  rw [Connection.fetched?, h.options]
  exact fetched?_append hfetched h.ending

theorem Lasts.asked? {outcome : Except Failure (Request × Response)}
    (hasked : c.asked? stream = some outcome) : c'.asked? (stream ++ more) = some outcome := by
  obtain ⟨head, hfetched, rfl⟩ := Option.map_eq_some_iff.mp hasked
  rw [Connection.asked?, h.fetched? hfetched, h.options]
  rfl

theorem Lasts.replied? {request : Request} {outcome : Except Failure Response}
    (hreplied : c.replied? request stream = some outcome) :
    c'.replied? request (stream ++ more) = some outcome := by
  obtain ⟨head, hfetched, rfl⟩ := Option.map_eq_some_iff.mp hreplied
  rw [Connection.replied?, h.fetched? hfetched]
  rfl

theorem Lasts.achieves {protocol : Option Bytes} {a : Answer}
    (hachieves : Achieves c stream wrote operation protocol a) :
    Achieves c' (stream ++ more) wrote operation protocol a := by
  cases hachieves with
  | connected hrequest hresponse hwrote =>
      exact .connected (h.options ▸ hrequest) (h.replied? hresponse) hwrote
  | accepted hrequest hwrote => exact .accepted (h.asked? hrequest) hwrote

theorem Lasts.fails {failure : Failure} (hfails : Fails c stream wrote operation failure) :
    Fails c' (stream ++ more) wrote operation failure := by
  cases hfails with
  | unbuilt hrequest hwrote => exact .unbuilt (h.options ▸ hrequest) hwrote
  | unmet hrequest hresponse hwrote =>
      exact .unmet (h.options ▸ hrequest) (h.replied? hresponse) hwrote
  | refused hrequest hwrote => exact .refused (h.asked? hrequest) hwrote
  | broken hbroken => exact .broken (h.broken hbroken)

/-- A handshake **stands where it stood**, if nobody else uses what the peer sends. -/
theorem Lasts.undertakes (hstage : c'.stage = c.stage) (hunread : c'.unread = c.unread ++ more)
    (hundertakes : Undertakes c stream wrote operation script) :
    Undertakes c' (stream ++ more) wrote operation script := by
  have hwhole : c.unread = stream → c'.unread = stream ++ more := fun hsame => by
    rw [hunread, hsame]
  cases hundertakes with
  | connect hbefore hsame hwrote => exact .connect (hstage.trans hbefore) (hwhole hsame) hwrote
  | sendRequest hrequest hsame hwrote =>
      exact .sendRequest (h.options ▸ hrequest) (hwhole hsame) hwrote
  | awaitResponse hrequest hsame hwrote =>
      exact .awaitResponse (h.options ▸ hrequest) (hwhole hsame) hwrote
  | accept hbefore hsame hwrote => exact .accept (hstage.trans hbefore) (hwhole hsame) hwrote
  | awaitRequest hsame hwrote => exact .awaitRequest (hwhole hsame) hwrote
  | sendAcceptance hrequest hwrote => exact .sendAcceptance (h.asked? hrequest) hwrote
  | sendRejection hrequest hanswered hwrote =>
      exact .sendRejection (h.asked? hrequest) hanswered hwrote
  | establish hachieves => exact .establish (h.achieves hachieves)
  | failHandshake hfails => exact .failHandshake (h.fails hfails)

end Lasts

/-! ### What others do beside it -/

/-- An operation in the middle of its handshake, **and where it stands**: nothing but its head goes
to the peer; `gone` is what the peer has taken of it. -/
structure Undertaking (operation : Operation) (id : Nat) (stream gone : Bytes) (c : Connection) :
    Prop where
  phase : c.phase = .connecting
  stands : Undertakes c stream (gone ++ c.transport.outgoing) operation (c.script (.call id))

/-- A handshake has **one action to take**. -/
theorem Undertakes.exists_action (h : Undertakes c stream wrote operation script) :
    ∃ action, script = [action] ∧ (∀ a, action ≠ .answer a) ∧
      (action.negotiates = true ∨ c.stage = .handshake ∧
        (action = .beginAccepting ∨ ∃ host path headers nonce,
          action = .beginConnecting host path headers nonce)) := by
  cases h with
  | connect hstage => exact ⟨_, rfl, nofun, .inr ⟨hstage, .inr ⟨_, _, _, _, rfl⟩⟩⟩
  | accept hstage => exact ⟨_, rfl, nofun, .inr ⟨hstage, .inl rfl⟩⟩
  | _ => exact ⟨_, rfl, nofun, .inl rfl⟩

section Undertaking

variable (h : Undertaking operation id stream gone c) (hreach : Reachable c)

include h hreach

/-- The operation **needs the connection for itself**. -/
theorem Undertaking.whole : ∃ call, c.call? id = some call ∧ call.claim = .whole := by
  obtain ⟨action, hscript, -, hnegotiates | ⟨-, hbegins⟩⟩ := h.stands.exists_action
  · obtain ⟨j, call, hj, hcall, hwhole, -⟩ := hreach.scripted.negotiating hscript hnegotiates
    cases hj
    exact ⟨call, hcall, hwhole⟩
  · obtain ⟨call, claim, hcall, rfl, hshape⟩ := hreach.scripted.callScript hscript
    refine ⟨call, hcall, ?_⟩
    obtain rfl | ⟨host, path, headers, nonce, rfl⟩ := hbegins
    · generalize call.claim = claim at hshape
      cases hshape with
      | ordinary hordinary => cases hordinary
      | _ => rfl
    · generalize call.claim = claim at hshape
      cases hshape with
      | ordinary hordinary => cases hordinary
      | _ => rfl

/-- The stream of frames **has not begun**. -/
theorem Undertaking.stage_ne : c.stage ≠ .running := by
  obtain ⟨action, hscript, -, hnegotiates | ⟨hstage, -⟩⟩ := h.stands.exists_action
  · rw [hreach.staged.negotiating hscript hnegotiates]
    exact nofun
  · rw [hstage]
    exact nofun

/-- Another task **only looks after a ping**. -/
theorem Undertaking.aside (hne : task ≠ .call id) (hscript : c.script task = action :: rest)
    (heffect : Effect c task action rest c₁ script) :
    ∃ waiters, c₁ = { c with waiters := waiters } := by
  cases task with
  | reader =>
      rw [script_reader, (hreach.staged.idle (h.stage_ne hreach)).reader] at hscript
      cases hscript
  | call j =>
      obtain ⟨call, hcall, hwhole⟩ := h.whole hreach
      obtain ⟨other, claim, hother, rfl, hshape⟩ := hreach.scripted.callScript hscript
      have hnothing : other.claim = .nothing := by
        by_contra hclaim
        exact hne (congrArg TaskId.call
          (hreach.scripted.eq_of_whole hcall hother hwhole hclaim).symm)
      rw [hnothing] at hshape
      cases hshape with
      | ordinary hordinary =>
          cases hordinary with
          | ended => cases heffect
          | refusing => cases heffect with
              | refuse => exact ⟨c.waiters, rfl⟩
          | waiting => cases heffect with
              | awaitNothing => exact ⟨c.waiters, rfl⟩
              | awaitOutcome => exact ⟨_, rfl⟩

omit hreach in
theorem Undertaking.keep {more taken : Bytes} (hlasts : Lasts more c c')
    (hphase : c'.phase = c.phase) (hstage : c'.stage = c.stage)
    (hunread : c'.unread = c.unread ++ more)
    (hscript : c'.script (.call id) = c.script (.call id))
    (hwrote : taken ++ c'.transport.outgoing = c.transport.outgoing) :
    Undertaking operation id (stream ++ more) (gone ++ taken) c' := by
  refine ⟨hphase.trans h.phase, ?_⟩
  rw [hscript, List.append_assoc, hwrote]
  exact hlasts.undertakes hstage hunread h.stands

/-- **A move of others** leaves the handshake where it stands. -/
theorem Undertaking.beside (hmove : Transition c move c') (hact : move ≠ .act (.call id))
    (hgiveUp : move ≠ .giveUp id) (hcollect : move ≠ .collect id) :
    Undertaking operation id (stream ++ move.peerBytes) (gone ++ (c.departure? move).getD [])
      c' := by
  have hbusy : c.script (.call id) ≠ [] := by
    obtain ⟨action, hscript, -⟩ := h.stands.exists_action
    exact hscript ▸ List.cons_ne_nil _ _
  have hlasts := hmove.lasts
  have hscript := hmove.script_of_others hact hgiveUp hcollect hbusy
  obtain ⟨task, action, rest, c₁, script, rfl, hother, heffect, rfl⟩ | hidle := hmove.act_or
  · have hne : task ≠ .call id := fun heq => hact (congrArg Move.act heq)
    obtain ⟨waiters, rfl⟩ := h.aside hreach hne hother heffect
    refine h.keep hlasts (setScript_phase ..) (setScript_stage ..) ?_ hscript ?_
    · rw [Connection.unread, setScript_buffer, setScript_transport]
      exact (List.append_nil _).symm
    · rw [setScript_transport]
      rfl
  · have hunread := hmove.unread_of_ne_act hidle
    cases hmove with
    | act => exact absurd rfl (hidle _)
    | @giveUp j hsuspended =>
        -- whoever gives up beside a handshake does not have the connection for itself
        have hstage : (if c.stage = .negotiating ∧ c.isAlone j then Stage.done else c.stage) =
            c.stage := by
          refine if_neg fun hboth => hgiveUp (congrArg Move.giveUp ?_)
          obtain ⟨call, hcall, hwhole⟩ := h.whole hreach
          obtain ⟨other, hother, hwhole'⟩ := hreach.scripted.isAlone hboth.2
          exact hreach.scripted.eq_of_whole hother hcall hwhole' (by simp [hwhole])
        exact h.keep hlasts rfl hstage hunread hscript rfl
    | peerTake => exact h.keep hlasts rfl rfl hunread hscript (List.take_append_drop ..)
    | _ => exact h.keep hlasts rfl rfl hunread hscript rfl

end Undertaking

/-! ### What the operation does -/

/-- A head in what was read is **the head of the stream**. -/
theorem fetched?_of_done {head buffer : Bytes} (hunread : c.unread = stream)
    (hhead : headProgress c.options.maxHandshakeSize c.buffer = .done head buffer) :
    c.fetched? stream = some (.ok head) := by
  subst hunread
  unfold Connection.fetched? Handshake.fetched? Connection.unread
  rw [headProgress_append hhead]

/-- The collection of a head fails for **what the stream has come to**. -/
theorem fetched?_of_headFails {failure : Failure} (hunread : c.unread = stream)
    (hfails : HeadFails c failure) : c.fetched? stream = some (.error failure) := by
  subst hunread
  unfold Connection.fetched? Handshake.fetched? Connection.unread
  cases hfails with
  | tooLarge hlarge => rw [headProgress_append_tooLarge hlarge]
  | ended hwait hexhausted hended =>
      rw [Transport.isExhausted, Bool.and_eq_true, List.isEmpty_iff] at hexhausted
      rw [hexhausted.1, List.append_nil, hwait, hended]
      rfl
  | failed hwait hexhausted hended =>
      rw [Transport.isExhausted, Bool.and_eq_true, List.isEmpty_iff] at hexhausted
      rw [hexhausted.1, List.append_nil, hwait, hended]
      rfl

/-- **How a handshake ends**: the script that it leaves behind, and the connection afterwards. -/
inductive Concludes (c : Connection) (stream wrote : Bytes) (operation : Operation)
    (script : Script) (c₁ : Connection) : Prop
  | achieved {protocol : Option Bytes} {a : Answer} (hscript : script = [.answer a])
      (h : Achieves c stream wrote operation protocol a) (hphase : c₁.phase = .opened)
      (hprotocol : c₁.protocol = protocol)
  | failed {failure : Failure} (hscript : script = [.answer (.failed (.handshake failure))])
      (h : Fails c stream wrote operation failure) (hphase : c₁.phase = .closed)
      (hshut : c₁.transport.shut = true)

/-- **A handshake goes on**, with the head that it writes. -/
structure GoesOn (c : Connection) (stream wrote : Bytes) (operation : Operation)
    (script : Script) (c₁ : Connection) : Prop where
  phase : c₁.phase = c.phase
  stands : ∃ head, c₁.transport.outgoing = c.transport.outgoing ++ head ∧
    Undertakes c₁ stream (wrote ++ head) operation script

theorem GoesOn.of_eq (hphase : c₁.phase = c.phase)
    (houtgoing : c₁.transport.outgoing = c.transport.outgoing)
    (h : Undertakes c₁ stream wrote operation script) :
    GoesOn c stream wrote operation script c₁ := by
  refine ⟨hphase, [], by rw [houtgoing, List.append_nil], ?_⟩
  rwa [List.append_nil]

/-- **A head that is written** goes out behind everything else; otherwise the peer has gone away. -/
theorem GoesOn.of_writeHead {head : Bytes} {failure : Failure} {go : Script}
    (h : c.writeHead head [.failHandshake failure] go = some (c₁, script))
    (hgo : ∀ outgoing, Undertakes { c with transport := { c.transport with outgoing := outgoing } }
      stream (wrote ++ head) operation go) :
    GoesOn c stream wrote operation script c₁ := by
  obtain ⟨t, ht, rfl, rfl⟩ | ⟨ht, rfl, rfl⟩ := writeHead_eq_some h
  · refine ⟨rfl, head, Transport.outgoing_of_write ht, ?_⟩
    rw [Transport.write_eq_done ht]
    exact hgo _
  · refine .of_eq rfl rfl (.failHandshake (.broken ?_))
    by_contra hunbroken
    exact Transport.write_ne_broken (Bool.eq_false_iff.mpr hunbroken) ht

/-- **A head that is collected** is the head of the stream, however much of the stream was read. -/
theorem GoesOn.of_withHead {fail : Failure → Script} {go : Bytes → Script}
    (h : c.withHead fail go = some (c₁, script)) (hunread : c.unread = stream)
    (hfail : ∀ failure, c.fetched? stream = some (.error failure) →
      Undertakes c stream wrote operation (fail failure))
    (hgo : ∀ head buffer, c.fetched? stream = some (.ok head) →
      Undertakes { c with buffer := buffer } stream wrote operation (go head)) :
    GoesOn c stream wrote operation script c₁ := by
  obtain ⟨head, buffer, hhead, rfl, rfl⟩ | ⟨failure, hfails, rfl, rfl⟩ := withHead_eq_some h
  · exact .of_eq rfl rfl (hgo head buffer (fetched?_of_done hunread hhead))
  · exact .of_eq rfl rfl (hfail failure (fetched?_of_headFails hunread hfails))

/-- A server that **turns a request down** tells the peer first, if the peer is still there. -/
theorem Undertakes.turnDown {failure : Failure} (hasked : c.asked? stream = some (.error failure))
    (hwrote : wrote = []) : Undertakes c stream wrote .accept (turnDown failure) := by
  unfold Connection.turnDown
  by_cases hanswered : failure.isAnswered = true
  · rw [if_pos hanswered]
    exact .sendRejection hasked hanswered hwrote
  · rw [if_neg hanswered]
    exact .failHandshake (.refused hasked (by rw [if_neg hanswered, hwrote]))

/-- **What a handshake does next**: it writes its head, uses the head of the peer, and stands where
it should then; or it ends, and writes nothing for that. -/
theorem Undertakes.perform (h : Undertakes c stream wrote operation (action :: rest))
    (hphase : c.phase = .connecting) (hperform : c.perform task action rest = some (c₁, script)) :
    GoesOn c stream wrote operation script c₁ ∨
      (c₁.transport.outgoing = c.transport.outgoing ∧ c₁.sent = c.sent ∧
        Concludes c stream wrote operation script c₁) := by
  cases h with
  | @connect host path headers nonce hstage hunread hwrote =>
      simp only [Connection.perform, takeTransport, if_pos hstage, Option.some.injEq,
        Prod.mk.injEq] at hperform
      obtain ⟨rfl, rfl⟩ := hperform
      refine .inl (.of_eq rfl rfl ?_)
      cases hrequest : clientRequest c.options host path headers nonce with
      | error failure => exact .failHandshake (.unbuilt hrequest hwrote)
      | ok request => exact .sendRequest hrequest hunread hwrote
  | sendRequest hrequest hunread hwrote =>
      refine .inl (.of_writeHead hperform fun outgoing => ?_)
      exact .awaitResponse hrequest hunread (by rw [hwrote, List.nil_append])
  | @awaitResponse _ _ _ _ request hrequest hunread hwrote =>
      simp only [Connection.perform] at hperform
      refine .inl (.of_withHead hperform hunread ?_ ?_)
      · intro failure hfetched
        exact .failHandshake (.unmet hrequest (by rw [replied?, hfetched]; rfl) hwrote)
      · intro head buffer hfetched
        have hreplied : c.replied? request stream = some (answerHead request head) := by
          rw [replied?, hfetched]
          rfl
        rw [judgeResponse_eq]
        cases hanswer : answerHead request head with
        | error failure => exact .failHandshake (.unmet hrequest (hanswer ▸ hreplied) hwrote)
        | ok response => exact .establish (.connected hrequest (hanswer ▸ hreplied) hwrote)
  | accept hstage hunread hwrote =>
      simp only [Connection.perform, takeTransport, if_pos hstage, Option.some.injEq,
        Prod.mk.injEq] at hperform
      obtain ⟨rfl, rfl⟩ := hperform
      exact .inl (.of_eq rfl rfl (.awaitRequest hunread hwrote))
  | awaitRequest hunread hwrote =>
      simp only [Connection.perform] at hperform
      refine .inl (.of_withHead hperform hunread ?_ ?_)
      · intro failure hfetched
        exact .turnDown (by rw [asked?, hfetched]; rfl) hwrote
      · intro head buffer hfetched
        have hasked : c.asked? stream = some (acceptHead c.options.protocols head) := by
          rw [asked?, hfetched]
          rfl
        unfold judgeRequest
        cases haccept : acceptHead c.options.protocols head with
        | error failure => exact .turnDown (haccept ▸ hasked) hwrote
        | ok both => exact .sendAcceptance (haccept ▸ hasked) hwrote
  | sendAcceptance hrequest hwrote =>
      refine .inl (.of_writeHead hperform fun outgoing => ?_)
      exact .establish (.accepted hrequest (by rw [hwrote, List.nil_append]))
  | sendRejection hrequest hanswered hwrote =>
      refine .inl (.of_writeHead hperform fun outgoing => .failHandshake (.refused hrequest ?_))
      rw [hwrote, List.nil_append, if_pos hanswered]
  | establish hachieves =>
      cases hperform
      exact .inr ⟨rfl, rfl, .achieved rfl hachieves (if_pos hphase) rfl⟩
  | failHandshake hfails =>
      cases hperform
      exact .inr ⟨rfl, rfl, .failed rfl hfails rfl rfl⟩

/-- **A handshake acts**: afterwards it stands where it should, or it is over. -/
theorem Undertaking.act (h : Undertaking operation id stream gone c)
    (hstep : c.step (.act (.call id)) = some c') :
    Undertaking operation id stream gone c' ∨ (c'.sent = c.sent ∧
      Concludes c stream (gone ++ c'.transport.outgoing) operation (c'.script (.call id)) c') := by
  obtain ⟨action, hscript, -⟩ := h.stands.exists_action
  obtain ⟨c₁, script, hperform, rfl, hself⟩ := perform_of_step hstep hscript
  have hstands := h.stands
  rw [hscript] at hstands
  rw [hself, setScript_transport]
  obtain ⟨hphase, head, houtgoing, hnext⟩ | ⟨houtgoing, hsent, hends⟩ :=
    hstands.perform h.phase hperform
  · refine .inl ⟨(setScript_phase ..).trans (hphase.trans h.phase), ?_⟩
    have hlasts : Lasts [] c₁ (c₁.setScript (.call id) script) := by
      refine ⟨setScript_options .., ?_, ?_⟩ <;> rw [setScript_transport]
      · exact fun hbroken => hbroken
      · exact fun _ => ⟨rfl, rfl⟩
    rw [hself, setScript_transport, houtgoing, ← List.append_assoc, ← List.append_nil stream]
    refine hlasts.undertakes (setScript_stage ..) ?_ hnext
    rw [Connection.unread, setScript_buffer, setScript_transport]
    exact (List.append_nil _).symm
  · rw [houtgoing]
    refine .inr ⟨(setScript_sent ..).trans hsent, ?_⟩
    cases hends with
    | achieved hanswer hachieves hphase hprotocol =>
        exact .achieved hanswer hachieves ((setScript_phase ..).trans hphase) hprotocol
    | failed hanswer hfails hphase hshut =>
        refine .failed hanswer hfails ((setScript_phase ..).trans hphase) ?_
        rw [setScript_transport]
        exact hshut

/-- The operation that is answered **has just acted**: nobody else ends a handshake. -/
theorem Undertaking.concludes (h : Undertaking operation id stream gone c) (hreach : Reachable c)
    (hstep : c.step move = some c') {a : Answer} (hanswer : c'.answer? id = some a) :
    move = .act (.call id) ∧ c'.sent = [] ∧
      Concludes c stream (gone ++ c'.transport.outgoing) operation [.answer a] c' := by
  have hscript := script_of_answer? hanswer
  have hunanswered : ∀ {stream gone c}, Undertaking operation id stream gone c →
      c.script (.call id) ≠ [.answer a] := by
    intro stream gone c hstands
    obtain ⟨action, hone, hnot, -⟩ := hstands.stands.exists_action
    rw [hone]
    exact fun heq => hnot a (List.cons.inj heq).1
  have hmove := transition_of_step hstep
  by_cases hact : move = .act (.call id)
  · subst hact
    obtain hnext | ⟨hsent, hends⟩ := h.act hstep
    · exact absurd hscript (hunanswered hnext)
    · exact ⟨rfl, hsent.trans (hreach.staged.idle (h.stage_ne hreach)).sent, hscript ▸ hends⟩
  · have hgone : ∀ {j}, c'.calls = c.calls.filter (fun call => call.id != j) → j ≠ id := by
      rintro j hcalls rfl
      rw [script_of_filter hcalls, if_pos rfl] at hscript
      cases hscript
    refine absurd hscript (hunanswered (h.beside hreach hmove hact ?_ ?_))
    · rintro rfl
      cases hmove with
      | giveUp => exact hgone rfl rfl
    · rintro rfl
      cases hmove with
      | collect => exact hgone rfl rfl

theorem writeHead_ne_none {head : Bytes} {lost go : Script}
    (hstalled : c.transport.stalled = false) : c.writeHead head lost go ≠ none := by
  unfold writeHead
  split
  · exact absurd ‹_› (Transport.write_ne_stalled hstalled)
  · exact Option.some_ne_none _
  · exact Option.some_ne_none _

/-- Whoever has to wait for a head, with everything read, waits for a stream that **has come to
nothing yet**. -/
theorem fetched?_of_withHead {fail : Failure → Script} {go : Bytes → Script}
    (h : c.withHead fail go = none) (hincoming : c.transport.incoming = [])
    (hunread : c.unread = stream) : c.fetched? stream = none := by
  rw [Connection.unread, hincoming, List.append_nil] at hunread
  subst hunread
  rw [Connection.fetched?, fetched?_eq_none, ← headProgress_eq_wait]
  simp only [withHead, hincoming, List.isEmpty_nil, if_true] at h
  split at h
  · cases h
  · cases h
  · rename_i hwait
    split at h
    · exact ⟨hwait, ‹_›⟩
    · cases h
    · cases h

/-- A handshake that cannot go on while the transport takes bytes **waits for the peer**: its stream
has not ended, and may still become a head. -/
theorem Undertaking.waits (h : Undertaking operation id stream gone c) (hquiet : c.isQuiet = true)
    (hstalled : c.transport.stalled = false) : c.fetched? stream = none := by
  obtain ⟨hincoming, hact⟩ := act_of_quiet hquiet
  obtain ⟨action, hscript, -⟩ := h.stands.exists_action
  have hnone := perform_of_act (hact (.call id)) hscript
  have hstands := h.stands
  rw [hscript] at hstands
  cases hstands with
  | connect hstage => simp [perform, takeTransport, hstage] at hnone
  | accept hstage => simp [perform, takeTransport, hstage] at hnone
  | sendRequest | sendAcceptance | sendRejection => exact absurd hnone (writeHead_ne_none hstalled)
  | awaitResponse _ hunread =>
      simp only [perform] at hnone
      exact fetched?_of_withHead hnone hincoming hunread
  | awaitRequest hunread =>
      simp only [perform] at hnone
      exact fetched?_of_withHead hnone hincoming hunread
  | establish | failHandshake => cases hnone

/-! ### Runs -/

/-- As long as the transport waits for a handshake, **nothing is written**. -/
theorem Transition.untouched (hmove : Transition c move c') (hreach : Reachable c)
    (hstage : c'.stage = .handshake) : c.stage = .handshake ∧
      (c.departure? move).getD [] ++ c'.transport.outgoing = c.transport.outgoing := by
  cases hmove with
  | @act task action rest c₁ script hscript heffect =>
      rw [setScript_stage] at hstage
      rw [setScript_transport]
      have hbefore : c.stage = .handshake := by
        cases heffect with
        | beginConnecting | failToBuild | beginAccepting | failHandshake | establish => cases hstage
        | _ => exact hstage
      have hnegotiates : action.negotiates = true → False := fun hnegotiates =>
        nomatch hbefore.symm.trans (hreach.staged.negotiating hscript hnegotiates)
      have hstreams : action.needsStream = true → False := fun hneeds =>
        nomatch hbefore.symm.trans (hreach.staged.streaming hscript hneeds)
      refine ⟨hbefore, ?_⟩
      cases heffect with
      | sendRequest | sendAcceptance | sendRejection => exact (hnegotiates rfl).elim
      | makeRoom | flush | shutDown => exact (hstreams rfl).elim
      | _ => rfl
  | giveUp =>
      dsimp only at hstage
      split at hstage
      · cases hstage
      · exact ⟨hstage, rfl⟩
  | peerTake => exact ⟨hstage, List.take_append_drop ..⟩
  | _ => exact ⟨hstage, rfl⟩

section Runs

variable {role : Role} {options : Options} {keys : Nat → Mask} {before : List Move}

theorem unwritten_of_run (hrun : (new role options keys).run moves = some c)
    (hstage : c.stage = .handshake) :
    (new role options keys).departures moves ++ c.transport.outgoing = [] := by
  refine run_induction (P := fun moves x => x.stage = .handshake →
    (new role options keys).departures moves ++ x.transport.outgoing = []) ?_ ?_ hrun hstage
  · exact fun _ => rfl
  · intro before c₁ move c₂ hbefore ih hstep hstage
    obtain ⟨hstage₁, hsame⟩ :=
      (transition_of_step hstep).untouched ((reachable_new role options keys).run hbefore) hstage
    rw [departures_concat hbefore hstep, List.append_assoc, hsame]
    exact ih hstage₁

/-- An operation **begins its handshake** with nothing written, and with all that the peer has sent
so far. -/
theorem undertaking_of_start (hbefore : (new role options keys).run before = some c)
    (hphase : c.phase = .connecting) (hstage : c.stage = .handshake)
    (hbegins : Undertakes c c.unread [] operation
      (Script.ofOperation c.options.fragmentSize operation))
    (hstep : c.step (.start id operation) = some c') :
    Undertaking operation id (peerBytes (before ++ [.start id operation]))
      ((new role options keys).departures (before ++ [.start id operation])) c' := by
  have hmove := transition_of_step hstep
  have hstands := hmove.lasts.undertakes ?_ (hmove.unread_of_ne_act fun _ => nofun) hbegins
  · rw [departures_concat hbefore hstep, peerBytes_append, peerBytes_singleton,
      ← (collected_of_run hbefore).untouched hstage]
    cases hmove with
    | start hfresh =>
        refine ⟨hphase, ?_⟩
        rw [script_of_append _ rfl (ids_of_isFresh hfresh), if_pos rfl, List.append_assoc]
        rw [show (new role options keys).departures before ++ (((c.departure?
          (.start id operation)).getD []) ++ c.transport.outgoing) = [] from
            unwritten_of_run hbefore hstage]
        exact hstands
  · cases hmove with
    | start => rfl

/-- Along every run a handshake **stands where it should**, or is over. -/
theorem undertaking_of_run (hbefore : (new role options keys).run before = some c)
    (h : Undertaking operation id (peerBytes before) ((new role options keys).departures before) c)
    (hkept : ∀ m ∈ moves, m ≠ .giveUp id ∧ m ≠ .collect id) (hrun : c.run moves = some c') :
    Undertaking operation id (peerBytes (before ++ moves))
        ((new role options keys).departures (before ++ moves)) c' ∨
      ∃ a, c'.script (.call id) = [.answer a] := by
  refine run_induction (P := fun moves x => (∀ m ∈ moves, m ≠ .giveUp id ∧ m ≠ .collect id) →
    Undertaking operation id (peerBytes (before ++ moves))
        ((new role options keys).departures (before ++ moves)) x ∨
      ∃ a, x.script (.call id) = [.answer a]) ?_ ?_ hrun hkept
  · refine fun _ => .inl ?_
    rwa [List.append_nil]
  · intro done c₁ move c₂ hdone ih hstep hkept
    obtain ⟨hkept, hlast⟩ := List.forall_mem_append.mp hkept
    obtain ⟨hgiveUp, hcollect⟩ := hlast move (List.mem_singleton_self move)
    have hwhole := run_append_eq_some.mpr ⟨c, hbefore, hdone⟩
    have hmove := transition_of_step hstep
    rw [← List.append_assoc, departures_concat hwhole hstep, peerBytes_append, peerBytes_singleton]
    obtain hstands | ⟨a, hanswer⟩ := ih hkept
    · by_cases hact : move = .act (.call id)
      · subst hact
        obtain hnext | ⟨-, hends⟩ := hstands.act hstep
        · exact .inl (by simpa [Move.peerBytes, departure?] using hnext)
        · cases hends with
          | achieved hanswer => exact .inr ⟨_, hanswer⟩
          | failed hanswer => exact .inr ⟨_, hanswer⟩
      · exact .inl (hstands.beside ((reachable_new role options keys).run hwhole) hmove hact hgiveUp
          hcollect)
    · refine .inr ⟨a, ?_⟩
      rw [hmove.script_of_others ?_ hgiveUp hcollect (hanswer ▸ List.cons_ne_nil _ _), hanswer]
      rintro rfl
      obtain ⟨_, _, hperform, -⟩ := perform_of_step hstep hanswer
      cases hperform

/-- An operation that began a handshake and was not answered yet **stands in its handshake**. -/
theorem undertaking_of_unanswered {c₀ : Connection}
    (hbefore : (new role options keys).run before = some c₀) (hphase : c₀.phase = .connecting)
    (hstage : c₀.stage = .handshake)
    (hbegins : ∀ size, Undertakes c₀ c₀.unread [] operation (Script.ofOperation size operation))
    (hmoves : c₀.run (.start id operation :: moves) = some c)
    (hkept : ∀ m ∈ moves, m ≠ .giveUp id ∧ m ≠ .collect id) (hunanswered : c.answer? id = none) :
    Undertaking operation id (peerBytes (before ++ .start id operation :: moves))
      ((new role options keys).departures (before ++ .start id operation :: moves)) c := by
  obtain ⟨c₁, hstep, hrun⟩ := run_cons_eq_some.mp hmoves
  have hfirst : (new role options keys).run (before ++ [.start id operation]) = some c₁ :=
    run_append_eq_some.mpr ⟨c₀, hbefore, run_cons_eq_some.mpr ⟨c₁, hstep, rfl⟩⟩
  obtain hstands | ⟨a, hanswer⟩ := undertaking_of_run hfirst
    (undertaking_of_start hbefore hphase hstage (hbegins _) hstep) hkept hrun
  · rwa [List.append_assoc, List.singleton_append] at hstands
  · rw [answer?, hanswer] at hunanswered
    cases hunanswered

end Runs

/-- A handshake that is **under way**: left to itself the connection comes to rest, and then the
handshake waits only for a stream that has not ended and may still become a head. -/
structure Pending (limit : Nat) (stream : Bytes) (c : Connection) : Prop where
  waits : c.isQuiet = true → c.transport.stalled = false →
    ¬Delivers limit stream ∧ c.transport.ending = none
  bounded : ∃ bound, ∀ moves c', (∀ m ∈ moves, m.isOwn = true) → c.run moves = some c' →
    moves.length ≤ bound

theorem Undertaking.pending (h : Undertaking operation id stream gone c) (hreach : Reachable c) :
    Pending c.options.maxHandshakeSize stream c := by
  refine ⟨fun hquiet hstalled => fetched?_eq_none.mp (h.waits hquiet hstalled), c.stepsLeft, ?_⟩
  intro moves c' hown hrun
  have := length_le_stepsLeft hreach hown hrun
  omega

end Connection

end WebSocket
