import WebSocket.Proofs.Connection.Undertakings

/-!
# What a server answers

A server that accepts writes one head in answer to one head: the response that accepts the request,
or the rejection of it. It stays silent towards a peer whose stream ends too early. It also stays
silent towards a peer whose head is empty lines only, since reading such a head comes to no end,
like reading one that is cut off.

## Main results

* `Connection.acceptance_of_stream`: what a server writes, answers and becomes is **told by the
  bytes of the peer**, however they come in.
-/

namespace WebSocket

namespace Connection

open Handshake Http

variable {c c' c₀ : Connection} {move : Move} {moves before : List Move} {id : Nat} {stream : Bytes}
  {limit : Nat} {failure : Failure} {role : Role} {options : Options} {keys : Nat → Mask}

/-! ### What a stream asks for -/

/-- A stream that a server **rejects**, and the failure of which it tells the peer. -/
inductive Rejects (limit : Nat) (stream : Bytes) : Failure → Prop
  /-- No head comes within the limit. -/
  | tooLong (h : headProgress limit stream = .tooLarge) : Rejects limit stream (.tooLarge limit)
  /-- The head is no request. -/
  | malformed {head rest : Bytes} {failure : Failure}
      (hhead : headProgress limit stream = .done head rest)
      (hparse : Request.parse head = .error failure) (hfailure : Malformed failure) :
      Rejects limit stream failure
  /-- The request is turned down. -/
  | refused {head rest : Bytes} {request : Request} {failure : Failure}
      (hhead : headProgress limit stream = .done head rest)
      (hparse : Request.parse head = .ok request) (hvalid : request.validate = .error failure) :
      Rejects limit stream failure

theorem Rejects.isAnswered (h : Rejects limit stream failure) : failure.isAnswered = true := by
  cases h with
  | tooLong => rfl
  | malformed _ _ hfailure => exact hfailure.isAnswered
  | @refused _ _ request _ _ _ hvalid => exact request.tells_validate _ hvalid

/-- A stream that **is accepted** begins with a request that is valid. -/
theorem request_of_asked? {request : Request} {response : Response}
    (h : c.asked? stream = some (.ok (request, response))) :
    ∃ head rest, headProgress c.options.maxHandshakeSize stream = .done head rest ∧
      Request.parse head = .ok request ∧ request.validate = .ok () ∧ Proves request response := by
  obtain ⟨outcome, hfetched, haccept⟩ := Option.map_eq_some_iff.mp h
  obtain ⟨head, rest, hhead, rfl⟩ | ⟨-, rfl⟩ | ⟨-, e, -, rfl⟩ := fetched?_cases hfetched
  · have hjudged := judgement_acceptHead hhead c.options.protocols
    rw [show acceptHead c.options.protocols head = .ok (request, response) from haccept] at hjudged
    cases hjudged with
    | accepted hparse hvalid hproves => exact ⟨head, rest, hhead, hparse, hvalid, hproves⟩
  · cases haccept
  · cases haccept

/-- A stream that **is not accepted** is rejected, unless its head is empty lines only or does not
come. -/
theorem failure_of_asked? (h : c.asked? stream = some (.error failure)) :
    Rejects c.options.maxHandshakeSize stream failure ∨
      (∃ head rest, headProgress c.options.maxHandshakeSize stream = .done head rest ∧
        EmptyLines head ∧ failure = .incomplete) ∨
          (¬Delivers c.options.maxHandshakeSize stream ∧
            ∃ e, c.transport.ending = some e ∧ failure = failureOf e) := by
  obtain ⟨outcome, hfetched, haccept⟩ := Option.map_eq_some_iff.mp h
  obtain ⟨head, rest, hhead, rfl⟩ | ⟨hlarge, rfl⟩ | ⟨hwait, e, he, rfl⟩ := fetched?_cases hfetched
  · have hjudged := judgement_acceptHead hhead c.options.protocols
    rw [show acceptHead c.options.protocols head = .error failure from haccept] at hjudged
    cases hjudged with
    | malformed hparse hfailure => exact .inl (.malformed hhead hparse hfailure)
    | refused hparse hvalid => exact .inl (.refused hhead hparse hvalid)
    | empty hlines => exact .inr (.inl ⟨head, rest, hhead, hlines, rfl⟩)
  · cases haccept
    exact .inl (.tooLong hlarge)
  · cases haccept
    exact .inr (.inr ⟨headProgress_eq_wait.mp hwait, e, he, rfl⟩)

/-! ### What comes of it -/

/-- **What comes of accepting a stream**: what was written, the answer, and what became of the
connection. -/
inductive Accepts (options : Options) (stream : Bytes) (ending : Option Ending) (wrote : Bytes)
    (c : Connection) : Answer → Prop
  /-- The request is accepted: one response is written, which proves that the key was read. -/
  | opened {head rest : Bytes} {request : Request} {response : Response}
      (hhead : headProgress options.maxHandshakeSize stream = .done head rest)
      (hparse : Request.parse head = .ok request) (hvalid : request.validate = .ok ())
      (hproves : Proves request response) (hwrote : wrote = response.written)
      (hphase : c.phase = .opened) (hprotocol : c.protocol = response.protocol?) :
      Accepts options stream ending wrote c (.accepted request)
  /-- One response is written, which rejects what has come for the failure that is answered. -/
  | rejected {failure : Failure} (hrejects : Rejects options.maxHandshakeSize stream failure)
      (hwrote : wrote = (Response.rejecting failure).written) (hone : IsHead wrote)
      (hphase : c.phase = .closed) (hshut : c.transport.shut = true) :
      Accepts options stream ending wrote c (.failed (.handshake failure))
  /-- The head is empty lines only, and **nobody tells the peer**. -/
  | ignored {head rest : Bytes}
      (hhead : headProgress options.maxHandshakeSize stream = .done head rest)
      (hlines : EmptyLines head) (hwrote : wrote = [])
      (hphase : c.phase = .closed) (hshut : c.transport.shut = true) :
      Accepts options stream ending wrote c (.failed (.handshake .incomplete))
  /-- The stream has ended or failed too early. -/
  | left {e : Ending} (hnot : ¬Delivers options.maxHandshakeSize stream) (hending : ending = some e)
      (hwrote : wrote = []) (hphase : c.phase = .closed) (hshut : c.transport.shut = true) :
      Accepts options stream ending wrote c (.failed (.handshake (failureOf e)))

/-- A server opens **exactly for a head within the limit that is a valid request**. -/
theorem Accepts.opened_iff {ending : Option Ending} {wrote : Bytes} {a : Answer}
    (h : Accepts options stream ending wrote c a) :
    c.phase = .opened ↔ ∃ head rest request,
      headProgress options.maxHandshakeSize stream = .done head rest ∧
        Request.parse head = .ok request ∧ request.validate = .ok () := by
  have hclosed : c.phase = .closed → ¬c.phase = .opened := fun hphase hopen =>
    nomatch hphase.symm.trans hopen
  cases h with
  | opened hhead hparse hvalid _ _ hphase =>
      exact ⟨fun _ => ⟨_, _, _, hhead, hparse, hvalid⟩, fun _ => hphase⟩
  | rejected hrejects _ _ hphase =>
      refine iff_of_false (hclosed hphase) ?_
      rintro ⟨head, rest, request, hhead, hparse, hvalid⟩
      cases hrejects with
      | tooLong hlarge => exact nomatch hlarge.symm.trans hhead
      | malformed hhead' hparse' =>
          cases hhead'.symm.trans hhead
          exact nomatch hparse'.symm.trans hparse
      | refused hhead' hparse' hvalid' =>
          cases hhead'.symm.trans hhead
          cases hparse'.symm.trans hparse
          exact nomatch hvalid'.symm.trans hvalid
  | ignored hhead' hlines _ hphase =>
      refine iff_of_false (hclosed hphase) ?_
      rintro ⟨head, rest, request, hhead, hparse, -⟩
      cases hhead'.symm.trans hhead
      exact nomatch hparse.symm.trans ((extent_of_headProgress hhead).1.waits.mpr hlines)
  | left hnot _ _ hphase =>
      refine iff_of_false (hclosed hphase) ?_
      rintro ⟨head, rest, request, hhead, -⟩
      exact nomatch hhead.symm.trans (headProgress_eq_wait.mpr hnot)

/-- **What a handshake of a server has come to** tells what comes of accepting. -/
theorem Concludes.accepts {wrote : Bytes} {a : Answer}
    (h : Concludes c stream wrote .accept [.answer a] c') (hunbroken : c.transport.broken = false)
    {more : Bytes} {c'' : Connection} (hlasts : Lasts more c c'') :
    Accepts c.options (stream ++ more) c''.transport.ending wrote c' a := by
  rw [← hlasts.options]
  cases h with
  | achieved hscript hachieves hphase hprotocol =>
      cases hscript
      cases hachieves with
      | accepted hrequest hwrote =>
          obtain ⟨head, rest, hhead, hparse, hvalid, hproves⟩ :=
            request_of_asked? (hlasts.asked? hrequest)
          exact .opened hhead hparse hvalid hproves hwrote hphase hprotocol
  | failed hscript hfails hphase hshut =>
      cases hscript
      cases hfails with
      | broken hbroken => exact nomatch hunbroken.symm.trans hbroken
      | refused hrequest hwrote =>
          obtain hrejects | ⟨head, rest, hhead, hlines, rfl⟩ | ⟨hnot, e, he, rfl⟩ :=
            failure_of_asked? (hlasts.asked? hrequest)
          · rw [if_pos hrejects.isAnswered] at hwrote
            exact .rejected hrejects hwrote (hwrote ▸ Response.isHead_rejecting _) hphase hshut
          · exact .ignored hhead hlines hwrote hphase hshut
          · refine .left hnot he (hwrote.trans (if_neg ?_)) hphase hshut
            cases e <;> exact nofun

/-! ### Runs -/

/-- **What a server answers is told by the bytes of the peer.** Some server begins to accept while
its transport waits for a handshake, nobody gives that up, and no write fails. When accepting ends,
one response was written and nothing else, or nothing at all; which response it is, the answer, and
what becomes of the connection is told by all bytes that the peer sends, before and after, and by
how its stream ends if it does. The server opens exactly for a head within the limit that is a valid
request. As long as accepting has not ended the server gets on by itself, and waits only for a head
that may still come. -/
theorem acceptance_of_stream (hbefore : (new role options keys).run before = some c₀)
    (hphase : c₀.phase = .connecting) (hstage : c₀.stage = .handshake)
    (hmoves : c₀.run (.start id .accept :: moves) = some c)
    (hkept : ∀ m ∈ moves, m ≠ .giveUp id ∧ m ≠ .collect id) (hunanswered : c.answer? id = none) :
    (∀ {move a after c' c''}, c.step move = some c' → c'.answer? id = some a →
      c'.transport.broken = false → c'.run after = some c'' →
        Accepts options (peerBytes (before ++ .start id .accept :: moves ++ move :: after))
            c''.transport.ending
            ((new role options keys).departures (before ++ .start id .accept :: moves) ++
              c'.transport.outgoing) c' a ∧
          c'.sent = [] ∧
          (c'.phase = .opened ↔ ∃ head rest request,
            headProgress options.maxHandshakeSize
                (peerBytes (before ++ .start id .accept :: moves ++ move :: after)) =
              .done head rest ∧
            Request.parse head = .ok request ∧ request.validate = .ok ())) ∧
      Pending options.maxHandshakeSize (peerBytes (before ++ .start id .accept :: moves)) c := by
  have hreach := ((reachable_new role options keys).run hbefore).run hmoves
  have hoptions : c.options = options :=
    (settings_of_run (reachable_new role options keys)
      (run_append_eq_some.mpr ⟨c₀, hbefore, hmoves⟩)).2
  have hstands := undertaking_of_unanswered hbefore hphase hstage
    (fun _ => .accept hstage rfl rfl) hmoves hkept hunanswered
  refine ⟨?_, hoptions ▸ hstands.pending hreach⟩
  intro move a after c' c'' hstep hanswer hunbroken hafter
  obtain ⟨-, hsent, hends⟩ := hstands.concludes hreach hstep hanswer
  have hlasts : Lasts (peerBytes (move :: after)) c c'' :=
    lasts_of_run (run_cons_eq_some.mpr ⟨c', hstep, hafter⟩)
  have hwhole : c.transport.broken = false := by
    refine Bool.eq_false_iff.mpr fun hbroken => ?_
    exact nomatch hunbroken.symm.trans ((transition_of_step hstep).lasts.broken hbroken)
  have haccepts := hends.accepts hwhole hlasts
  rw [hoptions, ← peerBytes_append] at haccepts
  exact ⟨haccepts, hsent, haccepts.opened_iff⟩

/-- The moves with which a server accepts `openingRequest`, in two pieces, between its beginning and
its last action. -/
def acceptingMoves : List Move :=
  [.peerSend (openingRequest.take 7), .read 5, .act (.call 0), .peerSend (openingRequest.drop 7),
    .read 2, .read (openingRequest.length - 7), .act (.call 0), .act (.call 0)]

/-- The moves with which a server is sent two line ends, up to the end of accepting. -/
def emptyMoves : List Move :=
  [.start 0 .accept, .act (.call 0), .peerSend (newline ++ newline), .read 4, .act (.call 0),
    .act (.call 0)]

theorem facts_of_acceptingMoves :
    ((new .server {} fun _ => Mask.zero).run (.start 0 .accept :: acceptingMoves)).bind (fun c =>
      (c.step (.act (.call 0))).bind fun c' =>
        (c'.answer? 0).map fun _ => (c.answer? 0, c'.phase, c'.transport.broken)) =
      some (none, .opened, false) := by
  decide +kernel

/-- A server that is sent a request in two pieces **opens and answers it**. -/
theorem acceptance_of_acceptingMoves :
    ∃ (c c' : Connection) (a : Answer),
      (new .server {} fun _ => Mask.zero).run (.start 0 .accept :: acceptingMoves) = some c ∧
      c.step (.act (.call 0)) = some c' ∧ c'.answer? 0 = some a ∧ c'.phase = .opened ∧
      Accepts {} (peerBytes (.start 0 .accept :: acceptingMoves ++ [.act (.call 0)]))
        c'.transport.ending
        ((new .server {} fun _ => Mask.zero).departures (.start 0 .accept :: acceptingMoves) ++
          c'.transport.outgoing) c' a := by
  obtain ⟨c, hmoves, hfacts⟩ := Option.bind_eq_some_iff.mp facts_of_acceptingMoves
  obtain ⟨c', hstep, hfacts⟩ := Option.bind_eq_some_iff.mp hfacts
  obtain ⟨a, hanswer, hfacts⟩ := Option.map_eq_some_iff.mp hfacts
  simp only [Prod.mk.injEq] at hfacts
  obtain ⟨hunanswered, hphase, hunbroken⟩ := hfacts
  refine ⟨c, c', a, hmoves, hstep, hanswer, hphase, ?_⟩
  have hbefore := run_nil (new .server {} fun _ => Mask.zero)
  exact ((acceptance_of_stream hbefore rfl rfl hmoves (by simp [acceptingMoves]) hunanswered).1
    hstep hanswer hunbroken (run_nil c')).1

theorem facts_of_emptyMoves :
    ((new .server {} fun _ => Mask.zero).run emptyMoves).map (fun c =>
      ((c.answer? 0).isSome, c.transport.broken,
        (new .server {} fun _ => Mask.zero).departures emptyMoves ++ c.transport.outgoing)) =
      some (true, false, []) := by
  decide +kernel

/-- A server that was sent a whole head **does not always answer** it. -/
theorem not_answered_of_delivers :
    ¬∀ (moves : List Move) (c : Connection),
      (new .server {} fun _ => Mask.zero).run (.start 0 .accept :: moves) = some c →
      newline ++ newline <:+: peerBytes moves → c.transport.broken = false →
      (c.answer? 0).isSome = true →
        IsHead ((new .server {} fun _ => Mask.zero).departures (.start 0 .accept :: moves) ++
          c.transport.outgoing) := by
  intro hclaim
  obtain ⟨c, hrun, hfacts⟩ := Option.map_eq_some_iff.mp facts_of_emptyMoves
  simp only [Prod.mk.injEq] at hfacts
  obtain ⟨hanswered, hunbroken, hwrote⟩ := hfacts
  have hhead := hclaim emptyMoves.tail c hrun (List.infix_refl _) hunbroken hanswered
  rw [show (new .server {} fun _ => Mask.zero).departures (.start 0 .accept :: emptyMoves.tail) ++
    c.transport.outgoing = [] from hwrote] at hhead
  cases hhead

end Connection

end WebSocket
