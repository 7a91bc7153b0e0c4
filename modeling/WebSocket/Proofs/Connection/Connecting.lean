import WebSocket.Proofs.Connection.Undertakings

/-!
# What a client accepts

A client opens only on a response that agrees with its request: the status, the headers of the
upgrade, and the accept value are checked, and the subprotocol if it can be read. A subprotocol that
is no ASCII text counts as none, so a client that has offered none opens all the same. On any other
response, and on none, it closes without having written a frame.

## Main results

* `Connection.agreement_of_stream`: a client opens **exactly on a response that agrees** with its
  request, however the response comes in.
-/

namespace WebSocket

namespace Connection

open Handshake Http

variable {c c' c₀ : Connection} {move : Move} {moves before : List Move} {id : Nat} {stream : Bytes}
  {host path : String} {headers : List (String × String)} {nonce : Bytes} {role : Role}
  {options : Options} {keys : Nat → Mask}

/-- A stream that begins with a response that **agrees with a request**, which the client reads as
`response`. -/
structure Switches (options : Options) (request : Request) (response : Response) (stream : Bytes) :
    Prop where
  head : ∃ head rest, headProgress options.maxHandshakeSize stream = .done head rest ∧
    Response.parse head = .ok response
  agrees : response.Agrees request

theorem answerHead_eq_ok {request : Request} {response : Response} {head : Bytes} :
    answerHead request head = .ok response ↔
      Response.parse head = .ok response ∧ response.Agrees request := by
  unfold answerHead
  simp only [bind_eq_ok]
  constructor
  · rintro ⟨parsed, hparse, valid, hvalid, hpure⟩
    cases hpure
    exact ⟨hparse, Response.validate_iff.mp hvalid⟩
  · rintro ⟨hparse, hagrees⟩
    exact ⟨response, hparse, (), Response.validate_iff.mpr hagrees, rfl⟩

/-- A response **that does** is one that agrees with the request. -/
theorem replied?_eq_ok {request : Request} {response : Response} :
    c.replied? request stream = some (.ok response) ↔
      Switches c.options request response stream := by
  constructor
  · intro h
    obtain ⟨outcome, hfetched, hanswer⟩ := Option.map_eq_some_iff.mp h
    obtain ⟨head, rest, hhead, rfl⟩ | ⟨-, rfl⟩ | ⟨-, e, -, rfl⟩ := fetched?_cases hfetched
    · obtain ⟨hparse, hagrees⟩ := answerHead_eq_ok.mp hanswer
      exact ⟨⟨head, rest, hhead, hparse⟩, hagrees⟩
    · cases hanswer
    · cases hanswer
  · rintro ⟨⟨head, rest, hhead, hparse⟩, hagrees⟩
    unfold replied? Connection.fetched? Handshake.fetched?
    rw [hhead]
    exact congrArg some (answerHead_eq_ok.mpr ⟨hparse, hagrees⟩)

/-- **What comes of connecting**: the answer, and what became of the connection. -/
inductive Connects (options : Options) (request? : Except Failure Request) (stream wrote : Bytes)
    (c : Connection) : Answer → Prop
  /-- The request was written, and the response agrees with it. -/
  | opened {request : Request} {response : Response} (hrequest : request? = .ok request)
      (hswitches : Switches options request response stream) (hwrote : wrote = request.written)
      (hphase : c.phase = .opened) (hprotocol : c.protocol = response.protocol?) :
      Connects options request? stream wrote c (.connected response)
  | failed {failure : Failure} (hphase : c.phase = .closed) (hshut : c.transport.shut = true) :
      Connects options request? stream wrote c (.failed (.handshake failure))

/-- **What a handshake of a client has come to** tells what comes of connecting; if no write has
failed, the client opens for every response that agrees with its request. -/
theorem Concludes.connects {wrote : Bytes} {a : Answer}
    (h : Concludes c stream wrote (.connect host path headers nonce) [.answer a] c')
    {more : Bytes} {c'' : Connection} (hlasts : Lasts more c c'') :
    Connects c.options (clientRequest c.options host path headers nonce) (stream ++ more) wrote c'
        a ∧
      (c.transport.broken = false →
        (c'.phase = .opened ↔ ∃ request response,
          clientRequest c.options host path headers nonce = .ok request ∧
            Switches c.options request response (stream ++ more))) := by
  rw [← hlasts.options]
  cases h with
  | achieved hscript hachieves hphase hprotocol =>
      cases hscript
      obtain hachieves := hlasts.achieves hachieves
      cases hachieves with
      | connected hrequest hresponse hwrote =>
          have hswitches := replied?_eq_ok.mp hresponse
          exact ⟨.opened hrequest hswitches hwrote hphase hprotocol,
            fun _ => ⟨fun _ => ⟨_, _, hrequest, hswitches⟩, fun _ => hphase⟩⟩
  | failed hscript hfails hphase hshut =>
      cases hscript
      refine ⟨.failed hphase hshut, fun hunbroken => iff_of_false ?_ ?_⟩
      · exact fun hopen => nomatch hphase.symm.trans hopen
      · rintro ⟨request, response, hrequest, hswitches⟩
        have hreplied := replied?_eq_ok.mpr hswitches
        cases hfails with
        | broken hbroken => exact nomatch hunbroken.symm.trans hbroken
        | unbuilt hrequest' =>
            rw [← hlasts.options] at hrequest'
            exact nomatch hrequest'.symm.trans hrequest
        | unmet hrequest' hresponse =>
            rw [← hlasts.options] at hrequest'
            cases hrequest'.symm.trans hrequest
            exact nomatch (hlasts.replied? hresponse).symm.trans hreplied

/-- **A client opens exactly on a response that agrees with its request.** A response is accepted if
its status is 101, if its headers name the upgrade, if it proves that the key was read, and if it
selects a subprotocol that was offered or none; a subprotocol that is no ASCII text counts as none.
Some client begins to connect while its transport waits for a handshake, and nobody gives that up.
When connecting ends, the client has opened on such a response, with nothing written but its
request, or it has closed; it has written no frame. If no write has failed, it opens on every such
response within the limit. As long as connecting has not ended the client gets on by itself, and
waits only for a head that may still come. -/
theorem agreement_of_stream (hbefore : (new role options keys).run before = some c₀)
    (hphase : c₀.phase = .connecting) (hstage : c₀.stage = .handshake)
    (hmoves : c₀.run (.start id (.connect host path headers nonce) :: moves) = some c)
    (hkept : ∀ m ∈ moves, m ≠ .giveUp id ∧ m ≠ .collect id) (hunanswered : c.answer? id = none) :
    (∀ (request : Request) (response : Response),
      response.validate request = .ok () ↔ response.Agrees request) ∧
    (∀ {move a after c' c''}, c.step move = some c' → c'.answer? id = some a →
      c'.run after = some c'' →
        let began := before ++ .start id (.connect host path headers nonce) :: moves
        let stream := peerBytes (began ++ move :: after)
        Connects options (clientRequest options host path headers nonce) stream
            ((new role options keys).departures began ++ c'.transport.outgoing) c' a ∧
          c'.sent = [] ∧
          (c'.transport.broken = false →
            (c'.phase = .opened ↔ ∃ request response,
              clientRequest options host path headers nonce = .ok request ∧
                Switches options request response stream))) ∧
    Pending options.maxHandshakeSize
      (peerBytes (before ++ .start id (.connect host path headers nonce) :: moves)) c := by
  have hreach := ((reachable_new role options keys).run hbefore).run hmoves
  have hoptions : c.options = options :=
    (settings_of_run (reachable_new role options keys)
      (run_append_eq_some.mpr ⟨c₀, hbefore, hmoves⟩)).2
  have hstands := undertaking_of_unanswered hbefore hphase hstage
    (fun _ => .connect hstage rfl rfl) hmoves hkept hunanswered
  refine ⟨fun _ _ => Response.validate_iff, ?_, hoptions ▸ hstands.pending hreach⟩
  intro move a after c' c'' hstep hanswer hafter
  obtain ⟨-, hsent, hends⟩ := hstands.concludes hreach hstep hanswer
  have hlasts : Lasts (peerBytes (move :: after)) c c'' :=
    lasts_of_run (run_cons_eq_some.mpr ⟨c', hstep, hafter⟩)
  obtain ⟨hconnects, hopens⟩ := hends.connects hlasts
  rw [hoptions, ← peerBytes_append] at hconnects hopens
  refine ⟨hconnects, hsent, fun hunbroken => hopens (Bool.eq_false_iff.mpr fun hbroken => ?_)⟩
  exact nomatch hunbroken.symm.trans ((transition_of_step hstep).lasts.broken hbroken)

/-- The head of a response that proves that a key of zeros was read, with one more header line. -/
def switchingHead (line : Bytes) : Bytes :=
  Bytes.ascii (String.join
    ["HTTP/1.1 101 Switching Protocols\r\n", "Upgrade: websocket\r\n",
      "Connection: keep-alive, Upgrade\r\n",
      "Sec-WebSocket-Accept: ICX+Yqv66kxgM0FcWaLWlFLwTAI=\r\n"]) ++
    (line ++ (newline ++ newline))

/-- The moves with which a client connects, between its beginning and its last action. -/
def connectingMoves : List Move :=
  let head := switchingHead (Bytes.ascii "Server: s")
  [.act (.call 0), .act (.call 0), .peerSend head, .read 9, .read (head.length - 9), .act (.call 0)]

theorem facts_of_connectingMoves :
    ((new .client {} fun _ => Mask.zero).run
        (.start 0 (.connect "h" "/" [] (List.replicate 16 0)) :: connectingMoves)).bind (fun c =>
      (c.step (.act (.call 0))).bind fun c' =>
        (c'.answer? 0).map fun _ => (c.answer? 0, c'.phase)) =
      some (none, .opened) := by
  decide +kernel

/-- A client that gets such a response in two pieces **opens on it**. -/
theorem agreement_of_connectingMoves :
    let operation := Operation.connect "h" "/" [] (List.replicate 16 0)
    ∃ (c c' : Connection) (a : Answer),
      (new .client {} fun _ => Mask.zero).run (.start 0 operation :: connectingMoves) = some c ∧
      c.step (.act (.call 0)) = some c' ∧ c'.answer? 0 = some a ∧ c'.phase = .opened ∧
      Connects {} (clientRequest {} "h" "/" [] (List.replicate 16 0))
        (peerBytes (.start 0 operation :: connectingMoves ++ [.act (.call 0)]))
        ((new .client {} fun _ => Mask.zero).departures (.start 0 operation :: connectingMoves) ++
          c'.transport.outgoing) c' a := by
  obtain ⟨c, hmoves, hfacts⟩ := Option.bind_eq_some_iff.mp facts_of_connectingMoves
  obtain ⟨c', hstep, hfacts⟩ := Option.bind_eq_some_iff.mp hfacts
  obtain ⟨a, hanswer, hfacts⟩ := Option.map_eq_some_iff.mp hfacts
  simp only [Prod.mk.injEq] at hfacts
  obtain ⟨hunanswered, hphase⟩ := hfacts
  have hbefore := run_nil (new .client {} fun _ => Mask.zero)
  refine ⟨c, c', a, hmoves, hstep, hanswer, hphase, ?_⟩
  exact ((agreement_of_stream hbefore rfl rfl hmoves (by simp [connectingMoves]) hunanswered).2.1
    hstep hanswer (run_nil c')).1

/-- The line with which a server **selects a subprotocol that is no text**. -/
def opaqueLine : Bytes := Bytes.ascii "Sec-WebSocket-Protocol: " ++ [0xFF]

theorem facts_of_opaqueLine :
    (match Request.build "h" "/" (List.replicate 16 0),
        Response.parse (switchingHead opaqueLine) with
      | .ok request, .ok response =>
        some (response.validate request,
          response.headers.get? HeaderKind.secWebSocketProtocol.name, request.protocols)
      | _, _ => none) =
      some (.ok (), some [0xFF], []) := by
  decide +kernel

/-- A client accepts a response that **selects a subprotocol which was not offered**, if the
subprotocol cannot be read. -/
theorem not_offered_of_validate :
    ¬∀ (request : Request) (head : Bytes) (response : Response),
      Response.parse head = .ok response → response.validate request = .ok () →
      ∀ value, response.headers.get? HeaderKind.secWebSocketProtocol.name = some value →
        value ∈ request.protocols := by
  intro hclaim
  have hfacts := facts_of_opaqueLine
  split at hfacts
  · rename_i request response hrequest hparse
    simp only [Option.some.injEq, Prod.mk.injEq] at hfacts
    obtain ⟨hvalid, hvalue, hoffers⟩ := hfacts
    have hoffered := hclaim request _ response hparse hvalid _ hvalue
    rw [hoffers] at hoffered
    cases hoffered
  · cases hfacts

end Connection

end WebSocket
