import WebSocket.Handshake.Request

/-!
# Responses to upgrade requests

A server agrees to a request with status 101, an accept value, and the subprotocol it has chosen;
it turns a request down with a status that says why. A client checks a response against the request
that it answers.
-/

namespace WebSocket

namespace Handshake

/-- A **response** to an upgrade request. -/
structure Response where
  status : Nat
  reason : Bytes
  headers : Http.Headers
  deriving DecidableEq, Repr

namespace Response

/-- The subprotocol that the server has chosen. -/
def protocol? (r : Response) : Option Bytes := headerText? r.headers .secWebSocketProtocol

/-- A response with a list of header lines. -/
def make (status : Nat) (reason : String) (headers : List (HeaderKind × Bytes)) : Response :=
  ⟨status, Bytes.ascii reason,
    headers.foldl (fun h (kind, value) => h.insert kind.name value) Http.Headers.empty⟩

/-- The response **as it is sent**. -/
def written (r : Response) : Bytes :=
  Bytes.ascii Http.Version.http11.text ++ Http.space :: (Bytes.ascii (toString r.status) ++
    Http.space :: (r.reason ++ (Http.newline ++ r.headers.written)))

/-- Reads a response head; a status below 100 is none. -/
def parse (head : Bytes) : Except Failure Response :=
  match Http.parseResponseHead head with
  | .incomplete => .error .incomplete
  | .fault flaw => .error (.ofFlaw flaw)
  | .found parts _ =>
    if parts.status < 100 then .error (.malformedStartLine ("bad status " ++ toString parts.status))
    else match collectFields parts.fields with
      | .ok headers => .ok ⟨parts.status, parts.reason, headers⟩
      | .error failure => .error failure

/-- **Judges a response** on behalf of the client that sent the request. -/
def validate (request : Request) (r : Response) : Except Failure Unit := do
  if r.status ≠ 101 then throw (.badStatus r.status)
  let upgrade ← required r.headers .upgrade
  let connection ← required r.headers .connection
  let accept ← required r.headers .secWebSocketAccept
  if !Bytes.eqIgnoringCase (Bytes.trim upgrade) (Bytes.ascii "websocket") then
    throw (.headerMismatch .upgrade)
  if !hasToken connection (Bytes.ascii "upgrade") then throw (.headerMismatch .connection)
  match request.key? with
  | none => throw (.missingHeader .secWebSocketKey)
  | some key => if Bytes.trim accept ≠ acceptValue key then throw .acceptMismatch
  match r.protocol? with
  | none => pure ()
  | some selected =>
    if !request.protocols.contains selected then throw (.headerMismatch .secWebSocketProtocol)

/-- The first subprotocol offered that is among those supported. -/
def selectProtocol (request : Request) (supported : List String) : Option Bytes :=
  request.protocols.find? fun offered => supported.any fun s => Utf8.encode s == offered

/-- **Agrees to a request**: the accept value for its key, and the chosen subprotocol. -/
def accepting (request : Request) (supported : List String) : Except Failure Response :=
  match request.key? with
  | none => .error (.missingHeader .secWebSocketKey)
  | some key =>
    .ok (make 101 "Switching Protocols"
      ([(.upgrade, Bytes.ascii "websocket"), (.connection, Bytes.ascii "Upgrade"),
        (.secWebSocketAccept, acceptValue (Bytes.trim key))] ++
        (selectProtocol request supported).toList.map fun p => (.secWebSocketProtocol, p)))

/-- **Turns a request down** for a failure. -/
def rejecting (failure : Failure) : Response :=
  let closing := [(HeaderKind.connection, Bytes.ascii "close"), (.contentLength, Bytes.ascii "0")]
  match failure with
  | .unsupportedVersion _ =>
    make 426 "Upgrade Required" ((.secWebSocketVersion, Bytes.ascii "13") :: closing)
  | .badMethod _ => make 405 "Method Not Allowed" closing
  | .tooLarge _ => make 431 "Request Header Fields Too Large" closing
  | _ => make 400 "Bad Request" closing

end Response

end Handshake

end WebSocket
