import WebSocket.Handshake.Failure
import WebSocket.Base64
import WebSocket.Sha1

/-!
# Upgrade requests

A client opens a connection with a `GET` request that asks for an upgrade to the protocol. Its key
of 16 random bytes comes back in the response as an accept value, which proves that the server has
read the request.
-/

namespace WebSocket

namespace Handshake

/-- What is put behind a key before it is hashed. -/
def keySuffix : Bytes := Bytes.ascii "258EAFA5-E914-47DA-95CA-C5AB0DC85B11"

/-- The **accept value** for a key. -/
def acceptValue (key : Bytes) : Bytes := Base64.encode (Sha1.digest (key ++ keySuffix))

/-- An **upgrade request**. -/
structure Request where
  method : Bytes
  target : Bytes
  version : Http.Version
  headers : Http.Headers
  deriving DecidableEq, Repr

namespace Request

/-- The key that the request carries. -/
def key? (r : Request) : Option Bytes := headerText? r.headers .secWebSocketKey

/-- The **subprotocols offered**, the preferred one first. -/
def protocols (r : Request) : List Bytes :=
  match headerText? r.headers .secWebSocketProtocol with
  | none => []
  | some list =>
    ((Bytes.splitOn Http.comma list).map Bytes.trim).filter fun entry => !entry.isEmpty

/-- Sets a header of the request. -/
def setHeader (r : Request) (name value : String) : Except Failure Request :=
  match Handshake.setHeader r.headers name value with
  | .ok headers => .ok { r with headers := headers }
  | .error failure => .error failure

/-- Sets several headers, one after the other. -/
def setHeaders (r : Request) (headers : List (String × String)) : Except Failure Request :=
  headers.foldlM (fun request (name, value) => request.setHeader name value) r

/-- The request for a host and a path with a key of random bytes; an empty path means `/`. -/
def build (host path : String) (nonce : Bytes) : Except Failure Request :=
  let target := if path.isEmpty then "/" else path
  setHeaders ⟨Bytes.ascii "GET", Utf8.encode target, .http11, Http.Headers.empty⟩
    [(HeaderKind.host.text, host),
      (HeaderKind.upgrade.text, "websocket"),
      (HeaderKind.connection.text, "Upgrade"),
      (HeaderKind.secWebSocketKey.text, Bytes.asciiText (Base64.encode nonce)),
      (HeaderKind.secWebSocketVersion.text, "13")]

/-- The request **as it is sent**. -/
def written (r : Request) : Bytes :=
  r.method ++ Http.space :: (r.target ++ Http.space :: (Bytes.ascii Http.Version.http11.text ++
    (Http.newline ++ r.headers.written)))

/-- Reads a request head. -/
def parse (head : Bytes) : Except Failure Request :=
  match Http.parseRequestHead head with
  | .incomplete => .error .incomplete
  | .fault flaw => .error (.ofFlaw flaw)
  | .found parts _ =>
    match collectFields parts.fields with
    | .ok headers => .ok ⟨parts.method, parts.target, parts.version, headers⟩
    | .error failure => .error failure

/-- Whether a key is the written form of 16 bytes. -/
def isKey (value : Bytes) : Bool :=
  match Base64.decode? value with
  | some raw => raw.length == 16
  | none => false

/-- **Judges a request** on behalf of a server. Headers that are missing come before headers that
are wrong. -/
def validate (r : Request) : Except Failure Unit := do
  if r.method ≠ Bytes.ascii "GET" then throw (.badMethod (Bytes.asciiText r.method))
  if r.version = .http10 then throw .badVersion
  let _ ← required r.headers .host
  let upgrade ← required r.headers .upgrade
  let connection ← required r.headers .connection
  let key ← required r.headers .secWebSocketKey
  let version ← required r.headers .secWebSocketVersion
  if !Bytes.eqIgnoringCase (Bytes.trim upgrade) (Bytes.ascii "websocket") then
    throw (.headerMismatch .upgrade)
  if !hasToken connection (Bytes.ascii "upgrade") then throw (.headerMismatch .connection)
  if Bytes.trim version ≠ Bytes.ascii "13" then
    throw (.unsupportedVersion (Bytes.asciiText (Bytes.trim version)))
  if !isKey (Bytes.trim key) then throw .invalidKey

end Request

end Handshake

end WebSocket
