import WebSocket.Http.Head

/-!
# Failed handshakes

Why an opening handshake fails. A connection that meets one of these never opens.
-/

namespace WebSocket

namespace Handshake

/-- The **header lines** that a handshake looks at or writes. -/
inductive HeaderKind where
  | host
  | upgrade
  | connection
  | secWebSocketKey
  | secWebSocketVersion
  | secWebSocketAccept
  | secWebSocketProtocol
  | contentLength
  | authorization
  | cookie
  | origin
  deriving DecidableEq, Repr, Inhabited

namespace HeaderKind

/-- The name in its usual spelling. -/
def text : HeaderKind → String
  | host => "Host"
  | upgrade => "Upgrade"
  | connection => "Connection"
  | secWebSocketKey => "Sec-WebSocket-Key"
  | secWebSocketVersion => "Sec-WebSocket-Version"
  | secWebSocketAccept => "Sec-WebSocket-Accept"
  | secWebSocketProtocol => "Sec-WebSocket-Protocol"
  | contentLength => "Content-Length"
  | authorization => "Authorization"
  | cookie => "Cookie"
  | origin => "Origin"

/-- The name in lower case, as header lines keep it. -/
def name (k : HeaderKind) : Bytes := Bytes.lower (Bytes.ascii k.text)

end HeaderKind

/-- Why a **handshake fails**. -/
inductive Failure where
  /-- The response does not switch protocols. -/
  | badStatus (status : Nat)
  | missingHeader (kind : HeaderKind)
  | headerMismatch (kind : HeaderKind)
  /-- The server has not proved that it read the key. -/
  | acceptMismatch
  | malformedHeader (text : String)
  | malformedStartLine (text : String)
  | badMethod (method : String)
  | badVersion
  | unsupportedVersion (version : String)
  /-- The key is not made of 16 bytes. -/
  | invalidKey
  | tooLarge (limit : Nat)
  /-- The stream ended before the head did. -/
  | incomplete
  | transport (reason : String)
  deriving DecidableEq, Repr, Inhabited

namespace Failure

/-- The failure in words. -/
def message : Failure → String
  | badStatus status => s!"Unexpected handshake status {status}"
  | missingHeader kind => "Missing header: " ++ kind.text
  | headerMismatch kind => "Header has an unexpected value: " ++ kind.text
  | acceptMismatch => "Sec-WebSocket-Accept does not match the request key"
  | malformedHeader text => "Malformed header: " ++ text
  | malformedStartLine text => "Malformed start line: " ++ text
  | badMethod method => "Handshake method must be GET, got " ++ method
  | badVersion => "Handshake requires HTTP/1.1"
  | unsupportedVersion version => "Unsupported WebSocket version " ++ version
  | invalidKey => "Sec-WebSocket-Key must be 16 base64-encoded bytes"
  | tooLarge limit => s!"Handshake exceeds {limit} bytes"
  | incomplete => "Stream ended before the handshake completed"
  | transport reason => "IO Error: " ++ reason

/-- The failure that a flaw in a head amounts to. -/
def ofFlaw (flaw : Http.Flaw) : Failure :=
  if flaw.isInHeaders then malformedHeader flaw.message else malformedStartLine flaw.message

/-- Whether the peer **is still there to be told** of the failure. -/
def isAnswered : Failure → Bool
  | incomplete | transport _ => false
  | _ => true

end Failure

/-- A header as **ASCII text**: nothing when there is none or when it holds other bytes. -/
def headerText? (h : Http.Headers) (kind : HeaderKind) : Option Bytes :=
  match h.get? kind.name with
  | some value => if value.all Http.isVisible then some value else none
  | none => none

/-- A header that must be there and must be ASCII text. -/
def required (h : Http.Headers) (kind : HeaderKind) : Except Failure Bytes :=
  match h.get? kind.name with
  | none => .error (.missingHeader kind)
  | some value =>
    if value.all Http.isVisible then .ok value else .error (.malformedHeader kind.text)

/-- Whether a list separated by commas holds a token, in any case. -/
def hasToken (list token : Bytes) : Bool :=
  (Bytes.splitOn Http.comma list).any fun entry => Bytes.eqIgnoringCase (Bytes.trim entry) token

/-- The header lines of a head, with names in lower case; of lines with one name the **last**
counts. -/
def collectFields (fields : List Http.Field) : Except Failure Http.Headers :=
  fields.foldlM (fun headers field =>
    if Http.Headers.isName field.name then
      .ok (headers.insert (Bytes.lower field.name) field.value)
    else .error (.malformedHeader (Bytes.asciiText field.name))) Http.Headers.empty

/-- Sets a header, in the place of an earlier value if there is one. -/
def setHeader (h : Http.Headers) (name value : String) : Except Failure Http.Headers :=
  let nameBytes := Utf8.encode name
  let valueBytes := Utf8.encode value
  if Http.Headers.isName nameBytes then
    let key := Bytes.lower nameBytes
    if Http.Headers.isValue valueBytes then .ok (h.insert key valueBytes)
    else .error (.malformedHeader (Bytes.asciiText key ++ ": " ++ value))
  else .error (.malformedHeader name)

end Handshake

end WebSocket
