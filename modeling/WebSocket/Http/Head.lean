import WebSocket.Http.Headers
import WebSocket.Scan
import WebSocket.Utf8

/-!
# Reading a head

A head is a start line, header lines and an empty line. Lines end with a line feed, which a
carriage return may precede, and empty lines may stand before the start line. Reading stops behind
the empty line that ends the head. Bytes that follow are not looked at, and a head that ends too
early is told apart from one that is wrong.
-/

namespace WebSocket

namespace Http

/-- What is **wrong with a head**. -/
inductive Flaw where
  | headerName
  | headerValue
  | newLine
  | tooManyHeaders
  | token
  | version
  | status
  deriving DecidableEq, Repr, Inhabited

namespace Flaw

/-- The flaw in words. -/
def message : Flaw → String
  | headerName => "invalid header name"
  | headerValue => "invalid header value"
  | newLine => "invalid new line"
  | tooManyHeaders => "too many headers"
  | token => "invalid token"
  | version => "invalid HTTP version"
  | status => "invalid response status"

/-- Whether the flaw is in the header lines and not in the start line. -/
def isInHeaders : Flaw → Bool
  | headerName | headerValue | newLine | tooManyHeaders => true
  | token | version | status => false

end Flaw

/-- The **version** of the protocol in which a head is written. -/
inductive Version where
  | http10
  | http11
  deriving DecidableEq, Repr, Inhabited

namespace Version

/-- The version as it is written. -/
def text : Version → String
  | http10 => "HTTP/1.0"
  | http11 => "HTTP/1.1"

end Version

/-! ### Lines -/

/-- Skips the empty lines in front of a start line. -/
def skipEmptyLines : Bytes → Scan Flaw Unit
  | [] => .incomplete
  | byte :: rest =>
    if byte = lineFeed then skipEmptyLines rest
    else if byte = carriageReturn then
      match rest with
      | [] => .incomplete
      | next :: rest => if next = lineFeed then skipEmptyLines rest else .fault .newLine
    else .found () (byte :: rest)

/-- Reads the end of a line; anything else is the given flaw. -/
def parseLineEnd (flaw : Flaw) : Bytes → Scan Flaw Unit
  | [] => .incomplete
  | byte :: rest =>
    if byte = lineFeed then .found () rest
    else if byte = carriageReturn then
      match rest with
      | [] => .incomplete
      | next :: rest => if next = lineFeed then .found () rest else .fault flaw
    else .fault flaw

/-- Reads the longest front part whose bytes are all of one class, and the byte behind it. -/
def parseUntil (member : UInt8 → Bool) (b : Bytes) : Scan Flaw (Bytes × UInt8) :=
  match b.dropWhile member with
  | [] => .incomplete
  | next :: rest => .found (b.takeWhile member, next) rest

/-! ### Start lines -/

/-- Reads a **method** and the space behind it. -/
def parseMethod (b : Bytes) : Scan Flaw Bytes :=
  (parseUntil isToken b).andThen fun (method, next) rest =>
    if next = space ∧ method ≠ [] then .found method rest else .fault .token

/-- Reads a **request target**, which must be UTF-8, and the space behind it. -/
def parseTarget (b : Bytes) : Scan Flaw Bytes :=
  (parseUntil isTarget b).andThen fun (target, next) rest =>
    if next = space ∧ target ≠ [] ∧ Utf8.isValid target then .found target rest
    else .fault .token

/-- Reads a **version**. -/
def parseVersion (b : Bytes) : Scan Flaw Version :=
  match Bytes.split? 8 b with
  | some (digits, rest) =>
    if digits = Bytes.ascii "HTTP/1.0" then .found .http10 rest
    else if digits = Bytes.ascii "HTTP/1.1" then .found .http11 rest
    else .fault .version
  | none => if b.isPrefixOf (Bytes.ascii "HTTP/1.") then .incomplete else .fault .version

/-- Reads a **status** of three digits. -/
def parseStatus (b : Bytes) : Scan Flaw Nat :=
  let digits := b.take 3
  if digits.all isDigit then
    match Bytes.split? 3 b with
    | none => .incomplete
    | some (digits, rest) =>
      .found (digits.foldl (fun n d => 10 * n + (d.toNat - 0x30)) 0) rest
  else .fault .status

/-- Reads a **reason phrase** to the end of its line. One with a byte outside ASCII counts as
empty. -/
def parseReason (b : Bytes) : Scan Flaw Bytes :=
  let reason := b.takeWhile isText
  (parseLineEnd .status (b.dropWhile isText)).map fun _ =>
    if reason.all isVisible then reason else []

/-- Reads what follows a status: the end of the line, or a space and a reason. -/
def parseAfterStatus (b : Bytes) : Scan Flaw Bytes :=
  match b with
  | [] => .incomplete
  | next :: rest =>
    if next = space then parseReason rest else (parseLineEnd .status b).map fun _ => []

/-! ### Header lines -/

/-- Reads a header name and the colon behind it. -/
def parseName (b : Bytes) : Scan Flaw Bytes :=
  (parseUntil isToken b).andThen fun (name, next) rest =>
    if next = colon ∧ name ≠ [] then .found name rest else .fault .headerName

/-- Reads a header value **without the blanks around it**, and the end of its line. -/
def parseValue (b : Bytes) : Scan Flaw Bytes :=
  let value := b.takeWhile isText
  (parseLineEnd .headerValue (b.dropWhile isText)).map fun _ => Bytes.trim value

/-- The most header lines that a head may have. -/
def maxFields : Nat := 64

/-- Reads header lines up to the empty line that ends the head; `slots` more lines have room. The
names are as they were written. -/
def parseFields : Nat → Bytes → Scan Flaw (List Field)
  | _, [] => .incomplete
  | slots, byte :: rest =>
    if byte = carriageReturn ∨ byte = lineFeed then
      (parseLineEnd .newLine (byte :: rest)).map fun _ => []
    else
      (parseName (byte :: rest)).andThen fun name rest =>
        (parseValue rest).andThen fun value rest =>
          match slots with
          | 0 => .fault .tooManyHeaders
          | slots + 1 => (parseFields slots rest).map fun fields => ⟨name, value⟩ :: fields

/-! ### Heads -/

/-- The parts of a **request head**. -/
structure RequestHead where
  method : Bytes
  target : Bytes
  version : Version
  fields : List Field
  deriving DecidableEq, Repr

/-- The parts of a **response head**. -/
structure ResponseHead where
  version : Version
  status : Nat
  reason : Bytes
  fields : List Field
  deriving DecidableEq, Repr

/-- Reads a request head. -/
def parseRequestHead (b : Bytes) : Scan Flaw RequestHead :=
  (skipEmptyLines b).andThen fun _ rest =>
  (parseMethod rest).andThen fun method rest =>
  (parseTarget rest).andThen fun target rest =>
  (parseVersion rest).andThen fun version rest =>
  (parseLineEnd .newLine rest).andThen fun _ rest =>
  (parseFields maxFields rest).map fun fields => ⟨method, target, version, fields⟩

/-- Reads a response head. -/
def parseResponseHead (b : Bytes) : Scan Flaw ResponseHead :=
  (skipEmptyLines b).andThen fun _ rest =>
  (parseVersion rest).andThen fun version rest =>
  match rest with
  | [] => .incomplete
  | next :: rest =>
    if next ≠ space then .fault .version
    else
      (parseStatus rest).andThen fun status rest =>
      (parseAfterStatus rest).andThen fun reason rest =>
      (parseFields maxFields rest).map fun fields => ⟨version, status, reason, fields⟩

end Http

end WebSocket
