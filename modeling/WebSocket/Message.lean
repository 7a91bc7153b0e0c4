import WebSocket.Frame

/-!
# Messages

What an application sends and receives is a message: a text or a string of bytes. On the wire it
is one data frame, or several, of which the first says what the message is and only the last is
final. `Message.fragments` cuts a message into such frames.
-/

namespace WebSocket

/-- What a message **holds**. -/
inductive MessageKind where
  | text
  | binary
  deriving DecidableEq, Repr, Inhabited

namespace MessageKind

/-- The opcode of the first frame of such a message. -/
def opcode : MessageKind → Opcode
  | text => .text
  | binary => .binary

/-- The kind in words. -/
def name : MessageKind → String
  | text => "Text"
  | binary => "Binary"

end MessageKind

/-- A complete **message**. -/
structure Message where
  kind : MessageKind
  payload : Bytes
  deriving DecidableEq, Repr, Inhabited

namespace Message

/-- A text message. -/
def ofText (text : String) : Message := ⟨.text, Utf8.encode text⟩

/-- A binary message. -/
def ofBytes (payload : Bytes) : Message := ⟨.binary, payload⟩

/-- The text of a text message, when its payload is UTF-8. -/
def text? (m : Message) : Option String :=
  match m.kind with
  | .text => Utf8.text? m.payload
  | .binary => none

/-- Whether a message is a text message whose payload is UTF-8. -/
def isText (m : Message) : Bool :=
  match m.kind with
  | .text => Utf8.isValid m.payload
  | .binary => false

/-! ### Fragments -/

/-- The frames of a message with **at most `size` bytes** in each; a size of zero counts as one.
A message that fits into one frame, the empty one included, is one frame. -/
def fragments (m : Message) (size : Nat) : List Frame :=
  let size := max size 1
  if m.payload.length ≤ size then [Frame.ofPayload m.kind.opcode m.payload]
  else
    let parts := Bytes.pieces size m.payload
    let count := parts.length
    parts.mapIdx fun i part =>
      { Frame.ofPayload (if i = 0 then m.kind.opcode else .continuation) part with
        fin := i + 1 == count }

end Message

end WebSocket
