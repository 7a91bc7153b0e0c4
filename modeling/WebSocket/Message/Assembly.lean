import WebSocket.Message

/-!
# Putting messages together

The frames of one message come in order, but control frames may come between them. An `Assembly`
collects the pieces of the message in progress and gives a message when its final frame arrives.
Control frames pass through untouched. A fault drops the message in progress, so that the assembly
is as good as new.
-/

namespace WebSocket

/-- The pieces of a message **in progress**. -/
structure Pending where
  kind : MessageKind
  /-- The payloads of the frames so far, newest first. -/
  pieces : List Bytes
  /-- How many bytes the pieces hold together. -/
  size : Nat
  size_eq : size = pieces.flatten.length

namespace Pending

/-- A message of which one piece has come. -/
def start (kind : MessageKind) (piece : Bytes) : Pending :=
  ⟨kind, [piece], piece.length, by simp⟩

/-- The message with one piece more. -/
def add (p : Pending) (piece : Bytes) : Pending :=
  ⟨p.kind, piece :: p.pieces, p.size + piece.length, by
    simp [p.size_eq, Nat.add_comm]⟩

/-- The bytes of all pieces, in the order in which they came. -/
def payload (p : Pending) : Bytes := p.pieces.reverse.flatten

end Pending

/-- What a frame **completes**. -/
inductive Assembled where
  | message (m : Message)
  /-- A control frame, as it came. -/
  | control (f : Frame)
  deriving DecidableEq, Repr

/-- Puts frames together into messages. -/
structure Assembly where
  /-- The most bytes that a message may have, if there is a limit. -/
  limit : Option Nat
  /-- The message in progress, if there is one. -/
  pending : Option Pending

namespace Assembly

/-- An assembly with no message in progress. -/
def fresh (limit : Option Nat) : Assembly := ⟨limit, none⟩

/-- Whether a message waits for its final frame. -/
def inProgress (a : Assembly) : Bool := a.pending.isSome

/-- The fault of a message that has grown to `size` bytes, if that is over the limit. -/
def sizeFault? (a : Assembly) (size : Nat) : Option Fault :=
  match a.limit with
  | some limit => if limit < size then some (.messageTooLarge size limit) else none
  | none => none

/-- The message of a final frame: the text of a text message must be UTF-8 **as a whole**. -/
def complete (kind : MessageKind) (payload : Bytes) : Except Fault Assembled :=
  if kind = .text ∧ Utf8.isValid payload = false then .error (.violation .invalidUtf8)
  else .ok (.message ⟨kind, payload⟩)

/-- Takes a piece into the message in progress; the final piece completes it. -/
def advance (a : Assembly) (p : Pending) (fin : Bool) :
    Assembly × Except Fault (Option Assembled) :=
  match a.sizeFault? p.size with
  | some f => (fresh a.limit, .error f)
  | none =>
    if fin then (fresh a.limit, (complete p.kind p.payload).map some)
    else ({ a with pending := some p }, .ok none)

/-- **Feeds one frame**: the assembly afterwards, and what the frame completes, if anything. -/
def feed (a : Assembly) (f : Frame) : Assembly × Except Fault (Option Assembled) :=
  match f.opcode, a.pending with
  | .close, _ | .ping, _ | .pong, _ => (a, .ok (some (.control f)))
  | .continuation, none => (fresh a.limit, .error (.violation .unexpectedContinuation))
  | .continuation, some p => a.advance (p.add f.payload) f.fin
  | .text, none => a.advance (.start .text f.payload) f.fin
  | .binary, none => a.advance (.start .binary f.payload) f.fin
  | .text, some _ | .binary, some _ =>
    (fresh a.limit, .error (.violation .unexpectedDataFrame))

end Assembly

end WebSocket
