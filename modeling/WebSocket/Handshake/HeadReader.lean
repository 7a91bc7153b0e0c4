import WebSocket.Handshake.Failure

/-!
# Collecting a head

A head arrives in pieces of any size and ends with an empty line; what follows it in the same piece
belongs to the stream of frames. How the stream is cut into pieces makes no difference: only where
the head ends, and whether that is within the limit.

`readHead` looks at everything that has come each time that a piece comes. `collectHead` remembers
how far it has looked and goes on from there; it steps back three bytes, since an empty line may
have begun at the end of what had come.
-/

namespace WebSocket

namespace Handshake

/-- Where the first empty line that ends a head **ends**, counted from `start`. -/
def headEndFrom (start : Nat) : Bytes → Option Nat
  | [] => none
  | byte :: rest =>
    if (Http.newline ++ Http.newline).isPrefixOf (byte :: rest) then some (start + 4)
    else headEndFrom (start + 1) rest

/-- Where the head ends in the bytes that have come so far. -/
def headEnd? (b : Bytes) : Option Nat := headEndFrom 0 b

/-- How far the bytes that have come so far get. -/
inductive HeadProgress where
  /-- The head has not ended. -/
  | wait
  /-- The head, and the bytes behind it. -/
  | done (head rest : Bytes)
  /-- The head is longer than the limit. -/
  | tooLarge
  deriving DecidableEq, Repr

/-- Looks for the **end of the head** within a limit. -/
def headProgress (limit : Nat) (collected : Bytes) : HeadProgress :=
  match headEnd? collected with
  | some e => if limit < e then .tooLarge else .done (collected.take e) (collected.drop e)
  | none => if limit < collected.length then .tooLarge else .wait

/-- The outcome of **one read** of a stream: some bytes, or an error. A read of no bytes is the end
of the stream. -/
abbrev Read := Except String Bytes

/-- Reads a head from a stream, given as its reads: the head, what was read behind it, and the reads
that are left. Nothing that might be read behind the end of the stream is asked for. -/
def readHead (limit : Nat) (collected : Bytes) (reads : List Read) :
    Except Failure (Bytes × Bytes × List Read) :=
  match headProgress limit collected with
  | .tooLarge => .error (.tooLarge limit)
  | .done head rest => .ok (head, rest, reads)
  | .wait =>
    match reads with
    | [] | .ok [] :: _ => .error .incomplete
    | .error reason :: _ => .error (.transport reason)
    | .ok piece :: more => readHead limit (collected ++ piece) more

/-- Where the first empty line that ends a head ends, when no head ends in the first `scanned`
bytes. The **last three** of these are looked at again. -/
def headEndBehind? (scanned : Nat) (b : Bytes) : Option Nat :=
  headEndFrom (scanned - 3) (b.drop (scanned - 3))

/-- Goes on reading a head from a stream, when no head ends in the first `scanned` of the bytes that
have come. -/
def seekHead (limit scanned : Nat) (collected : Bytes) (reads : List Read) :
    Except Failure (Bytes × Bytes × List Read) :=
  match headEndBehind? scanned collected with
  | some e =>
    if limit < e then .error (.tooLarge limit)
    else .ok (collected.take e, collected.drop e, reads)
  | none =>
    if limit < collected.length then .error (.tooLarge limit)
    else match reads with
    | [] | .ok [] :: _ => .error .incomplete
    | .error reason :: _ => .error (.transport reason)
    | .ok piece :: more => seekHead limit collected.length (collected ++ piece) more

/-- **Collects a head** from a stream, given as its reads, and looks at what has come piece by
piece: the head, what was read behind it, and the reads that are left. -/
def collectHead (limit : Nat) (reads : List Read) : Except Failure (Bytes × Bytes × List Read) :=
  seekHead limit 0 [] reads

/-- Everything that the reads of a stream give **before it ends or fails**. -/
def readRest : List Read → Bytes
  | [] | .error _ :: _ | .ok [] :: _ => []
  | .ok piece :: more => piece ++ readRest more

end Handshake

end WebSocket
