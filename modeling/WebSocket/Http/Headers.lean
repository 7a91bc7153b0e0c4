import WebSocket.Http.Chars

/-!
# Header lines

The header lines of a head, in the order in which their names first came. Names are kept in lower
case, so that looking one up does not depend on how it was written, and each name occurs once: a
later value **takes the place** of an earlier one. On the wire every part of a name begins with an
upper-case letter.
-/

namespace WebSocket

namespace Http

/-- A **header line**. -/
structure Field where
  /-- The name, in lower case. -/
  name : Bytes
  value : Bytes
  deriving DecidableEq, Repr, Inhabited

/-- The **header lines** of a head. -/
structure Headers where
  fields : List Field
  deriving DecidableEq, Repr, Inhabited

namespace Headers

/-- No header line. -/
def empty : Headers := ⟨[]⟩

/-- The value of a name in lower case. -/
def get? (h : Headers) (name : Bytes) : Option Bytes :=
  (h.fields.find? fun f => f.name == name).map Field.value

/-- The fields with a new value for one name: in the place of the old one, or at the end. -/
def insertField (field : Field) : List Field → List Field
  | [] => [field]
  | f :: more => if f.name == field.name then field :: more else f :: insertField field more

/-- Gives a name in lower case **its value**. -/
def insert (h : Headers) (name value : Bytes) : Headers := ⟨insertField ⟨name, value⟩ h.fields⟩

/-- Removes a name in lower case; the last line **moves into the place** that is left. -/
def remove (h : Headers) (name : Bytes) : Headers :=
  match h.fields.findIdx? fun f => f.name == name with
  | none => h
  | some i =>
    match h.fields.getLast? with
    | none => h
    | some last => ⟨(h.fields.set i last).dropLast⟩

/-- The longest name that a header line may have. -/
def maxName : Nat := 65535

/-- Whether a byte string can be the name of a header line. -/
def isName (name : Bytes) : Bool :=
  !name.isEmpty && decide (name.length ≤ maxName) && name.all isToken

/-- Whether a byte string can be the value of a header line. -/
def isValue (value : Bytes) : Bool := value.all isText

/-! ### Writing -/

/-- One part of a name as it is written: an upper-case letter in front, and the name of this
protocol in its usual spelling. -/
def writtenPart (part : Bytes) : Bytes :=
  if part = Bytes.ascii "websocket" then Bytes.ascii "WebSocket"
  else match part with
    | [] => []
    | first :: more => Bytes.upperByte first :: more

/-- A name **as it is written**. -/
def writtenName (name : Bytes) : Bytes :=
  List.intercalate [0x2D] ((Bytes.splitOn 0x2D name).map writtenPart)

/-- One header line as it is written, with its line end. -/
def writtenField (f : Field) : Bytes :=
  writtenName f.name ++ colon :: space :: (f.value ++ newline)

/-- The header lines and the **empty line** behind them. -/
def written (h : Headers) : Bytes := h.fields.flatMap writtenField ++ newline

end Headers

end Http

end WebSocket
