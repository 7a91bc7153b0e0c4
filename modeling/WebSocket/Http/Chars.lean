import WebSocket.Bytes

/-!
# Characters of an HTTP head

A head is made of lines, and each part of a line admits a class of bytes of its own.
-/

namespace WebSocket

namespace Http

def carriageReturn : UInt8 := 0x0D
def lineFeed : UInt8 := 0x0A
def space : UInt8 := 0x20
def colon : UInt8 := 0x3A
def comma : UInt8 := 0x2C

/-- The bytes that end a line. -/
def newline : Bytes := [carriageReturn, lineFeed]

def isDigit (b : UInt8) : Bool := 0x30 ≤ b && b ≤ 0x39

def isLetter (b : UInt8) : Bool := (0x41 ≤ b && b ≤ 0x5A) || (0x61 ≤ b && b ≤ 0x7A)

/-- The marks that a method or a header name may hold besides letters and digits. -/
def tokenMarks : Bytes := Bytes.ascii "!#$%&'*+-.^_`|~"

/-- The bytes of a **token**: a method or a header name. -/
def isToken (b : UInt8) : Bool := isLetter b || isDigit b || tokenMarks.contains b

/-- The bytes of a **request target**: no blank, no control character. -/
def isTarget (b : UInt8) : Bool := 0x21 ≤ b && b ≠ 0x7F

/-- The bytes of a **header value** or a reason phrase: tabs, and no other control character. -/
def isText (b : UInt8) : Bool := b == 0x09 || (0x20 ≤ b && b ≠ 0x7F)

/-- The bytes of a value that can be **read as ASCII text**. -/
def isVisible (b : UInt8) : Bool := b == 0x09 || (0x20 ≤ b && b ≤ 0x7E)

end Http

end WebSocket
