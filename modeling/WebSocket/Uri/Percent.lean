import WebSocket.Http.Chars
import WebSocket.Utf8

/-!
# Percent encoding

In a query, letters, digits and four marks stand for themselves; every other byte is written as a
percent sign and two upper-case hexadecimal digits. Reading takes such a group for the byte that it
stands for and every other byte for itself.
-/

namespace WebSocket

namespace Percent

/-- The bytes that **stand for themselves**. -/
def isPlain (b : UInt8) : Bool :=
  Http.isLetter b || Http.isDigit b || b == 0x2D || b == 0x5F || b == 0x2E || b == 0x7E

/-- The percent sign. -/
def sign : UInt8 := 0x25

/-- An upper-case hexadecimal digit. -/
def digit (n : Nat) : UInt8 := if n < 10 then UInt8.ofNat (0x30 + n) else UInt8.ofNat (0x37 + n)

/-- The number of a hexadecimal digit. -/
def value? (b : UInt8) : Option Nat :=
  if 0x30 ≤ b ∧ b ≤ 0x39 then some (b.toNat - 0x30)
  else if 0x41 ≤ b ∧ b ≤ 0x46 then some (b.toNat - 0x37)
  else if 0x61 ≤ b ∧ b ≤ 0x66 then some (b.toNat - 0x57)
  else none

/-- One byte as it is written. -/
def encodeByte (b : UInt8) : Bytes :=
  if isPlain b then [b] else [sign, digit (b.toNat / 16), digit (b.toNat % 16)]

/-- A byte string **as it is written in a query**. -/
def encode (b : Bytes) : Bytes := b.flatMap encodeByte

/-- The byte string that was written; a percent sign must be followed by two digits. -/
def decode? : Bytes → Option Bytes
  | [] => some []
  | b :: rest =>
    if b = sign then
      match rest with
      | high :: low :: rest => do
        let h ← value? high
        let l ← value? low
        let more ← decode? rest
        some (UInt8.ofNat (16 * h + l) :: more)
      | _ => none
    else (decode? rest).map (b :: ·)

end Percent

end WebSocket
