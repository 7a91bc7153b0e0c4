import WebSocket.Bytes

/-!
# Base64

Three bytes are written as four characters of an alphabet of 64, and a last group of one or two
bytes is filled up with `=`. Reading is strict: it asks for the filling and for zeros in the bits
that a short last group leaves over, so that each byte string has exactly one written form.
-/

namespace WebSocket

namespace Base64

/-- The character that fills up the last group. -/
def filling : UInt8 := 0x3D

/-- The character for a number below 64. -/
def digit (n : Nat) : UInt8 :=
  if n < 26 then UInt8.ofNat (0x41 + n)
  else if n < 52 then UInt8.ofNat (0x61 + (n - 26))
  else if n < 62 then UInt8.ofNat (0x30 + (n - 52))
  else if n = 62 then 0x2B
  else 0x2F

/-- The number for a character of the alphabet. -/
def value? (char : UInt8) : Option Nat :=
  if 0x41 ≤ char ∧ char ≤ 0x5A then some (char.toNat - 0x41)
  else if 0x61 ≤ char ∧ char ≤ 0x7A then some (char.toNat - 0x61 + 26)
  else if 0x30 ≤ char ∧ char ≤ 0x39 then some (char.toNat - 0x30 + 52)
  else if char = 0x2B then some 62
  else if char = 0x2F then some 63
  else none

/-- The **written form** of a byte string. -/
def encode : Bytes → Bytes
  | [] => []
  | [a] => [digit (a.toNat / 4), digit (a.toNat % 4 * 16), filling, filling]
  | [a, b] =>
    [digit (a.toNat / 4), digit (a.toNat % 4 * 16 + b.toNat / 16), digit (b.toNat % 16 * 4),
      filling]
  | a :: b :: c :: rest =>
    digit (a.toNat / 4) :: digit (a.toNat % 4 * 16 + b.toNat / 16) ::
      digit (b.toNat % 16 * 4 + c.toNat / 64) :: digit (c.toNat % 64) :: encode rest

/-- The bytes of the last group, which may be filled up. -/
def decodeLast? (w x y z : UInt8) : Option Bytes := do
  let a ← value? w
  let b ← value? x
  if y = filling then
    if z = filling ∧ b % 16 = 0 then some [UInt8.ofNat (4 * a + b / 16)] else none
  else
    let c ← value? y
    if z = filling then
      if c % 4 = 0 then some [UInt8.ofNat (4 * a + b / 16), UInt8.ofNat (16 * b + c / 4)] else none
    else
      let d ← value? z
      some [UInt8.ofNat (4 * a + b / 16), UInt8.ofNat (16 * b + c / 4), UInt8.ofNat (64 * c + d)]

/-- The byte string with a given **written form**, if it is one. -/
def decode? : Bytes → Option Bytes
  | [] => some []
  | [w, x, y, z] => decodeLast? w x y z
  | w :: x :: y :: z :: rest => do
    let a ← value? w
    let b ← value? x
    let c ← value? y
    let d ← value? z
    let more ← decode? rest
    some (UInt8.ofNat (4 * a + b / 16) :: UInt8.ofNat (16 * b + c / 4) ::
      UInt8.ofNat (64 * c + d) :: more)
  | _ => none

end Base64

end WebSocket
