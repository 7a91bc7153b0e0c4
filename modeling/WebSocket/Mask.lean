import WebSocket.Bytes

/-!
# Masking

A client hides the payload of every frame behind a key of four bytes: byte `i` of the payload is
combined by exclusive or with byte `i % 4` of the key. `Mask.apply` works through a payload
**four bytes at a time**; `Mask.applyBytewise` states the rule byte by byte.
-/

namespace WebSocket

/-- A **masking key** of four bytes. -/
structure Mask where
  first : UInt8
  second : UInt8
  third : UInt8
  fourth : UInt8
  deriving DecidableEq, Repr, Inhabited

namespace Mask

/-- The key that leaves every payload as it is. -/
def zero : Mask := ⟨0, 0, 0, 0⟩

/-- The four bytes in the order in which they are sent. -/
def bytes (m : Mask) : Bytes := [m.first, m.second, m.third, m.fourth]

/-- The key made of four bytes. -/
def ofBytes? : Bytes → Option Mask
  | [a, b, c, d] => some ⟨a, b, c, d⟩
  | _ => none

@[simp] theorem ofBytes?_bytes (m : Mask) : ofBytes? m.bytes = some m := rfl

/-- The byte of the key that covers position `i` of a payload. -/
def byteAt (m : Mask) (i : Nat) : UInt8 :=
  match i % 4 with
  | 0 => m.first
  | 1 => m.second
  | 2 => m.third
  | _ => m.fourth

/-- The masked payload, **byte by byte**. -/
def applyBytewise (m : Mask) (payload : Bytes) : Bytes :=
  payload.mapIdx fun i byte => byte ^^^ m.byteAt i

/-- Masks whole groups of four, then what is left; `done` holds the bytes masked so far, newest
first. -/
def applyGroups (m : Mask) (done : Bytes) : Bytes → Bytes
  | a :: b :: c :: d :: rest =>
    m.applyGroups
      ((d ^^^ m.fourth) :: (c ^^^ m.third) :: (b ^^^ m.second) :: (a ^^^ m.first) :: done) rest
  | rest => done.reverseAux (List.zipWith (· ^^^ ·) rest m.bytes)

/-- The masked payload, **four bytes at a time**. Masking twice with one key gives the payload
back. -/
def apply (m : Mask) (payload : Bytes) : Bytes := m.applyGroups [] payload

end Mask

end WebSocket
