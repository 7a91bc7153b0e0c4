import WebSocket.Frame.Codec

/-!
# Putting frames into a buffer

`Codec.encode` gives the bytes of a frame. `Codec.put` writes them where they wait to be sent,
behind the frames that wait there already. It writes in steps: the header, the key, and the payload,
which is masked in place. What has been written is not taken back when a later step fails.
-/

namespace WebSocket

/-- A program that writes **to an output buffer**. When it fails, what it has written stays. -/
abbrev Output := ExceptT Fault (StateM Bytes)

namespace Output

/-- What a program comes to, and **the buffer afterwards**. -/
def result {α : Type} (program : Output α) (out : Bytes) : Except Fault α × Bytes :=
  program.run.run out

/-- Writes bytes **at the end** of the buffer. -/
def append (b : Bytes) : Output Unit := modify (· ++ b)

/-- How many bytes the buffer holds. -/
def size : Output Nat := do return (← get).length

/-- Masks the bytes of the buffer from a place on, **in place**. -/
def maskFrom (start : Nat) (key : Mask) : Output Unit :=
  modify fun out => out.take start ++ key.apply (out.drop start)

end Output

namespace Codec

/-- The key to mask a frame with: its own, or for a client without one the key drawn. A server has
none, and may not be given one. -/
def chooseKey (role : Role) (drawn : Mask) (f : Frame) : Output (Option Mask) :=
  match role with
  | .client => return some (f.mask.getD drawn)
  | .server =>
    if f.mask.isSome then throw (.violation (.maskPolicy .serverSendsUnmasked)) else return none

/-- Writes a header with the **shortest length field** that holds the length. -/
def putHeader (first : UInt8) (masked : Bool) (length : Nat) : Output Unit := do
  let bit : UInt8 := if masked then 0x80 else 0
  if length ≤ 125 then
    Output.append [first, bit ||| UInt8.ofNat length]
  else if length ≤ 0xFFFF then
    Output.append [first, bit ||| 126]
    Output.append (Bytes.bigEndian 2 length)
  else if length < 0x8000000000000000 then
    Output.append [first, bit ||| 127]
    Output.append (Bytes.bigEndian 8 length)
  else
    throw (.frameTooLarge length)

/-- Writes a payload and masks it where it stands. -/
def putPayload (key : Option Mask) (payload : Bytes) : Output Unit := do
  let start ← Output.size
  Output.append payload
  match key with
  | some key => Output.maskFrom start key
  | none => return

/-- Refuses a frame with reserved bits, and a control frame that is too long or not final. -/
def checkFrame (f : Frame) : Output Unit := do
  if f.rsv ≠ 0 then throw (.violation (.reservedBits f.rsv))
  if let some v := Frame.controlViolation? f.opcode f.fin f.payload.length then throw (.violation v)

/-- **Puts a frame into a buffer**, behind what is there. -/
def put (codec : Codec) (drawn : Mask) (f : Frame) : Output Unit := do
  checkFrame f
  let key ← chooseKey codec.role drawn f
  putHeader (firstByte f.fin f.opcode) key.isSome f.payload.length
  Output.append ((key.map Mask.bytes).getD [])
  putPayload key f.payload

end Codec

end WebSocket
