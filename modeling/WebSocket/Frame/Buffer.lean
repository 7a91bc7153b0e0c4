import WebSocket.Frame.Codec

/-!
# Taking frames out of a buffer

`Codec.decode` reads a frame part by part. `Codec.take` does it the other way round: once the header
has passed, it knows the size of the whole frame, waits until the buffer holds as many bytes, and
only then cuts header, key and payload off. Sizes are counted in words of 64 bits.
-/

namespace WebSocket

namespace Header

/-- How many bytes **hold the length** behind the two first bytes of a header, by the seven bits in
the second one. -/
def lengthWidth (short : UInt8) : Nat :=
  if short ≤ 125 then 0 else if short = 126 then 2 else 8

/-- The **size of the header** in front of a buffer, by its length field; two bytes as long as that
has not come. -/
def size : Bytes → Nat
  | _ :: second :: _ => 2 + lengthWidth (second &&& 0x7F)
  | _ => 2

/-- The size of a masking key on the wire. -/
def keySize (masked : Bool) : Nat := if masked then 4 else 0

/-- The **size of a frame**, counted in a word: header, key and payload. -/
def frameSize (header : Header) (headerSize : Nat) : UInt64 :=
  UInt64.ofNat headerSize + UInt64.ofNat (keySize header.masked) + UInt64.ofNat header.length

end Header

namespace Codec

/-- The frame that a header **announces**, with the key and the payload that stand behind it. -/
def frameOf (header : Header) (behind : Bytes) : Frame :=
  let mask := if header.masked then Mask.ofBytes? (behind.take 4) else none
  let payload := (behind.drop (Header.keySize header.masked)).take header.length
  ⟨header.fin, 0, header.opcode, mask, unmask mask payload⟩

/-- What **taking a frame** out of a buffer gives, if anything yet, and the buffer afterwards. -/
structure Taken where
  frame : Except Fault (Option Frame)
  buffer : Bytes

/-- **Takes one frame** out of a buffer, once all of its bytes are there. -/
def take (codec : Codec) (b : Bytes) : Taken :=
  match Header.parse codec b with
  | .incomplete => ⟨.ok none, b⟩
  | .fault e => ⟨.error e, b⟩
  | .found header _ =>
    if b.length < (header.frameSize (Header.size b)).toNat then ⟨.ok none, b⟩
    else
      let behind := b.drop (Header.size b)
      ⟨.ok (some (frameOf header behind)),
        (behind.drop (Header.keySize header.masked)).drop header.length⟩

end Codec

end WebSocket
