import WebSocket.Bytes

/-!
# SHA-1

The digest of 20 bytes by which a server proves that it has read a client's key. The message is
padded to whole blocks of 64 bytes, and each block stirs a state of five words.
-/

namespace WebSocket

namespace Sha1

/-- The **state** that the blocks of a message stir. -/
structure State where
  a : UInt32
  b : UInt32
  c : UInt32
  d : UInt32
  e : UInt32
  deriving DecidableEq, Repr, Inhabited

/-- The state before the first block. -/
def State.initial : State :=
  ⟨0x67452301, 0xEFCDAB89, 0x98BADCFE, 0x10325476, 0xC3D2E1F0⟩

/-- Word by word sum. -/
def State.add (s t : State) : State :=
  ⟨s.a + t.a, s.b + t.b, s.c + t.c, s.d + t.d, s.e + t.e⟩

/-- The 20 bytes of a state. -/
def State.bytes (s : State) : Bytes :=
  [s.a, s.b, s.c, s.d, s.e].flatMap fun word => Bytes.bigEndian 4 word.toNat

/-- A word turned left by `n` bits. -/
def rotateLeft (word : UInt32) (n : UInt32) : UInt32 :=
  (word <<< n) ||| (word >>> (32 - n))

/-- A message with a single one bit behind it, zeros, and its length in bits, so that the whole is
a number of blocks. -/
def pad (message : Bytes) : Bytes :=
  let zeros := (119 - message.length % 64) % 64
  message ++ 0x80 :: (List.replicate zeros 0 ++ Bytes.bigEndian 8 (8 * message.length))

/-- The words of a block, newest first. -/
def blockWords (block : Bytes) : List UInt32 :=
  ((Bytes.pieces 4 block).map fun word => UInt32.ofNat (Bytes.toNat word)).reverse

/-- Puts `n` more words in front of the newest ones: each is made of four of the last sixteen. -/
def extend : Nat → List UInt32 → List UInt32
  | 0, words => words
  | n + 1, words =>
    let word := words.getD 2 0 ^^^ words.getD 7 0 ^^^ words.getD 13 0 ^^^ words.getD 15 0
    extend n (rotateLeft word 1 :: words)

/-- The mixing function and the constant of round `t`. -/
def mix (t : Nat) (b c d : UInt32) : UInt32 × UInt32 :=
  if t < 20 then ((b &&& c) ||| ((b ^^^ 0xFFFFFFFF) &&& d), 0x5A827999)
  else if t < 40 then (b ^^^ c ^^^ d, 0x6ED9EBA1)
  else if t < 60 then ((b &&& c) ||| (b &&& d) ||| (c &&& d), 0x8F1BBCDC)
  else (b ^^^ c ^^^ d, 0xCA62C1D6)

/-- Stirs one word into the state, in round `t`. -/
def round (s : State) (t : Nat) (word : UInt32) : State :=
  let (f, k) := mix t s.b s.c s.d
  ⟨rotateLeft s.a 5 + f + s.e + k + word, s.a, rotateLeft s.b 30, s.c, s.d⟩

/-- Stirs one block into the state. -/
def stir (s : State) (block : Bytes) : State :=
  let words := (extend 64 (blockWords block)).reverse
  s.add (words.zipIdx.foldl (fun state (word, t) => round state t word) s)

/-- The **digest** of a message. -/
def digest (message : Bytes) : Bytes :=
  ((Bytes.pieces 64 (pad message)).foldl stir State.initial).bytes

end Sha1

end WebSocket
