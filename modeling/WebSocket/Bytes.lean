/-!
# Byte strings

Everything that travels over a transport is a list of bytes. This module holds what the rest of
the library asks of such lists: cutting off a front part of a given length, whole numbers in
network byte order, and the bytes of a text of ASCII characters.

## Main results

* `Bytes.split?_eq_some`: a cut succeeds exactly when enough bytes are there, and loses none.
* `Bytes.length_bigEndian`: a number written in `width` bytes has that many.
-/

namespace WebSocket

/-- A **byte string**, first byte first. -/
abbrev Bytes := List UInt8

namespace Bytes

/-- What holds of the **256 bytes** holds of every byte. -/
theorem forall_byte {p : UInt8 → Prop} (h : ∀ k : Fin 256, p (UInt8.ofNat k)) (byte : UInt8) :
    p byte := by
  have hbyte := h ⟨byte.toNat, byte.toNat_lt⟩
  rwa [UInt8.ofNat_toNat] at hbyte

/-! ### Cutting -/

/-- The first `n` bytes and what follows them, or nothing when there are fewer than `n`. -/
def split? (n : Nat) (b : Bytes) : Option (Bytes × Bytes) :=
  let front := b.take n
  if front.length = n then some (front, b.drop n) else none

theorem split?_eq_some (n : Nat) (b front rest : Bytes) :
    split? n b = some (front, rest) ↔ front.length = n ∧ b = front ++ rest := by
  unfold split?
  constructor
  · intro h
    by_cases hn : (b.take n).length = n
    · rw [if_pos hn, Option.some.injEq, Prod.mk.injEq] at h
      obtain ⟨rfl, rfl⟩ := h
      exact ⟨hn, (List.take_append_drop n b).symm⟩
    · rw [if_neg hn] at h
      exact absurd h (by simp)
  · rintro ⟨rfl, rfl⟩
    simp

theorem split?_eq_none (n : Nat) (b : Bytes) : split? n b = none ↔ b.length < n := by
  unfold split?
  simp only [List.length_take]
  by_cases h : b.length < n
  · rw [if_neg (by omega)]; simp [h]
  · rw [if_pos (by omega)]; simp [h]

/-- Cuts pieces of `size` bytes off a byte string until nothing is left, at most `bound` of them;
`done` holds the pieces cut so far, newest first. -/
def piecesOnto (size : Nat) (done : List Bytes) : Nat → Bytes → List Bytes
  | _, [] => done.reverse
  | 0, _ => done.reverse
  | bound + 1, b => piecesOnto size (b.take size :: done) bound (b.drop size)

/-- A byte string cut into **pieces of `size` bytes**; the last piece may be shorter. -/
def pieces (size : Nat) (b : Bytes) : List Bytes := piecesOnto size [] b.length b

/-! ### Numbers in network byte order -/

/-- The number whose **big-endian** digits to base 256 are the given bytes. -/
def toNat (b : Bytes) : Nat :=
  b.foldl (fun n byte => 256 * n + byte.toNat) 0

/-- The last `width` big-endian digits to base 256 of a number. -/
def bigEndian : Nat → Nat → Bytes
  | 0, _ => []
  | width + 1, n => bigEndian width (n / 256) ++ [UInt8.ofNat n]

theorem length_bigEndian (width n : Nat) : (bigEndian width n).length = width := by
  induction width generalizing n with
  | zero => rfl
  | succ width ih => simp [bigEndian, ih]

/-! ### ASCII texts -/

/-- The bytes of a text **written in ASCII**, one byte a character. -/
def ascii (text : String) : Bytes :=
  text.toList.map fun c => UInt8.ofNat c.toNat

/-- A byte string read as ASCII, one character a byte. -/
def asciiText (b : Bytes) : String :=
  String.ofList (b.map fun byte => Char.ofNat byte.toNat)

/-- An upper-case ASCII letter becomes its lower-case form; every other byte stays. -/
def lowerByte (byte : UInt8) : UInt8 :=
  if 0x41 ≤ byte ∧ byte ≤ 0x5A then byte + 0x20 else byte

/-- A lower-case ASCII letter becomes its upper-case form; every other byte stays. -/
def upperByte (byte : UInt8) : UInt8 :=
  if 0x61 ≤ byte ∧ byte ≤ 0x7A then byte - 0x20 else byte

/-- ASCII letters in lower case. -/
def lower (b : Bytes) : Bytes := b.map lowerByte

/-- Two byte strings that differ at most in the **case of ASCII letters**. -/
def eqIgnoringCase (a b : Bytes) : Bool := lower a == lower b

/-! ### Blanks and lists -/

/-- Spaces and tabs. -/
def isBlank (byte : UInt8) : Bool := byte == 0x20 || byte == 0x09

/-- A byte string without the blanks at its two ends. -/
def trim (b : Bytes) : Bytes :=
  ((b.dropWhile isBlank).reverse.dropWhile isBlank).reverse

/-- The parts between the occurrences of a separator; one more than there are separators. -/
def splitOn (separator : UInt8) : Bytes → List Bytes
  | [] => [[]]
  | byte :: rest =>
    match splitOn separator rest with
    | [] => [[]]
    | part :: parts => if byte == separator then [] :: part :: parts else (byte :: part) :: parts

end Bytes

end WebSocket
