import WebSocket.Bytes

/-!
# UTF-8

Text messages, close reasons and request targets must be UTF-8. `Utf8.isValid` decides this for a
byte string, `Utf8.decode?` reads the characters, and `Utf8.encode` writes them. A sequence is
accepted only in its shortest form and only for Unicode scalar values, so surrogates and values
above U+10FFFF are refused.

`Utf8.floorBoundary` finds the last place at or before a position where a text can be cut without
splitting a character.

## Main results

* `Utf8.isValid_eq_isSome_decode?`: a byte string is valid exactly when it can be decoded.
* `Utf8.floorBoundary_le`: a cut never lies behind the position asked for.
* `Utf8.shorten_eq_truncate`: to cut until few enough bytes are left is **to cut once**.
-/

namespace WebSocket

namespace Utf8

/-! ### Classes of bytes -/

/-- A byte that continues a character begun before it. -/
def isContinuation (byte : UInt8) : Bool := 0x80 ≤ byte && byte ≤ 0xBF

/-- The two bytes of a character between U+0080 and U+07FF. -/
def isPair (a b : UInt8) : Bool :=
  0xC2 ≤ a && a ≤ 0xDF && isContinuation b

/-- The first two bytes of a character of three: no longer form than needed, no surrogate. -/
def startsTriple (a b : UInt8) : Bool :=
  (a == 0xE0 && 0xA0 ≤ b && b ≤ 0xBF) ||
  (0xE1 ≤ a && a ≤ 0xEC && isContinuation b) ||
  (a == 0xED && 0x80 ≤ b && b ≤ 0x9F) ||
  (0xEE ≤ a && a ≤ 0xEF && isContinuation b)

/-- The first two bytes of a character of four: no longer form than needed, none above U+10FFFF. -/
def startsQuadruple (a b : UInt8) : Bool :=
  (a == 0xF0 && 0x90 ≤ b && b ≤ 0xBF) ||
  (0xF1 ≤ a && a ≤ 0xF3 && isContinuation b) ||
  (a == 0xF4 && 0x80 ≤ b && b ≤ 0x8F)

/-- The six bits that a continuation byte carries. -/
def low6 (byte : UInt8) : Nat := byte.toNat % 64

/-! ### Reading -/

/-- Whether a byte string is **valid UTF-8**. -/
def isValid : Bytes → Bool
  | [] => true
  | a :: rest =>
    if a < 0x80 then isValid rest
    else match rest with
      | [] => false
      | b :: rest =>
        if isPair a b then isValid rest
        else match rest with
          | [] => false
          | c :: rest =>
            if startsTriple a b && isContinuation c then isValid rest
            else match rest with
              | [] => false
              | d :: rest =>
                if startsQuadruple a b && isContinuation c && isContinuation d then isValid rest
                else false

/-- The characters that a byte string spells, or nothing when it is not UTF-8. -/
def decode? : Bytes → Option (List Char)
  | [] => some []
  | a :: rest =>
    if a < 0x80 then (decode? rest).map (Char.ofNat a.toNat :: ·)
    else match rest with
      | [] => none
      | b :: rest =>
        if isPair a b then
          (decode? rest).map (Char.ofNat (64 * (a.toNat % 32) + low6 b) :: ·)
        else match rest with
          | [] => none
          | c :: rest =>
            if startsTriple a b && isContinuation c then
              (decode? rest).map (Char.ofNat (64 * (64 * (a.toNat % 16) + low6 b) + low6 c) :: ·)
            else match rest with
              | [] => none
              | d :: rest =>
                if startsQuadruple a b && isContinuation c && isContinuation d then
                  (decode? rest).map (Char.ofNat
                    (64 * (64 * (64 * (a.toNat % 8) + low6 b) + low6 c) + low6 d) :: ·)
                else none

/-- The text that a byte string spells, or nothing when it is not UTF-8. -/
def text? (b : Bytes) : Option String := (decode? b).map String.ofList

theorem isValid_eq_isSome_decode? (b : Bytes) : isValid b = (decode? b).isSome := by
  fun_induction isValid b <;> rw [decode?.eq_def] <;>
    simp only [*, if_true, if_false, Bool.false_eq_true, Option.isSome_map, Option.isSome_some,
      Option.isSome_none]

/-! ### Writing -/

/-- The bytes that spell a list of characters. -/
def encodeChars (cs : List Char) : Bytes := cs.flatMap String.utf8EncodeChar

/-- The bytes that spell a text. -/
def encode (text : String) : Bytes := encodeChars text.toList

/-! ### Cutting -/

/-- The last position at or before `n` where no continuation byte stands, so that a cut there
splits no character. -/
def floorBoundary (b : Bytes) : Nat → Nat
  | 0 => 0
  | n + 1 =>
    match b[n + 1]? with
    | some byte => if isContinuation byte then floorBoundary b n else n + 1
    | none => n + 1

theorem floorBoundary_le (b : Bytes) (n : Nat) : floorBoundary b n ≤ n := by
  induction n with
  | zero => exact Nat.le_refl 0
  | succ n ih =>
    unfold floorBoundary
    split
    · split <;> omega
    · exact Nat.le_refl (n + 1)

/-- A byte string cut to at most `limit` bytes **without splitting a character**. -/
def truncate (limit : Nat) (b : Bytes) : Bytes :=
  if b.length ≤ limit then b else b.take (floorBoundary b limit)

theorem length_truncate_le (limit : Nat) (b : Bytes) : (truncate limit b).length ≤ limit := by
  unfold truncate
  split
  · assumption
  · rw [List.length_take]
    exact Nat.le_trans (Nat.min_le_left _ _) (floorBoundary_le b limit)

/-- A byte string that is cut **again and again**, each time without splitting a character, until at
most `limit` bytes are left. -/
def shorten (limit : Nat) (b : Bytes) : Bytes :=
  if limit < b.length then shorten limit (b.take (floorBoundary b limit)) else b
  termination_by b.length
  decreasing_by
    have hcut := floorBoundary_le b limit
    rw [List.length_take]
    omega

/-- One cut **is enough**. -/
theorem shorten_eq_truncate (limit : Nat) (b : Bytes) : shorten limit b = truncate limit b := by
  have hstop : ∀ {short : Bytes}, short.length ≤ limit → shorten limit short = short := by
    intro short hshort
    rw [shorten, if_neg (Nat.not_lt.mpr hshort)]
  have hshort := length_truncate_le limit b
  unfold truncate at hshort ⊢
  split
  · exact hstop ‹_›
  · rename_i hlong
    rw [if_neg hlong] at hshort
    rw [shorten, if_pos (Nat.lt_of_not_le hlong), hstop hshort]

end Utf8

end WebSocket
