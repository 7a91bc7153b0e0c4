import WebSocket.Frame
import WebSocket.Role
import WebSocket.Scan

/-!
# The bytes of a frame

A frame is written as a header, the masking key if there is one, and the payload. The header holds
the final bit, three reserved bits, the opcode, the mask bit, and the payload's length in seven
bits, in two further bytes, or in eight.

`Codec.decode` reads one frame from the front of a buffer. It judges the header as soon as the
header is complete and never asks for payload that it would refuse. `Codec.encode` writes one
frame. Who masks depends on the role: only clients do, and always.

## Main results

* `Header.parse_rest_length_lt`, `Codec.decode_rest_length_lt`: reading makes progress.
-/

namespace WebSocket

/-- The **header** of a frame. -/
structure Header where
  fin : Bool
  opcode : Opcode
  masked : Bool
  /-- The length of the payload. -/
  length : Nat
  deriving DecidableEq, Repr, Inhabited

/-- What one end of a connection reads and writes frames with. -/
structure Codec where
  role : Role
  /-- The most payload accepted in one frame. -/
  maxLength : Nat
  deriving DecidableEq, Repr, Inhabited

namespace Header

/-- The mask rule that a received frame breaks, if it breaks one. -/
def maskViolation? : Role → Bool → Option MaskRule
  | .client, true => some .clientReceivesUnmasked
  | .server, false => some .serverReceivesMasked
  | .client, false | .server, true => none

/-- Reads the payload length. A number up to 125 stands for itself, 126 announces two bytes that
hold the length, and 127 eight bytes, the first of which is below 128. -/
def parseLength (short : UInt8) (b : Bytes) : Scan Fault Nat :=
  if short ≤ 125 then .found short.toNat b
  else if short = 126 then
    match Bytes.split? 2 b with
    | none => .incomplete
    | some (digits, rest) => .found (Bytes.toNat digits) rest
  else
    match Bytes.split? 8 b with
    | none => .incomplete
    | some (digits, rest) =>
      let length := Bytes.toNat digits
      if 0x8000000000000000 ≤ length then .fault (.violation (.invalidLength length))
      else .found length rest

/-- Reads a header and judges it: reserved bits, opcode and mask before the length is known, then
the rules for control frames and the limit. -/
def parse (codec : Codec) : Bytes → Scan Fault Header
  | first :: second :: rest =>
    let rsv := (first &&& 0x70) >>> 4
    if rsv ≠ 0 then .fault (.violation (.reservedBits rsv))
    else match Opcode.ofCode? (first &&& 0x0F) with
    | none => .fault (.violation (.unknownOpcode (first &&& 0x0F)))
    | some opcode =>
      let fin := first &&& 0x80 ≠ 0
      let masked := second &&& 0x80 ≠ 0
      match maskViolation? codec.role masked with
      | some rule => .fault (.violation (.maskPolicy rule))
      | none =>
        match parseLength (second &&& 0x7F) rest with
        | .incomplete => .incomplete
        | .fault f => .fault f
        | .found length rest =>
          match Frame.controlViolation? opcode fin length with
          | some v => .fault (.violation v)
          | none =>
            if codec.maxLength < length then .fault (.frameTooLarge length)
            else .found ⟨fin, opcode, masked, length⟩ rest
  | _ => .incomplete

theorem parseLength_rest_length_le (short : UInt8) (b : Bytes) (n : Nat) (rest : Bytes)
    (h : parseLength short b = .found n rest) : rest.length ≤ b.length := by
  unfold parseLength at h
  split at h
  · cases h; exact Nat.le_refl _
  · split at h
    · split at h
      · cases h
      · cases h
        obtain ⟨_, rfl⟩ := (Bytes.split?_eq_some _ _ _ _).1 ‹Bytes.split? 2 b = _›
        simp
    · split at h
      · cases h
      · dsimp only at h
        split at h
        · cases h
        · cases h
          obtain ⟨_, rfl⟩ := (Bytes.split?_eq_some _ _ _ _).1 ‹Bytes.split? 8 b = _›
          simp

/-- A header takes at least its two first bytes. -/
theorem parse_rest_length_lt (codec : Codec) (b : Bytes) (header : Header) (rest : Bytes)
    (h : parse codec b = .found header rest) : rest.length < b.length := by
  match b with
  | [] | [_] => simp [parse] at h
  | first :: second :: tail =>
    simp only [parse] at h
    split at h
    · cases h
    · split at h
      · cases h
      · split at h
        · cases h
        · split at h
          · cases h
          · cases h
          · split at h
            · cases h
            · split at h
              · cases h
              · cases h
                have hle := parseLength_rest_length_le _ _ _ _ ‹parseLength _ tail = _›
                simp only [List.length_cons]
                omega

end Header

namespace Codec

/-! ### Reading -/

/-- Reads the masking key, if the header announces one. -/
def parseMask (masked : Bool) (b : Bytes) : Option (Option Mask × Bytes) :=
  if masked then
    match b with
    | k₀ :: k₁ :: k₂ :: k₃ :: rest => some (some ⟨k₀, k₁, k₂, k₃⟩, rest)
    | _ => none
  else some (none, b)

/-- A payload as it was before it was masked. -/
def unmask (mask : Option Mask) (payload : Bytes) : Bytes :=
  match mask with
  | some key => key.apply payload
  | none => payload

/-- Reads **one frame** from the front of a buffer. -/
def decode (codec : Codec) (b : Bytes) : Scan Fault Frame :=
  match Header.parse codec b with
  | .incomplete => .incomplete
  | .fault f => .fault f
  | .found header rest =>
    match parseMask header.masked rest with
    | none => .incomplete
    | some (mask, rest) =>
      match Bytes.split? header.length rest with
      | none => .incomplete
      | some (payload, rest) =>
        .found ⟨header.fin, 0, header.opcode, mask, unmask mask payload⟩ rest

theorem parseMask_rest_length_le (masked : Bool) (b : Bytes) (mask : Option Mask) (rest : Bytes)
    (h : parseMask masked b = some (mask, rest)) : rest.length ≤ b.length := by
  unfold parseMask at h
  split at h
  · split at h
    · cases h; simp only [List.length_cons]; omega
    · cases h
  · cases h; exact Nat.le_refl _

/-- A frame that is read leaves fewer bytes behind. -/
theorem decode_rest_length_lt (codec : Codec) (b : Bytes) (f : Frame) (rest : Bytes)
    (h : codec.decode b = .found f rest) : rest.length < b.length := by
  unfold decode at h
  split at h
  · cases h
  · cases h
  · split at h
    · cases h
    · split at h
      · cases h
      · cases h
        have h₁ := Header.parse_rest_length_lt _ _ _ _ ‹Header.parse codec b = _›
        have h₂ := parseMask_rest_length_le _ _ _ _ ‹parseMask _ _ = _›
        obtain ⟨_, hsplit⟩ := (Bytes.split?_eq_some _ _ _ _).1 ‹Bytes.split? _ _ = _›
        rw [hsplit, List.length_append] at h₂
        omega

/-- What a buffer holds: its whole frames in order, then the fault that stops the reading, if
there is one, and the bytes that were not read. -/
structure Frames where
  frames : List Frame
  fault : Option Fault
  rest : Bytes
  deriving Repr

/-- Reads on until no more can be read; `done` holds the frames read so far, newest first. -/
def decodeOnto (codec : Codec) (done : List Frame) (b : Bytes) : Frames :=
  match h : codec.decode b with
  | .incomplete => ⟨done.reverse, none, b⟩
  | .fault f => ⟨done.reverse, some f, b⟩
  | .found frame rest =>
    have : rest.length < b.length := decode_rest_length_lt codec b frame rest h
    codec.decodeOnto (frame :: done) rest
  termination_by b.length

/-- Reads frames from the front of a buffer **until no more can be read**. -/
def decodeAll (codec : Codec) (b : Bytes) : Frames := codec.decodeOnto [] b

/-! ### Writing -/

/-- The rule that a frame breaks when it is sent, if it breaks one: reserved bits first, then the
rules for control frames, then the mask of a server. -/
def sendViolation? (role : Role) (f : Frame) : Option Violation :=
  if f.rsv ≠ 0 then some (.reservedBits f.rsv)
  else match Frame.controlViolation? f.opcode f.fin f.payload.length with
  | some v => some v
  | none =>
    if role = .server ∧ f.mask.isSome then some (.maskPolicy .serverSendsUnmasked) else none

/-- Whether a frame is masked with a key that is **drawn when it is sent**. -/
def drawsKey (role : Role) (f : Frame) : Bool := role == .client && f.mask.isNone

/-- The key on the wire: the frame's own, or for a client without one the key drawn. -/
def wireMask (role : Role) (drawn : Mask) (f : Frame) : Option Mask :=
  match role with
  | .client => some (f.mask.getD drawn)
  | .server => none

/-- The first byte of a header: final bit and opcode. -/
def firstByte (fin : Bool) (opcode : Opcode) : UInt8 :=
  (if fin then 0x80 else 0) ||| opcode.code

/-- The rest of a header: the mask bit and the **shortest length field** that holds the length,
or nothing when no field can. -/
def lengthField? (masked : Bool) (length : Nat) : Option Bytes :=
  let bit : UInt8 := if masked then 0x80 else 0
  if length ≤ 125 then some [bit ||| UInt8.ofNat length]
  else if length ≤ 0xFFFF then some ((bit ||| 126) :: Bytes.bigEndian 2 length)
  else if length < 0x8000000000000000 then some ((bit ||| 127) :: Bytes.bigEndian 8 length)
  else none

/-- The **bytes of a frame**, or the reason why it cannot be sent. -/
def encode (codec : Codec) (drawn : Mask) (f : Frame) : Except Fault Bytes :=
  match sendViolation? codec.role f with
  | some v => .error (.violation v)
  | none =>
    let mask := wireMask codec.role drawn f
    match lengthField? mask.isSome f.payload.length with
    | none => .error (.frameTooLarge f.payload.length)
    | some field =>
      .ok (firstByte f.fin f.opcode ::
        (field ++ ((mask.map Mask.bytes).getD [] ++ unmask mask f.payload)))

end Codec

end WebSocket
