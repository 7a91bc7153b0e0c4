import Mathlib.Algebra.Group.Nat.Defs
import WebSocket.Proofs.Frame.Masking
import WebSocket.Proofs.Frame.Stream

/-!
# What one end writes, the other reads

A frame that one end may send is read by the other end as the same frame: the final bit, the opcode
and the payload are kept, the reserved bits are zero, and the mask is the key that was on the wire.
The header is taken apart field by field, in the order in which it was written: the first byte, the
three widths of the length field, the key, the payload.

## Main results

* `Header.parse_written`: a written header is read back.
* `Codec.decode_encode`: a written frame is read back, whatever follows it.
* `Codec.deliver_encodeAll`: the frames of a stream are read back, **however the stream is cut**.
-/

namespace WebSocket

namespace Bytes

/-! ### Numbers in network byte order -/

theorem toNat_concat (b : Bytes) (byte : UInt8) :
    toNat (b ++ [byte]) = 256 * toNat b + byte.toNat := by
  simp only [toNat, List.foldl_append, List.foldl_cons, List.foldl_nil]

/-- Digits that were written are read back **modulo the width**. -/
theorem toNat_bigEndian (width n : Nat) : toNat (bigEndian width n) = n % 256 ^ width := by
  induction width generalizing n with
  | zero => simp [bigEndian, toNat, Nat.mod_one]
  | succ width ih =>
      have hsplit : n % 256 ^ (width + 1) = n % 256 + 256 * (n / 256 % 256 ^ width) := by
        rw [Nat.pow_succ', Nat.mod_mul]
      rw [bigEndian, toNat_concat, ih, UInt8.toNat_ofNat', hsplit, Nat.add_comm]

/-- What has the right length is cut off whole. -/
theorem split?_length_append (front rest : Bytes) :
    split? front.length (front ++ rest) = some (front, rest) :=
  (split?_eq_some _ _ _ _).mpr ⟨rfl, rfl⟩

theorem split?_bigEndian (width n : Nat) (rest : Bytes) :
    split? width (bigEndian width n ++ rest) = some (bigEndian width n, rest) :=
  (split?_eq_some _ _ _ _).mpr ⟨length_bigEndian width n, rfl⟩

end Bytes

namespace Header

/-! ### Headers -/

/-- The three parts of a first byte. -/
theorem firstByte_parts (fin : Bool) (opcode : Opcode) :
    (Codec.firstByte fin opcode &&& 0x70) >>> 4 = 0 ∧
      Codec.firstByte fin opcode &&& 0x0F = opcode.code ∧
      decide (Codec.firstByte fin opcode &&& 0x80 ≠ 0) = fin := by
  cases fin <;> cases opcode <;> decide

/-- The byte behind the first one: the mask bit, and seven bits. -/
def secondByte (masked : Bool) (short : UInt8) : UInt8 := (if masked then 0x80 else 0) ||| short

/-- The two parts of a second byte. -/
theorem secondByte_parts (masked : Bool) (n : Nat) (h : n < 128) :
    decide (secondByte masked (UInt8.ofNat n) &&& 0x80 ≠ 0) = masked ∧
      secondByte masked (UInt8.ofNat n) &&& 0x7F = UInt8.ofNat n := by
  revert n
  cases masked <;> decide +kernel

/-- A **length field** is a second byte whose seven bits announce what follows, and the length is
read from there. -/
theorem lengthField_parts {masked : Bool} {length : Nat} {field : Bytes}
    (h : Codec.lengthField? masked length = some field) :
    ∃ n digits, n < 128 ∧ field = secondByte masked (UInt8.ofNat n) :: digits ∧
      ∀ rest, parseLength (UInt8.ofNat n) (digits ++ rest) = .found length rest := by
  unfold Codec.lengthField? at h
  by_cases h₁ : length ≤ 125
  · rw [if_pos h₁, Option.some.injEq] at h
    refine ⟨length, [], by omega, h.symm, fun rest => ?_⟩
    have hshort : UInt8.ofNat length ≤ 125 := by
      rw [UInt8.le_iff_toNat_le, UInt8.toNat_ofNat']
      exact Nat.le_trans (Nat.mod_le _ _) h₁
    rw [parseLength, if_pos hshort, UInt8.toNat_ofNat', Nat.mod_eq_of_lt (by omega)]
    rfl
  rw [if_neg h₁] at h
  by_cases h₂ : length ≤ 0xFFFF
  · rw [if_pos h₂, Option.some.injEq] at h
    refine ⟨126, Bytes.bigEndian 2 length, by omega, h.symm, fun rest => ?_⟩
    have hlength : length % 256 ^ 2 = length := Nat.mod_eq_of_lt (by omega)
    rw [parseLength, if_neg (by decide), if_pos (by decide), Bytes.split?_bigEndian]
    simp only [Bytes.toNat_bigEndian, hlength]
  rw [if_neg h₂] at h
  by_cases h₃ : length < 0x8000000000000000
  · rw [if_pos h₃, Option.some.injEq] at h
    refine ⟨127, Bytes.bigEndian 8 length, by omega, h.symm, fun rest => ?_⟩
    have hlength : length % 256 ^ 8 = length := Nat.mod_eq_of_lt (by omega)
    rw [parseLength, if_neg (by decide), if_neg (by decide), Bytes.split?_bigEndian]
    simp only [Bytes.toNat_bigEndian, hlength, if_neg (Nat.not_le.mpr h₃)]
  · rw [if_neg h₃] at h
    cases h

/-- A **written header** is read back, whatever follows it. -/
theorem parse_written {codec : Codec} {fin masked : Bool} {opcode : Opcode} {length : Nat}
    {field : Bytes} (hfield : Codec.lengthField? masked length = some field)
    (hmask : maskViolation? codec.role masked = none)
    (hcontrol : Frame.controlViolation? opcode fin length = none)
    (hlength : length ≤ codec.maxLength) (rest : Bytes) :
    parse codec (Codec.firstByte fin opcode :: (field ++ rest)) =
      .found ⟨fin, opcode, masked, length⟩ rest := by
  obtain ⟨n, digits, hn, rfl, hparse⟩ := lengthField_parts hfield
  obtain ⟨hrsv, hopcode, hfin⟩ := firstByte_parts fin opcode
  obtain ⟨hmasked, hshort⟩ := secondByte_parts masked n hn
  simp only [parse, List.cons_append, hrsv, ne_eq, not_true_eq_false, if_false, hopcode,
    Opcode.ofCode?_code, hmasked, hmask, hshort, hparse, hfin, hcontrol,
    if_neg (Nat.not_lt.mpr hlength)]

end Header

namespace Codec

/-! ### Frames -/

/-- The key and the payload behind it are read back. -/
theorem parseMask_bytes (mask : Option Mask) (rest : Bytes) :
    parseMask mask.isSome ((mask.map Mask.bytes).getD [] ++ rest) = some (mask, rest) := by
  cases mask <;> rfl

@[simp] theorem length_unmask (mask : Option Mask) (payload : Bytes) :
    (unmask mask payload).length = payload.length := by
  cases mask with
  | none => rfl
  | some key => exact key.length_apply payload

@[simp] theorem unmask_unmask (mask : Option Mask) (payload : Bytes) :
    unmask mask (unmask mask payload) = payload := by
  cases mask with
  | none => rfl
  | some key => exact key.apply_apply payload

/-- A frame **as the other end reads it**: with no reserved bit, and with the key that was on the
wire. -/
def received (role : Role) (drawn : Mask) (f : Frame) : Frame :=
  { f with rsv := 0, mask := wireMask role drawn f }

/-- What one end puts on the wire obeys the mask rule of the other end. -/
theorem maskViolation?_wireMask (role : Role) (drawn : Mask) (f : Frame) :
    Header.maskViolation? role.opposite (wireMask role drawn f).isSome = none := by
  cases role <;> rfl

theorem controlViolation?_of_send {role : Role} {f : Frame} (h : sendViolation? role f = none) :
    Frame.controlViolation? f.opcode f.fin f.payload.length = none := by
  unfold sendViolation? at h
  split at h
  · cases h
  · split at h
    · cases h
    · assumption

/-- A **written frame** is read back, whatever follows it. -/
theorem decode_encode {sender receiver : Codec} {drawn : Mask} {f : Frame} {written : Bytes}
    (h : sender.encode drawn f = .ok written) (hrole : receiver.role = sender.role.opposite)
    (hlength : f.payload.length ≤ receiver.maxLength) (rest : Bytes) :
    receiver.decode (written ++ rest) = .found (received sender.role drawn f) rest := by
  unfold encode at h
  cases hsend : sendViolation? sender.role f with
  | some v => rw [hsend] at h; cases h
  | none =>
      simp only [hsend] at h
      have hmask := maskViolation?_wireMask sender.role drawn f
      generalize hkey : wireMask sender.role drawn f = mask at h hmask
      cases hfield : lengthField? mask.isSome f.payload.length with
      | none => rw [hfield] at h; cases h
      | some field =>
          simp only [hfield, Except.ok.injEq] at h
          subst h
          have hheader := Header.parse_written hfield (hrole ▸ hmask)
            (controlViolation?_of_send hsend) hlength
            ((mask.map Mask.bytes).getD [] ++ (unmask mask f.payload ++ rest))
          have hpayload : Bytes.split? f.payload.length (unmask mask f.payload ++ rest) =
              some (unmask mask f.payload, rest) := by
            rw [← length_unmask mask f.payload]
            exact Bytes.split?_length_append _ _
          simp only [decode, List.cons_append, List.append_assoc, hheader, parseMask_bytes,
            hpayload, unmask_unmask, received, hkey]

/-! ### Streams -/

/-- The bytes of frames written **one after the other**, or the fault of the first one that cannot
be sent. A masking key that a frame needs is drawn from a source, from number `drawn` on. -/
def encodeAll (codec : Codec) (keys : Nat → Mask) : Nat → List Frame → Except Fault Bytes
  | _, [] => .ok []
  | drawn, f :: frames => do
    let written ← codec.encode (keys drawn) f
    let more ← codec.encodeAll keys (if drawsKey codec.role f then drawn + 1 else drawn) frames
    pure (written ++ more)

/-- The same frames **as the other end reads them**. -/
def receivedAll (role : Role) (keys : Nat → Mask) : Nat → List Frame → List Frame
  | _, [] => []
  | drawn, f :: frames =>
    received role (keys drawn) f ::
      receivedAll role keys (if drawsKey role f then drawn + 1 else drawn) frames

/-- **One frame more** is written behind the others, with the key behind those drawn for them. -/
theorem encodeAll_concat {codec : Codec} {keys : Nat → Mask} {drawn : Nat} {frames : List Frame}
    {f : Frame} {written more : Bytes} (hall : codec.encodeAll keys drawn frames = .ok written)
    (hf : codec.encode (keys (drawn + frames.countP (drawsKey codec.role))) f = .ok more) :
    codec.encodeAll keys drawn (frames ++ [f]) = .ok (written ++ more) := by
  induction frames generalizing drawn written with
  | nil =>
      obtain rfl : written = [] := (Except.ok.inj hall).symm
      rw [List.nil_append, encodeAll]
      rw [List.countP_nil, Nat.add_zero] at hf
      rw [hf]
      exact congrArg Except.ok (List.append_nil _)
  | cons g frames ih =>
      rw [encodeAll] at hall
      cases hg : codec.encode (keys drawn) g with
      | error e => rw [hg] at hall; cases hall
      | ok first =>
          rw [hg] at hall
          cases hrest : codec.encodeAll keys
              (if drawsKey codec.role g then drawn + 1 else drawn) frames with
          | error e => rw [hrest] at hall; cases hall
          | ok rest =>
              rw [hrest] at hall
              obtain rfl : written = first ++ rest := (Except.ok.inj hall).symm
              have hcount : drawn + (g :: frames).countP (drawsKey codec.role) =
                  (if drawsKey codec.role g then drawn + 1 else drawn) +
                    frames.countP (drawsKey codec.role) := by
                rw [List.countP_cons]
                split <;> omega
              rw [hcount] at hf
              rw [List.cons_append, encodeAll, hg, ih hrest hf, List.append_assoc]
              rfl

/-- Whether a frame can be sent does not depend on the key that is drawn for it. -/
theorem encode_isOk (codec : Codec) (f : Frame) {drawn : Mask} {written : Bytes}
    (h : codec.encode drawn f = .ok written) (other : Mask) :
    ∃ written', codec.encode other f = .ok written' := by
  have hsome : (wireMask codec.role other f).isSome = (wireMask codec.role drawn f).isSome := by
    cases hrole : codec.role <;> rfl
  unfold encode at h ⊢
  cases hsend : sendViolation? codec.role f with
  | some v => rw [hsend] at h; cases h
  | none =>
      simp only [hsend, hsome] at h ⊢
      cases hfield : lengthField? (wireMask codec.role drawn f).isSome f.payload.length with
      | none => rw [hfield] at h; cases h
      | some field => exact ⟨_, rfl⟩

/-- Every length below 2⁶³ **has a length field**. -/
theorem exists_lengthField? (masked : Bool) {length : Nat} (h : length < 0x8000000000000000) :
    ∃ field, lengthField? masked length = some field := by
  unfold lengthField?
  by_cases hshort : length ≤ 125
  · exact ⟨_, if_pos hshort⟩
  · by_cases hmiddle : length ≤ 0xFFFF
    · exact ⟨_, by rw [if_neg hshort, if_pos hmiddle]⟩
    · exact ⟨_, by rw [if_neg hshort, if_neg hmiddle, if_pos h]⟩

/-- A frame with neither reserved bits nor a mask of its own **can be sent** by both roles, if it
keeps the rules for control frames and its length has a length field. -/
theorem encode_plain_isOk (codec : Codec) (drawn : Mask) {f : Frame} (hrsv : f.rsv = 0)
    (hmask : f.mask = none)
    (hcontrol : Frame.controlViolation? f.opcode f.fin f.payload.length = none)
    (hlength : f.payload.length < 0x8000000000000000) :
    ∃ written, codec.encode drawn f = .ok written := by
  have hsend : sendViolation? codec.role f = none := by
    simp only [sendViolation?, hrsv, hcontrol, hmask, Option.isSome_none, Bool.false_eq_true,
      and_false, if_false, ne_eq, not_true_eq_false]
  obtain ⟨field, hfield⟩ := exists_lengthField? (wireMask codec.role drawn f).isSome hlength
  simp only [encode, hsend, hfield]
  exact ⟨_, rfl⟩

/-- A **final control frame** that is short enough can be sent by both roles. -/
theorem encode_control_isOk (codec : Codec) (drawn : Mask) {opcode : Opcode} {payload : Bytes}
    (hcontrol : opcode.isControl = true) (hlength : payload.length ≤ Frame.maxControlPayload) :
    ∃ written, codec.encode drawn (Frame.ofPayload opcode payload) = .ok written := by
  refine encode_plain_isOk codec drawn rfl rfl ?_ ?_
  · simp only [Frame.ofPayload, Frame.controlViolation?, hcontrol, if_true,
      if_neg (Nat.not_lt.mpr hlength)]
  · exact Nat.lt_of_le_of_lt hlength (by decide)

/-- The bytes of all frames are read as the frames, with nothing left. -/
theorem decodeAll_encodeAll {sender receiver : Codec} (hrole : receiver.role = sender.role.opposite)
    (keys : Nat → Mask) (drawn : Nat) (frames : List Frame)
    (haccepted : ∀ f ∈ frames, ∃ key written, sender.encode key f = .ok written)
    (hlength : ∀ f ∈ frames, f.payload.length ≤ receiver.maxLength) :
    ∃ written, sender.encodeAll keys drawn frames = .ok written ∧
      receiver.decodeAll written = ⟨receivedAll sender.role keys drawn frames, none, []⟩ := by
  induction frames generalizing drawn with
  | nil => exact ⟨[], rfl, decodeAll_of_incomplete rfl⟩
  | cons f frames ih =>
      obtain ⟨key, bytes, hf⟩ := haccepted f (List.mem_cons_self ..)
      obtain ⟨written, hwritten⟩ := encode_isOk sender f hf (keys drawn)
      obtain ⟨more, hmore, hrest⟩ := ih (if drawsKey sender.role f then drawn + 1 else drawn)
        (fun g hg => haccepted g (List.mem_cons_of_mem f hg))
        (fun g hg => hlength g (List.mem_cons_of_mem f hg))
      have hfirst := decode_encode hwritten hrole (hlength f (List.mem_cons_self ..)) more
      refine ⟨written ++ more, ?_, ?_⟩
      · rw [encodeAll, hwritten, hmore]
        rfl
      · rw [decodeAll_of_found hfirst, hrest, receivedAll]

/-- **What one end writes, the other reads**: frames that can be sent, and that are no longer than
the receiver accepts, are read in order, unchanged but for the key that was on the wire. Nothing is
left over, no fault is found, and how the bytes are cut into chunks makes no difference. -/
theorem deliver_encodeAll {sender receiver : Codec} (hrole : receiver.role = sender.role.opposite)
    (keys : Nat → Mask) (drawn : Nat) (frames : List Frame)
    (haccepted : ∀ f ∈ frames, ∃ key written, sender.encode key f = .ok written)
    (hlength : ∀ f ∈ frames, f.payload.length ≤ receiver.maxLength) :
    ∃ written, sender.encodeAll keys drawn frames = .ok written ∧
      ∀ chunks, chunks.flatten = written →
        receiver.deliver chunks = ⟨receivedAll sender.role keys drawn frames, none, []⟩ := by
  obtain ⟨written, hwritten, hread⟩ := decodeAll_encodeAll hrole keys drawn frames haccepted hlength
  refine ⟨written, hwritten, ?_⟩
  rintro chunks rfl
  rw [deliver_eq_decodeAll, hread]

/-- A message in two frames with a ping between them, which brings its own key. -/
def interruptedFrames : List Frame :=
  [{ Frame.ofPayload .text [0x61] with fin := false },
    { Frame.ping [1, 2] with mask := some ⟨1, 2, 3, 4⟩ }, Frame.ofPayload .continuation []]

/-- Three frames of a client, the second with a key of its own, are **read by a server**. -/
theorem deliver_encodeAll_of_interruptedFrames :
    ∃ written, encodeAll ⟨.client, 0⟩ (fun _ => ⟨5, 6, 7, 8⟩) 0 interruptedFrames = .ok written ∧
      ∀ chunks, chunks.flatten = written → deliver ⟨.server, 125⟩ chunks =
        ⟨receivedAll .client (fun _ => ⟨5, 6, 7, 8⟩) 0 interruptedFrames, none, []⟩ := by
  refine deliver_encodeAll rfl _ 0 interruptedFrames (fun f hf => ⟨Mask.zero, ?_⟩) (by decide)
  simp only [interruptedFrames, List.mem_cons, List.not_mem_nil, or_false] at hf
  obtain rfl | rfl | rfl := hf <;> exact ⟨_, rfl⟩

end Codec

end WebSocket
