import WebSocket.Proofs.Frame.Layout

/-!
# When a frame is taken out of a buffer

A frame is judged by its header. So there are two reasons to wait and no others: the header is not
whole, or it has passed every check and the bytes that it announces are missing. In the second case
nothing can go wrong any more, whatever bytes come. A header that does not pass is refused at once,
and a buffer with room for the longest frame never waits.

The size of the frame is counted in words of 64 bits. A length that has passed is below 2⁶³, so the
count does not overflow, and to cut a frame out by its size is to read it part by part.

## Main results

* `Header.toNat_frameSize`: the size of a frame **does not overflow**.
* `Codec.take_of_stands`: what is taken behind a header that has passed.
* `Codec.take_eq`: a frame is **taken as it is read**.
* `Codec.take_by_header`: when a frame is waited for, and what becomes of the buffer.
-/

namespace WebSocket

namespace Header

variable {codec : Codec} {header : Header} {b behind : Bytes}

theorem keySize_le (masked : Bool) : keySize masked ≤ 4 := by
  cases masked <;> decide

/-- The size of a frame whose length is below 2⁶³ **does not overflow**. -/
theorem toNat_frameSize {headerSize : Nat} (hword : header.length < 0x8000000000000000)
    (hsize : headerSize ≤ 10) : (header.frameSize headerSize).toNat =
      headerSize + keySize header.masked + header.length := by
  have hkey := keySize_le header.masked
  rw [frameSize, UInt64.toNat_add, UInt64.toNat_add, UInt64.toNat_ofNat', UInt64.toNat_ofNat',
    UInt64.toNat_ofNat']
  omega

theorem Stands.toNat_frameSize (h : Stands codec header behind b) :
    (header.frameSize (size b)).toNat = size b + keySize header.masked + header.length := by
  have hsize := size_le b
  cases h with
  | intro _ _ _ _ _ _ _ word => exact Header.toNat_frameSize word hsize

theorem Stands.length_le (h : Stands codec header behind b) : header.length ≤ codec.maxLength := by
  cases h with
  | intro _ _ _ _ _ _ _ _ _ limit => exact limit

/-- A header that has passed stands in front of **every longer buffer**. -/
theorem Stands.append (h : Stands codec header behind b) (more : Bytes) :
    Stands codec header (behind ++ more) (b ++ more) := by
  refine parse_eq_found.mp ?_
  have hparse := parse_eq_found.mpr h
  rw [parse_append (by rw [hparse]; exact nofun), hparse]
  rfl

end Header

namespace Codec

open Header

variable {codec : Codec} {header : Header} {b behind : Bytes}

/-- What is taken **behind a header that has passed**: nothing as long as bytes are missing, and the
frame when they are there. -/
theorem take_of_stands (h : Stands codec header behind b) : codec.take b =
    if behind.length < keySize header.masked + header.length then ⟨.ok none, b⟩
    else ⟨.ok (some (frameOf header behind)),
      (behind.drop (keySize header.masked)).drop header.length⟩ := by
  have hlength := h.length_eq
  simp only [take, parse_eq_found.mpr h, h.toNat_frameSize, h.drop_size]
  by_cases hmissing : behind.length < keySize header.masked + header.length
  · rw [if_pos hmissing, if_pos (by omega)]
  · rw [if_neg hmissing, if_neg (by omega)]

/-- What is taken when a buffer is read: **the frame that is found**, with its bytes gone, or
nothing, with all bytes left. -/
def Taken.ofScan (b : Bytes) : Scan Fault Frame → Taken
  | .incomplete => ⟨.ok none, b⟩
  | .fault e => ⟨.error e, b⟩
  | .found f rest => ⟨.ok (some f), rest⟩

theorem parseMask_eq (masked : Bool) (b : Bytes) : parseMask masked b =
    if b.length < keySize masked then none
    else some (if masked then Mask.ofBytes? (b.take 4) else none, b.drop (keySize masked)) := by
  cases masked with
  | false => rfl
  | true =>
      match b with
      | [] | [_] | [_, _] | [_, _, _] => rfl
      | _ :: _ :: _ :: _ :: tail =>
          rw [if_neg (by simp [keySize])]
          rfl

/-- **A frame is taken as it is read.** -/
theorem take_eq (codec : Codec) (b : Bytes) :
    codec.take b = Taken.ofScan b (codec.decode b) := by
  cases hparse : Header.parse codec b with
  | incomplete => simp only [take, decode, hparse, Taken.ofScan]
  | fault e => simp only [take, decode, hparse, Taken.ofScan]
  | found header behind =>
      rw [take_of_stands (parse_eq_found.mp hparse)]
      simp only [decode, hparse, parseMask_eq]
      by_cases hkey : behind.length < keySize header.masked
      · rw [if_pos hkey, if_pos (by omega)]
        rfl
      · simp only [if_neg hkey, Bytes.split?, List.length_take, List.length_drop]
        by_cases hpayload : behind.length < keySize header.masked + header.length
        · rw [if_pos hpayload, if_neg (by omega)]
          rfl
        · rw [if_neg hpayload, if_pos (by omega)]
          rfl

theorem length_keyBytes (mask : Option Mask) :
    ((mask.map Mask.bytes).getD []).length = keySize mask.isSome := by
  cases mask <;> rfl

/-- **A frame is waited for by its header.** To take a frame out of a buffer is to read it. Nothing
is taken only as long as the header is not whole, or when it has passed every check and bytes behind
it are missing; then any bytes that are as many complete the frame. So a buffer that has room for
the longest header, a key and the longest payload never waits. The size of a frame does not overflow
a word. What is not taken stays as it was, and a frame takes its header, its key and its payload
away. -/
theorem take_by_header (codec : Codec) (b : Bytes) :
    codec.take b = Taken.ofScan b (codec.decode b) ∧
    ((codec.take b).frame = .ok none → b.length < size b ∨
      ∃ header behind, Stands codec header behind b ∧
        behind.length < keySize header.masked + header.length ∧
        ∀ more, behind.length + more.length = keySize header.masked + header.length →
          ∃ f, codec.take (b ++ more) = ⟨.ok (some f), []⟩) ∧
    (14 + codec.maxLength ≤ b.length → (codec.take b).frame ≠ .ok none) ∧
    (∀ header behind, Stands codec header behind b → (header.frameSize (size b)).toNat =
      size b + keySize header.masked + header.length) ∧
    ((∀ f, (codec.take b).frame ≠ .ok (some f)) → (codec.take b).buffer = b) ∧
    (∀ f, (codec.take b).frame = .ok (some f) → ∃ front, b = front ++ (codec.take b).buffer ∧
      front.length = size b + keySize f.mask.isSome + f.payload.length) := by
  have hwaits : (codec.take b).frame = .ok none → b.length < size b ∨
      ∃ header behind, Stands codec header behind b ∧
        behind.length < keySize header.masked + header.length := by
    intro hnone
    cases hparse : Header.parse codec b with
    | incomplete => exact .inl (length_lt_size_of_parse hparse)
    | fault e => simp only [take, hparse] at hnone; cases hnone
    | found header behind =>
        have hstands := parse_eq_found.mp hparse
        refine .inr ⟨header, behind, hstands, ?_⟩
        by_contra hwhole
        rw [take_of_stands hstands, if_neg hwhole] at hnone
        cases hnone
  refine ⟨take_eq codec b, fun hnone => ?waits, fun hlong hnone => ?room,
    fun header behind hstands => hstands.toNat_frameSize, fun hnot => ?left, fun f hf => ?taken⟩
  case waits =>
    refine (hwaits hnone).imp_right ?_
    rintro ⟨header, behind, hstands, hmissing⟩
    refine ⟨header, behind, hstands, hmissing,
      fun more hmore => ⟨frameOf header (behind ++ more), ?_⟩⟩
    rw [take_of_stands (hstands.append more), List.length_append, if_neg (by omega), List.drop_drop,
      List.drop_eq_nil_of_le (by rw [List.length_append]; omega)]
  case room =>
    obtain hshort | ⟨header, behind, hstands, hmissing⟩ := hwaits hnone
    · have hsize := size_le b
      omega
    · have hsize := size_le b
      have hkey := keySize_le header.masked
      have hlimit := hstands.length_le
      have hlength := hstands.length_eq
      omega
  case left =>
    rw [take_eq] at hnot ⊢
    cases hdecode : codec.decode b with
    | incomplete => rfl
    | fault e => rfl
    | found f rest => rw [hdecode] at hnot; exact absurd rfl (hnot f)
  case taken =>
    rw [take_eq] at hf ⊢
    cases hdecode : codec.decode b with
    | incomplete => rw [hdecode] at hf; cases hf
    | fault e => rw [hdecode] at hf; cases hf
    | found g rest =>
        rw [hdecode] at hf
        cases hf
        obtain ⟨header, hstands, -⟩ := layout_of_decode hdecode
        refine ⟨b.take (size b) ++ ((f.mask.map Mask.bytes).getD [] ++ unmask f.mask f.payload),
          ?_, ?_⟩
        · have hfront := List.take_append_drop (size b) b
          rw [hstands.drop_size] at hfront
          simpa only [Taken.ofScan, List.append_assoc] using hfront.symm
        · have hwhole := hstands.length_eq
          rw [List.length_append, List.length_append, List.length_take, length_unmask,
            length_keyBytes, Nat.min_eq_left (by omega), Nat.add_assoc]

/-- The header of a masked frame of three bytes, and **half of its key**. -/
def partialFrame : Bytes := [0x82, 0x83, 1, 2]

/-- The frame is waited for, and the five bytes that are missing complete it; a frame of one byte
more is refused as soon as its header is there, and stays in the buffer. -/
theorem take_by_header_of_partialFrame :
    (take ⟨.server, 3⟩ partialFrame).frame = .ok none ∧
      (∃ f, take ⟨.server, 3⟩ (partialFrame ++ [3, 4, 5, 6, 7]) = ⟨.ok (some f), []⟩) ∧
      (take ⟨.server, 3⟩ [0x82, 0x84]).frame = .error (.frameTooLarge 4) ∧
      (take ⟨.server, 3⟩ [0x82, 0x84]).buffer = [0x82, 0x84] := by
  obtain ⟨-, hwaits, -⟩ := take_by_header ⟨.server, 3⟩ partialFrame
  obtain ⟨-, -, -, -, hleft, -⟩ := take_by_header ⟨.server, 3⟩ [0x82, 0x84]
  refine ⟨rfl, ?_, rfl, hleft fun f => nofun⟩
  obtain hshort | ⟨header, behind, hstands, -, hcompletes⟩ := hwaits rfl
  · exact absurd hshort (by decide)
  · have hparse : parse ⟨.server, 3⟩ partialFrame = .found ⟨true, .binary, true, 3⟩ [1, 2] := rfl
    obtain ⟨rfl, rfl⟩ := Scan.found.inj ((parse_eq_found.mpr hstands).symm.trans hparse)
    exact hcompletes _ rfl

end Codec

end WebSocket
