import WebSocket.Proofs.Frame.Rules

/-!
# What is read can be written again

A length may be written with more bytes than it needs, and a reader accepts that. So a frame that
was read and is written again takes the same bytes when its length field was the shortest one, and
fewer bytes otherwise.

## Main results

* `Header.lengthField?_of_value`: the length field that is written **in place of the one read**.
* `Codec.sendable_of_obeys`: a frame that was read is a frame that the other end **may send**.
* `Codec.encode_of_decode`: a frame that was read **is written as it was**, or shorter.
-/

namespace WebSocket

namespace Bytes

/-- The digits of a number that was read are **the bytes it was read from**. -/
theorem bigEndian_toNat (b : Bytes) : bigEndian b.length (toNat b) = b := by
  induction b using List.reverseRecOn with
  | nil => rfl
  | append_singleton b byte ih =>
      have hbyte := byte.toNat_lt
      have hfront : (256 * toNat b + byte.toNat) / 256 = toNat b := by omega
      have hlast : UInt8.ofNat (256 * toNat b + byte.toNat) = byte := by
        refine UInt8.toNat_inj.mp ?_
        rw [UInt8.toNat_ofNat']
        omega
      rw [toNat_concat, List.length_append, List.length_singleton, bigEndian, hfront, hlast, ih]

end Bytes

namespace Header

/-! ### The shortest length field -/

/-- The greatest length that a length field **can hold**, by the bytes that it takes behind the
second byte. -/
def capacity (width : Nat) : Nat :=
  if width = 0 then 125 else if width = 2 then 0xFFFF else 0x7FFFFFFFFFFFFFFF

/-- A length field is **the shortest one** that can hold a length. -/
def Shortest (width length : Nat) : Prop :=
  length ≤ capacity width ∧ ∀ other ∈ [0, 2, 8], length ≤ capacity other → width ≤ other

instance (width length : Nat) : Decidable (Shortest width length) :=
  inferInstanceAs (Decidable (_ ∧ _))

theorem shortest_zero {length : Nat} : Shortest 0 length ↔ length ≤ 125 := by
  simp [Shortest, capacity]

theorem shortest_two {length : Nat} : Shortest 2 length ↔ 125 < length ∧ length ≤ 0xFFFF := by
  simp only [Shortest, capacity, reduceCtorEq, if_true, if_false, Nat.reduceEqDiff, List.mem_cons,
    List.not_mem_nil, or_false, forall_eq_or_imp, forall_eq]
  omega

theorem shortest_eight {length : Nat} :
    Shortest 8 length ↔ 0xFFFF < length ∧ length < 0x8000000000000000 := by
  simp only [Shortest, capacity, reduceCtorEq, if_true, if_false, Nat.reduceEqDiff, List.mem_cons,
    List.not_mem_nil, or_false, forall_eq_or_imp, forall_eq]
  omega

/-- The second byte is **put together again** from its two parts. -/
theorem secondByte_of_parts : ∀ second : UInt8,
    secondByte (decide (second &&& 0x80 ≠ 0)) (second &&& 0x7F) = second :=
  Bytes.forall_byte (by decide +kernel)

/-- The first byte of a header without reserved bits is **put together again**. -/
theorem firstByte_of_parts {first : UInt8} {opcode : Opcode} (hrsv : (first &&& 0x70) >>> 4 = 0)
    (hopcode : Opcode.ofCode? (first &&& 0x0F) = some opcode) :
    Codec.firstByte (decide (first &&& 0x80 ≠ 0)) opcode = first := by
  have hparts : ∀ byte : UInt8, (byte &&& 0x70) >>> 4 = 0 →
      (if decide (byte &&& 0x80 ≠ 0) then (0x80 : UInt8) else 0) ||| (byte &&& 0x0F) = byte :=
    Bytes.forall_byte (by decide +kernel)
  rw [Codec.firstByte, Opcode.code_ofCode? _ _ hopcode]
  exact hparts first hrsv

/-- The seven bits of a second byte stand for themselves, or **announce** two bytes or eight. -/
theorem short_cases : ∀ second : UInt8, second &&& 0x7F ≤ 125 ∨ second &&& 0x7F = 126 ∨
    second &&& 0x7F = 127 :=
  Bytes.forall_byte (by decide +kernel)

/-- The length field that is written **in place of the one that was read**: the same one when that
was the shortest, and one with fewer bytes otherwise. -/
theorem lengthField?_of_value {second : UInt8} {digits : Bytes} {length : Nat}
    (hwidth : digits.length = lengthWidth (second &&& 0x7F))
    (hvalue : length = lengthValue (second &&& 0x7F) digits)
    (hword : length < 0x8000000000000000) :
    ∃ field, Codec.lengthField? (decide (second &&& 0x80 ≠ 0)) length = some field ∧
      (Shortest digits.length length → field = second :: digits) ∧
      (¬Shortest digits.length length → field.length < (second :: digits).length) := by
  have hsecond := secondByte_of_parts second
  have hdigits := Bytes.bigEndian_toNat digits
  have hlt := Bytes.toNat_lt digits
  generalize decide (second &&& 0x80 ≠ 0) = masked at hsecond
  unfold lengthWidth at hwidth
  unfold lengthValue at hvalue
  unfold Codec.lengthField?
  obtain h₁ | h₂ | h₃ := short_cases second
  · -- the seven bits are the length
    rw [if_pos h₁] at hwidth hvalue
    have hsmall : length ≤ 125 := hvalue ▸ UInt8.le_iff_toNat_le.mp h₁
    obtain rfl := List.eq_nil_of_length_eq_zero hwidth
    rw [if_pos hsmall, hvalue, UInt8.ofNat_toNat]
    exact ⟨_, rfl, fun _ => congrArg (· :: []) hsecond,
      fun hnot => absurd (shortest_zero.mpr (hvalue ▸ hsmall)) hnot⟩
  · -- two bytes hold it
    rw [h₂] at hsecond hwidth hvalue
    rw [if_neg (by decide), if_pos rfl] at hwidth
    rw [if_neg (by decide)] at hvalue
    rw [hwidth, ← hvalue] at hdigits hlt
    rw [List.length_cons, hwidth, shortest_two]
    by_cases hsmall : length ≤ 125
    · rw [if_pos hsmall]
      exact ⟨_, rfl, fun hshortest => by omega, fun _ => by simp⟩
    · rw [if_neg hsmall, if_pos (by omega), hdigits]
      exact ⟨_, rfl, fun _ => congrArg (· :: digits) hsecond, fun hnot => by omega⟩
  · -- eight bytes hold it
    rw [h₃] at hsecond hwidth hvalue
    rw [if_neg (by decide), if_neg (by decide)] at hwidth
    rw [if_neg (by decide)] at hvalue
    rw [hwidth, ← hvalue] at hdigits
    rw [List.length_cons, hwidth, shortest_eight]
    by_cases hsmall : length ≤ 125
    · rw [if_pos hsmall]
      exact ⟨_, rfl, fun hshortest => by omega, fun _ => by simp⟩
    by_cases hmiddle : length ≤ 0xFFFF
    · rw [if_neg hsmall, if_pos hmiddle]
      refine ⟨_, rfl, fun hshortest => by omega, fun _ => ?_⟩
      rw [List.length_cons, Bytes.length_bigEndian]
      decide
    · rw [if_neg hsmall, if_neg hmiddle, if_pos hword, hdigits]
      exact ⟨_, rfl, fun _ => congrArg (· :: digits) hsecond, fun hnot => by omega⟩

end Header

namespace Codec

variable {f : Frame} {codec : Codec}

/-! ### Frames -/

/-- What **a role** has to find in front of a payload. -/
theorem isSome_mask_iff {role : Role} {masked : Bool}
    (h : Header.maskViolation? role masked = none) : masked = true ↔ role = .server := by
  cases role <;> cases masked <;> simp_all [Header.maskViolation?]

/-- A frame that obeys the rules of one end is a frame that **the other end may send**, with the key
that it has. -/
theorem sendable_of_obeys {role : Role} (h : f.Obeys codec) (hrole : role = codec.role.opposite)
    (drawn : Mask) : sendViolation? role f = none ∧ wireMask role drawn f = f.mask := by
  have hmask := isSome_mask_iff h.mask
  subst hrole
  unfold sendViolation? wireMask
  simp only [h.rsv, h.control, ne_eq, not_true_eq_false, if_false]
  cases hrole : codec.role with
  | client =>
      have hnone : f.mask = none := by
        rw [← Option.not_isSome_iff_eq_none, hmask, hrole]
        decide
      simp [Role.opposite, hnone]
  | server =>
      obtain ⟨key, hkey⟩ := Option.isSome_iff_exists.mp (hmask.mpr hrole)
      simp [Role.opposite, hkey]

/-- **A frame that was read is written as it was, or shorter.** It obeys every rule of framing, and
the other end may send it. The bytes that are written are those that were read when the length
field was the shortest one that can hold the length; otherwise they are fewer, and are read as the
same frame, whatever follows them. -/
theorem encode_of_decode {receiver sender : Codec} {b rest : Bytes} {f : Frame}
    (h : receiver.decode b = .found f rest) (hrole : sender.role = receiver.role.opposite)
    (drawn : Mask) :
    f.rsv = 0 ∧ (f.isControl = true → f.fin = true ∧ f.payload.length ≤ 125) ∧
      (f.mask.isSome = true ↔ receiver.role = .server) ∧ f.payload.length ≤ receiver.maxLength ∧
      ∃ consumed written, b = consumed ++ rest ∧ sender.encode drawn f = .ok written ∧
        (Header.Shortest (Header.size b - 2) f.payload.length → written = consumed) ∧
        (¬Header.Shortest (Header.size b - 2) f.payload.length →
          written.length < consumed.length ∧
            ∀ more, receiver.decode (written ++ more) = .found f more) := by
  have hobeys := obeys_of_decode h
  obtain ⟨hsend, hwire⟩ := sendable_of_obeys hobeys hrole drawn
  refine ⟨hobeys.rsv, fun hcontrol => ?_, isSome_mask_iff hobeys.mask, hobeys.length, ?_⟩
  · exact ⟨Frame.fin_of_control hobeys.control hcontrol,
      Frame.length_control_le hobeys.control hcontrol⟩
  obtain ⟨header, hstands, -, hfin, hopcode, hmasked, hlength⟩ := layout_of_decode h
  cases hstands with
  | @intro first second digits hrsv hcode hfinal hmask _ hwidth hvalue hword _ _ =>
      obtain ⟨field, hfield, hsame, hshorter⟩ := Header.lengthField?_of_value hwidth hvalue hword
      have hfirst : firstByte f.fin f.opcode = first := by
        rw [hfin, hopcode, hfinal]
        exact Header.firstByte_of_parts hrsv hcode
      have hsize : Header.size (first :: second :: (digits ++
          ((f.mask.map Mask.bytes).getD [] ++ (unmask f.mask f.payload ++ rest)))) - 2 =
            digits.length := by
        rw [Header.size, hwidth, Nat.add_sub_cancel_left]
      have hwritten : sender.encode drawn f = .ok (first ::
          (field ++ ((f.mask.map Mask.bytes).getD [] ++ unmask f.mask f.payload))) := by
        rw [← hmask, ← hmasked, ← hlength] at hfield
        simp only [encode, hsend, hwire, hfield, hfirst]
      refine ⟨first :: second :: (digits ++
        ((f.mask.map Mask.bytes).getD [] ++ unmask f.mask f.payload)), _, ?_, hwritten, ?_, ?_⟩
      · simp only [List.cons_append, List.append_assoc]
      · rw [hsize, hlength]
        intro hshortest
        rw [hsame hshortest, List.cons_append]
      · rw [hsize, hlength]
        intro hlonger
        refine ⟨?_, fun more => ?_⟩
        · have hless := hshorter hlonger
          simp only [List.length_cons, List.length_append] at hless ⊢
          omega
        · have hopposite : receiver.role = sender.role.opposite := by
            rw [hrole, Role.opposite_opposite]
          have hread := decode_encode hwritten hopposite hobeys.length more
          rwa [received, hwire, ← hobeys.rsv] at hread

/-- A binary frame of one byte whose length takes **two bytes more** than it needs, and the first
byte of another frame. -/
def longField : Bytes := [0x82, 0xFE, 0, 1, 1, 2, 3, 4, 8, 0x81]

/-- The frame is read by a server, and a client writes it in fewer bytes. -/
theorem encode_of_decode_of_longField :
    decode ⟨.server, 125⟩ longField =
        .found { Frame.binary [9] with mask := some ⟨1, 2, 3, 4⟩ } [0x81] ∧
      Role.client = Role.server.opposite ∧
      ∃ consumed written, longField = consumed ++ [0x81] ∧
        encode ⟨.client, 0⟩ Mask.zero { Frame.binary [9] with mask := some ⟨1, 2, 3, 4⟩ } =
          .ok written ∧
        written.length < consumed.length ∧ ∀ more, decode ⟨.server, 125⟩ (written ++ more) =
          .found { Frame.binary [9] with mask := some ⟨1, 2, 3, 4⟩ } more := by
  have hread : decode ⟨.server, 125⟩ longField =
      .found { Frame.binary [9] with mask := some ⟨1, 2, 3, 4⟩ } [0x81] := rfl
  obtain ⟨-, -, -, -, consumed, written, hfront, hwritten, -, hlonger⟩ :=
    @encode_of_decode ⟨.server, 125⟩ ⟨.client, 0⟩ _ _ _ hread rfl Mask.zero
  have hless := hlonger (by decide)
  exact ⟨hread, rfl, consumed, written, hfront, hwritten, hless⟩

end Codec

end WebSocket
