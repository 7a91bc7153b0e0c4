import Mathlib.Data.List.Induction
import WebSocket.Frame.Buffer
import WebSocket.Proofs.Frame.RoundTrip

/-!
# How a frame lies in its bytes

A header that is read stands in front of the buffer byte for byte: the first byte holds the final
bit and the opcode, the second one the mask bit and seven bits that say how many further bytes hold
the length. `Header.Stands` states this layout together with every check that the header has to
pass, and `Header.parse_eq_found` says that nothing else is read. The key and the payload stand
behind the header, the payload masked (`Codec.layout_of_decode`).

## Main results

* `Header.parse_eq_found`: what it means for a header **to be read**.
* `Header.length_lt_size_of_parse`: a header is **waited for** only as long as it is not whole.
* `Codec.layout_of_decode`: where the parts of a frame stand.
-/

namespace WebSocket

namespace Bytes

/-- A number of some bytes is **below their power**. -/
theorem toNat_lt (b : Bytes) : toNat b < 256 ^ b.length := by
  induction b using List.reverseRecOn with
  | nil => decide
  | append_singleton b byte ih =>
      have hbyte := byte.toNat_lt
      rw [toNat_concat, List.length_append, List.length_singleton, Nat.pow_succ]
      omega

end Bytes

namespace Header

/-! ### Length fields -/

/-- The length that a **length field** holds: its seven bits, or the bytes that they announce. -/
def lengthValue (short : UInt8) (digits : Bytes) : Nat :=
  if short ≤ 125 then short.toNat else Bytes.toNat digits

variable {codec : Codec} {short : UInt8} {b rest : Bytes} {header : Header} {length : Nat}

/-- A length that is read **stands in front**, in as many bytes as were announced, and its top bit
is not set. -/
theorem parseLength_eq_found : parseLength short b = .found length rest ↔
    ∃ digits, digits.length = lengthWidth short ∧ b = digits ++ rest ∧
      length = lengthValue short digits ∧ length < 0x8000000000000000 := by
  unfold parseLength lengthWidth lengthValue
  by_cases h₁ : short ≤ 125
  · have hsmall : short.toNat ≤ 125 := UInt8.le_iff_toNat_le.mp h₁
    simp only [if_pos h₁, Scan.found.injEq]
    constructor
    · rintro ⟨rfl, rfl⟩
      exact ⟨[], rfl, rfl, rfl, by omega⟩
    · rintro ⟨digits, hdigits, rfl, rfl, -⟩
      obtain rfl := List.eq_nil_of_length_eq_zero hdigits
      exact ⟨rfl, rfl⟩
  by_cases h₂ : short = 126
  · simp only [if_neg h₁, if_pos h₂]
    constructor
    · intro h
      split at h
      · cases h
      · rename_i digits behind hcut
        obtain ⟨rfl, rfl⟩ := Scan.found.inj h
        obtain ⟨hdigits, rfl⟩ := (Bytes.split?_eq_some ..).mp hcut
        have hlt := Bytes.toNat_lt digits
        rw [hdigits] at hlt
        exact ⟨digits, hdigits, rfl, rfl, by omega⟩
    · rintro ⟨digits, hdigits, rfl, rfl, -⟩
      rw [(Bytes.split?_eq_some ..).mpr ⟨hdigits, rfl⟩]
  · simp only [if_neg h₁, if_neg h₂]
    constructor
    · intro h
      split at h
      · cases h
      · rename_i digits behind hcut
        split at h
        · cases h
        · rename_i hword
          obtain ⟨rfl, rfl⟩ := Scan.found.inj h
          obtain ⟨hdigits, rfl⟩ := (Bytes.split?_eq_some ..).mp hcut
          exact ⟨digits, hdigits, rfl, rfl, Nat.lt_of_not_le hword⟩
    · rintro ⟨digits, hdigits, rfl, rfl, hword⟩
      rw [(Bytes.split?_eq_some ..).mpr ⟨hdigits, rfl⟩]
      exact if_neg (Nat.not_le.mpr hword)

/-- A length is waited for only **as long as its bytes are missing**. -/
theorem length_lt_of_parseLength (h : parseLength short b = .incomplete) :
    b.length < lengthWidth short := by
  unfold parseLength at h
  unfold lengthWidth
  split at h
  · cases h
  · rename_i h₁
    rw [if_neg h₁]
    split at h
    · rename_i h₂
      rw [if_pos h₂]
      split at h
      · rename_i hcut
        exact (Bytes.split?_eq_none ..).mp hcut
      · cases h
    · rename_i h₂
      rw [if_neg h₂]
      split at h
      · rename_i hcut
        exact (Bytes.split?_eq_none ..).mp hcut
      · dsimp only at h
        split at h <;> cases h

/-! ### Headers -/

/-- A header that **has passed every check** stands in front of a buffer: its bytes, and the bytes
behind it. -/
inductive Stands (codec : Codec) (header : Header) (rest : Bytes) : Bytes → Prop
  | intro {first second : UInt8} {digits : Bytes}
      (rsv : (first &&& 0x70) >>> 4 = 0)
      (opcode : Opcode.ofCode? (first &&& 0x0F) = some header.opcode)
      (fin : header.fin = decide (first &&& 0x80 ≠ 0))
      (masked : header.masked = decide (second &&& 0x80 ≠ 0))
      (mask : maskViolation? codec.role header.masked = none)
      (width : digits.length = lengthWidth (second &&& 0x7F))
      (length : header.length = lengthValue (second &&& 0x7F) digits)
      (word : header.length < 0x8000000000000000)
      (control : Frame.controlViolation? header.opcode header.fin header.length = none)
      (limit : header.length ≤ codec.maxLength) :
      Stands codec header rest (first :: second :: (digits ++ rest))

/-- **What it means for a header to be read.** -/
theorem parse_eq_found : parse codec b = .found header rest ↔ Stands codec header rest b := by
  constructor
  · intro h
    match b with
    | [] | [_] => simp [parse] at h
    | first :: second :: tail =>
        simp only [parse] at h
        split at h
        · cases h
        · rename_i hrsv
          split at h
          · cases h
          · rename_i opcode hopcode
            split at h
            · cases h
            · rename_i hmask
              split at h
              · cases h
              · cases h
              · rename_i length behind hlength
                obtain ⟨digits, hdigits, rfl, hvalue, hword⟩ := parseLength_eq_found.mp hlength
                split at h
                · cases h
                · rename_i hcontrol
                  split at h
                  · cases h
                  · rename_i hlimit
                    cases h
                    exact .intro (of_not_not hrsv) hopcode rfl rfl hmask hdigits hvalue hword
                      hcontrol (Nat.le_of_not_lt hlimit)
  · rintro ⟨hrsv, hopcode, hfin, hmasked, hmask, hwidth, hvalue, hword, hcontrol, hlimit⟩
    rename_i first second digits
    have hlength : parseLength (second &&& 0x7F) (digits ++ rest) = .found header.length rest :=
      parseLength_eq_found.mpr ⟨digits, hwidth, rfl, hvalue, hword⟩
    simp only [parse, hrsv, ne_eq, not_true_eq_false, if_false, hopcode, ← hmasked, hmask, hlength,
      ← hfin, hcontrol, if_neg (Nat.not_lt.mpr hlimit)]

/-- A header is waited for only **as long as it is not whole**. -/
theorem length_lt_size_of_parse (h : parse codec b = .incomplete) : b.length < size b := by
  match b with
  | [] | [_] => simp [size]
  | first :: second :: tail =>
      simp only [parse] at h
      split at h
      · cases h
      · split at h
        · cases h
        · split at h
          · cases h
          · split at h
            · rename_i hwait
              have hshort := length_lt_of_parseLength hwait
              rw [size, List.length_cons, List.length_cons]
              omega
            · cases h
            · split at h
              · cases h
              · split at h <;> cases h

/-- What stands behind a header **begins where the header ends**. -/
theorem Stands.drop_size (h : Stands codec header rest b) : b.drop (size b) = rest := by
  cases h with
  | intro _ _ _ _ _ width =>
      rw [size, ← width, Nat.add_comm, List.drop_succ_cons, List.drop_succ_cons, List.drop_left]

theorem Stands.length_eq (h : Stands codec header rest b) : b.length = size b + rest.length := by
  cases h with
  | intro _ _ _ _ _ width =>
      rw [size, List.length_cons, List.length_cons, List.length_append, width]
      omega

/-- A header takes **ten bytes at most**. -/
theorem size_le (b : Bytes) : size b ≤ 10 := by
  have hwidth : ∀ short, lengthWidth short ≤ 8 := by
    intro short
    unfold lengthWidth
    split
    · omega
    · split <;> omega
  match b with
  | [] | [_] => simp [size]
  | _ :: second :: _ =>
      have := hwidth (second &&& 0x7F)
      rw [size]
      omega

end Header

namespace Codec

variable {codec : Codec} {b rest : Bytes} {f : Frame} {masked : Bool} {mask : Option Mask}

/-! ### Frames -/

/-- The key that is read **stands in front**, if the header announces one. -/
theorem of_parseMask (h : parseMask masked b = some (mask, rest)) :
    mask.isSome = masked ∧ b = (mask.map Mask.bytes).getD [] ++ rest := by
  unfold parseMask at h
  cases masked with
  | false =>
      obtain ⟨rfl, rfl⟩ := Prod.mk.inj (Option.some.inj h)
      exact ⟨rfl, rfl⟩
  | true =>
      rw [if_pos rfl] at h
      split at h
      · obtain ⟨rfl, rfl⟩ := Prod.mk.inj (Option.some.inj h)
        exact ⟨rfl, rfl⟩
      · cases h

/-- **Where the parts of a frame stand**: the header, the key, and the payload as it was masked. -/
theorem layout_of_decode (h : codec.decode b = .found f rest) :
    ∃ header, Header.Stands codec header
        ((f.mask.map Mask.bytes).getD [] ++ (unmask f.mask f.payload ++ rest)) b ∧
      f.rsv = 0 ∧ f.fin = header.fin ∧ f.opcode = header.opcode ∧ f.mask.isSome = header.masked ∧
      f.payload.length = header.length := by
  unfold decode at h
  split at h
  · cases h
  · cases h
  · rename_i header behind hheader
    split at h
    · cases h
    · rename_i mask afterKey hmask
      split at h
      · cases h
      · rename_i payload afterPayload hcut
        cases h
        obtain ⟨hpayload, rfl⟩ := (Bytes.split?_eq_some ..).mp hcut
        obtain ⟨hmasked, hbehind⟩ := of_parseMask hmask
        refine ⟨header, ?_, rfl, rfl, rfl, hmasked, ?_⟩
        · rw [unmask_unmask, ← hbehind]
          exact Header.parse_eq_found.mp hheader
        · rw [length_unmask, hpayload]

end Codec

end WebSocket
