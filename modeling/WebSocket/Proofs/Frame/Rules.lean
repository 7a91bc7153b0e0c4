import WebSocket.Proofs.Frame.Layout

/-!
# What is read obeys the rules

A header stands in front of a frame only after it was judged. So whatever `Codec.decode` finds has
no reserved bit, is masked exactly when the other end has to mask, is no longer than the limit, and
as a control frame is final and short.

## Main results

* `Codec.obeys_of_decode`: **every frame read** obeys the rules of framing.
* `Frame.length_control_le`, `Frame.fin_of_control`: a control frame that obeys them carries at most
  125 bytes and is final.
-/

namespace WebSocket

/-- The **rules** that a received frame obeys. -/
structure Frame.Obeys (codec : Codec) (f : Frame) : Prop where
  rsv : f.rsv = 0
  control : Frame.controlViolation? f.opcode f.fin f.payload.length = none
  length : f.payload.length ≤ codec.maxLength
  mask : Header.maskViolation? codec.role f.mask.isSome = none

namespace Codec

/-- **Every frame read** obeys the rules of framing. -/
theorem obeys_of_decode {codec : Codec} {b rest : Bytes} {f : Frame}
    (h : codec.decode b = .found f rest) : f.Obeys codec := by
  obtain ⟨header, hstands, hrsv, hfin, hopcode, hmasked, hlength⟩ := layout_of_decode h
  cases hstands with
  | intro _ _ _ _ mask _ _ _ control limit =>
      rw [← hopcode, ← hfin, ← hlength] at control
      rw [← hlength] at limit
      rw [← hmasked] at mask
      exact ⟨hrsv, control, limit, mask⟩

end Codec

namespace Frame

/-- A **control frame** that obeys the rules carries at most 125 bytes. -/
theorem length_control_le {opcode : Opcode} {fin : Bool} {length : Nat}
    (h : controlViolation? opcode fin length = none) (hcontrol : opcode.isControl = true) :
    length ≤ maxControlPayload := by
  unfold controlViolation? at h
  rw [if_pos hcontrol] at h
  split at h
  · cases h
  · rename_i hshort
    exact Nat.le_of_not_lt hshort

/-- A **control frame** that obeys the rules is final. -/
theorem fin_of_control {opcode : Opcode} {fin : Bool} {length : Nat}
    (h : controlViolation? opcode fin length = none) (hcontrol : opcode.isControl = true) :
    fin = true := by
  unfold controlViolation? at h
  rw [if_pos hcontrol] at h
  split at h
  · cases h
  · split at h
    · assumption
    · cases h

end Frame

end WebSocket
