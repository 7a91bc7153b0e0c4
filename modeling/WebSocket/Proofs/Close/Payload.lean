import WebSocket.Close.Status
import WebSocket.Proofs.Utf8

/-!
# What arrives of a close status

A close frame has room for two bytes of a code and 123 bytes of a reason. The code arrives as the
number that it was sent as, and of the reason as much as fits, cut between two characters. So the
payload is always read back as a status (`Close.Status.received`), with a reason that is a text.

## Main results

* `Close.parse_payload`: the payload of a status is read as **what arrives of it**.
* `Close.Status.encode_received`: what arrives of a reason are **its first bytes**, at most 123.
-/

namespace WebSocket

namespace Close

/-- The bytes of a code are read as **its number**. -/
theorem Code.exists_bytes (code : Code) : ∃ high low, code.bytes = [high, low] ∧
    256 * high.toNat + low.toNat = code.toNumber.toNat := by
  have hlt := code.toNumber.toNat_lt
  refine ⟨.ofNat (code.toNumber.toNat / 256), .ofNat code.toNumber.toNat, rfl, ?_⟩
  rw [UInt8.toNat_ofNat', UInt8.toNat_ofNat']
  omega

/-- **What arrives** of a status: the code that the number stands for, and of the reason as much as
fits. -/
def Status.received (s : Status) : Status where
  code := .ofNumber s.code.toNumber
  reason := (Utf8.text? (Utf8.truncate maxReason (Utf8.encode s.reason))).getD ""

/-- A reason that is cut is still **a text**. -/
theorem Status.text?_reason (s : Status) :
    Utf8.text? (Utf8.truncate maxReason (Utf8.encode s.reason)) = some s.received.reason := by
  obtain ⟨k, hcut⟩ := Utf8.truncate_encode maxReason s.reason
  rw [received, hcut, Utf8.text?, Utf8.decode?_encodeChars]
  rfl

/-- What arrives of a reason are **its first bytes**, as many as fit in whole characters. -/
theorem Status.encode_received (s : Status) :
    Utf8.encode s.received.reason = Utf8.truncate maxReason (Utf8.encode s.reason) := by
  obtain ⟨k, hcut⟩ := Utf8.truncate_encode maxReason s.reason
  rw [received, hcut, Utf8.text?, Utf8.decode?_encodeChars, Utf8.encode]
  exact congrArg Utf8.encodeChars (String.toList_ofList)

theorem Status.toNumber_received (s : Status) :
    s.received.code.toNumber = s.code.toNumber :=
  Code.toNumber_ofNumber _

/-- **The payload of a status** is read as what arrives of it. -/
theorem parse_payload (s : Status) : parse s.payload = .ok (.status s.received) := by
  obtain ⟨high, low, hbytes, hnumber⟩ := s.code.exists_bytes
  rw [Status.payload, hbytes]
  simp only [List.cons_append, List.nil_append, parse, hnumber, UInt16.ofNat_toNat, s.text?_reason]
  rfl

end Close

end WebSocket
