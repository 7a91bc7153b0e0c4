import WebSocket.Proofs.Close.Payload
import WebSocket.Proofs.Frame.RoundTrip

/-!
# Statuses and payloads

A status is written into the payload of a close frame and read back from it. What is lost on the way
is the end of a reason that does not fit, and the spelling of a code whose number has a name. In the
other direction nothing is lost: a payload whose reason is a text is the payload of the status that
is read from it. A reason that is no text is dropped, and the code in front of it stays.

## Main results

* `Close.Code.bytes_ofNumber`: two bytes are those of **the code that they name**.
* `Close.payload_of_parse`: a payload that is read as a status is **the payload of the status**.
* `Close.carried_both_ways`: what a close frame carries, **in both directions**.
-/

namespace WebSocket

namespace Close

namespace Code

/-- A code that is read **stands for itself** only if its number has no name. -/
theorem not_registered_of_ofNumber {n number : UInt16} (h : ofNumber n = .other number) :
    number = n ∧ number ∉ registered.map toNumber := by
  obtain rfl : number = n := by rw [← toNumber_ofNumber n, h, toNumber]
  refine ⟨rfl, fun hmem => ?_⟩
  obtain ⟨c, hc, hnumber⟩ := List.mem_map.mp hmem
  unfold ofNumber at h
  cases hfound : registered.find? fun c => c.toNumber == number with
  | none => exact List.find?_eq_none.mp hfound c hc (by simpa using hnumber)
  | some d =>
      rw [hfound] at h
      have hlisted := List.mem_of_find?_eq_some hfound
      rw [Option.getD_some] at h
      simp [registered, h] at hlisted

/-- Two bytes are those of **the code that they name**. -/
theorem bytes_ofNumber (high low : UInt8) :
    (ofNumber (UInt16.ofNat (256 * high.toNat + low.toNat))).bytes = [high, low] := by
  have hhigh := high.toNat_lt
  have hlow := low.toNat_lt
  have hnumber : (UInt16.ofNat (256 * high.toNat + low.toNat)).toNat =
      256 * high.toNat + low.toNat := by
    rw [UInt16.toNat_ofNat']
    omega
  rw [bytes, toNumber_ofNumber, hnumber]
  simp only [Bytes.bigEndian, List.nil_append, List.cons_append]
  rw [Utf8.ofNat_eq_of_toNat high (by omega)]
  congr 2
  rw [← UInt8.toNat_inj, UInt8.toNat_ofNat']
  omega

end Code

/-- A payload whose reason is a text is **the payload of what is read** from it. -/
theorem payload_of_parse {b : Bytes} (hone : b.length ≠ 1) (hlength : b.length ≤ 125)
    (htext : Utf8.isValid (b.drop 2) = true) : ∃ reading, parse b = .ok reading ∧
      (∀ code, reading ≠ .malformedReason code) ∧ (Frame.close reading.status?).payload = b := by
  match b with
  | [] => exact ⟨_, rfl, nofun, rfl⟩
  | [_] => exact absurd rfl hone
  | high :: low :: reason =>
      cases hreason : Utf8.text? reason with
      | none => exact nomatch (Utf8.text?_eq_none_iff.mp hreason).symm.trans htext
      | some text =>
          refine ⟨.status ⟨_, text⟩, by rw [parse, hreason], nofun, ?_⟩
          have hfits : reason.length ≤ maxReason := by
            simp only [List.length_cons] at hlength
            rw [maxReason]
            omega
          show Status.payload _ = _
          rw [Status.payload, Code.bytes_ofNumber, Utf8.encode_of_text? hreason, Utf8.truncate,
            if_pos hfits]
          rfl

/-- A reason that is **no text** is dropped. -/
theorem parse_of_malformed {b : Bytes} (hlength : 1 < b.length)
    (hmalformed : Utf8.isValid (b.drop 2) = false) :
    ∃ code, parse b = .ok (.malformedReason code) ∧ code.bytes = b.take 2 := by
  match b with
  | [] | [_] => simp at hlength
  | high :: low :: reason =>
      have hreason : Utf8.text? reason = none := Utf8.text?_eq_none_iff.mpr hmalformed
      exact ⟨_, by rw [parse, hreason], Code.bytes_ofNumber high low⟩

/-- **What a close frame carries of a status**: its payload is the code and as much of the reason as
is left when the reason is cut until it fits; it fits into a control frame, which both roles can
send; and it is read as a status with the code that the number stands for and with the longest front
part of the reason that has room. -/
structure Carried (s : Status) : Prop where
  payload : s.payload = s.code.bytes ++ Utf8.shorten maxReason (Utf8.encode s.reason)
  length : s.payload.length ≤ 125
  sent : ∀ (codec : Codec) (key : Mask), ∃ written,
    codec.encode key (Frame.close (some s)) = .ok written
  read : ∃ t, parse s.payload = .ok (.status t) ∧ t.code = .ofNumber s.code.toNumber ∧
    t.code.toNumber = s.code.toNumber ∧
    (∀ number, t.code = .other number → number ∉ Code.registered.map Code.toNumber) ∧
    Utf8.IsLongestFit 123 s.reason t.reason

theorem carried (s : Status) : Carried s where
  payload := by rw [Status.payload, Utf8.shorten_eq_truncate]
  length := s.length_payload_le
  sent := fun codec key => codec.encode_control_isOk key rfl s.length_payload_le
  read := ⟨s.received, parse_payload s, rfl, s.toNumber_received,
    fun _ hother => (Code.not_registered_of_ofNumber hother).2,
    Utf8.isLongestFit_of_encode s.encode_received⟩

/-- **What a close frame carries, in both directions.** Every status is carried, cut as little as
possible; every payload of at most 125 bytes whose reason is a text is the payload of the status
that is read from it; and of a payload whose reason is no text the code is kept, with an empty
reason. -/
theorem carried_both_ways :
    (∀ s, Carried s) ∧
    (∀ b : Bytes, b.length ≠ 1 → b.length ≤ 125 → Utf8.isValid (b.drop 2) = true →
      ∃ reading, parse b = .ok reading ∧ (∀ code, reading ≠ .malformedReason code) ∧
        (Frame.close reading.status?).payload = b) ∧
    (∀ b : Bytes, 1 < b.length → Utf8.isValid (b.drop 2) = false →
      ∃ code, parse b = .ok (.malformedReason code) ∧
        (Reading.malformedReason code).status? = some ⟨code, ""⟩ ∧ code.bytes = b.take 2) := by
  refine ⟨carried, fun _ => payload_of_parse, fun b hlength hmalformed => ?_⟩
  obtain ⟨code, hparse, hbytes⟩ := parse_of_malformed hlength hmalformed
  exact ⟨code, hparse, rfl, hbytes⟩

/-- A reason of **characters of three bytes**, the 41st of which ends at the limit, and one more
byte would be too many; a payload with a reason of two bytes; and one whose reason breaks off within
a character. -/
theorem carried_both_ways_of_euros :
    Carried ⟨.other 1000, String.ofList ('a' :: List.replicate 50 '€')⟩ ∧
    (∃ reading, parse [0x03, 0xE8, 0xC3, 0xA9] = .ok reading ∧
      (∀ code, reading ≠ .malformedReason code) ∧
        (Frame.close reading.status?).payload = [0x03, 0xE8, 0xC3, 0xA9]) ∧
    (∃ code, parse [0x0F, 0xA0, 0xE2, 0x82] = .ok (.malformedReason code) ∧
      (Reading.malformedReason code).status? = some ⟨code, ""⟩ ∧ code.bytes = [0x0F, 0xA0]) := by
  obtain ⟨hstatus, hread, hdropped⟩ := carried_both_ways
  exact ⟨hstatus _, hread _ (by decide) (by decide) (by decide),
    hdropped _ (by decide) (by decide)⟩

end Close

end WebSocket
