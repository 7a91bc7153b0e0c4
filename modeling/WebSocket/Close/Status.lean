import WebSocket.Close.Code
import WebSocket.Utf8
import WebSocket.Violation

/-!
# Close status

The payload of a close frame is empty, or a code of two bytes followed by a reason in UTF-8.
Writing cuts a long reason so that the payload fits into a control frame; reading keeps the code
of a payload whose reason is not UTF-8 and drops that reason.

## Main results

* `Close.Status.length_payload_le`: a written payload always fits into a control frame.
-/

namespace WebSocket

namespace Close

/-- What a close frame says about the **end of the connection**. -/
structure Status where
  code : Code
  reason : String
  deriving DecidableEq, Repr, Inhabited

/-- The bytes of a reason that still fit behind the code. -/
def maxReason : Nat := 123

/-- The payload that carries a status: the code, and as much of the reason as fits. -/
def Status.payload (s : Status) : Bytes :=
  s.code.bytes ++ Utf8.truncate maxReason (Utf8.encode s.reason)

theorem Status.length_payload_le (s : Status) : s.payload.length ≤ 125 := by
  have hcode : s.code.bytes.length = 2 := Bytes.length_bigEndian 2 _
  have hreason : (Utf8.truncate maxReason (Utf8.encode s.reason)).length ≤ 123 :=
    Utf8.length_truncate_le maxReason (Utf8.encode s.reason)
  simp only [Status.payload, List.length_append, hcode]
  omega

/-- What the payload of a close frame says. -/
inductive Reading where
  /-- The payload is empty. -/
  | noStatus
  | status (s : Status)
  /-- The reason is not UTF-8: the code stands alone. -/
  | malformedReason (code : Code)
  deriving DecidableEq, Repr, Inhabited

namespace Reading

/-- The status that is left when a malformed reason counts as an empty one. -/
def status? : Reading → Option Status
  | noStatus => none
  | status s => some s
  | malformedReason code => some ⟨code, ""⟩

end Reading

/-- The complaint about a reason that is not UTF-8. -/
def malformedReasonMessage (code : Code) : String :=
  "Close reason for code " ++ code.describe ++ " is not valid UTF-8"

/-- Reads the **payload of a close frame**; a single byte cannot hold a code. -/
def parse : Bytes → Except Violation Reading
  | [] => .ok .noStatus
  | [_] => .error .invalidClosePayload
  | high :: low :: reason =>
    let code := Code.ofNumber (UInt16.ofNat (256 * high.toNat + low.toNat))
    match Utf8.text? reason with
    | some text => .ok (.status ⟨code, text⟩)
    | none => .ok (.malformedReason code)

end Close

end WebSocket
