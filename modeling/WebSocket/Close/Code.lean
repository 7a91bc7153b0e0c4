import WebSocket.Bytes

/-!
# Close codes

A close frame may say why the connection ends, by a registered number between 1000 and 1015 or by
any other number, which is kept as it is. Three registered codes describe how a connection ended
and are never to be sent.

## Main results

* `Close.Code.toNumber_ofNumber`: reading a number and writing the code gives the number back.
-/

namespace WebSocket

namespace Close

/-- Why a connection ends. -/
inductive Code where
  | normalClosure
  | goingAway
  | protocolError
  | unsupportedData
  | noStatusReceived
  | abnormalClosure
  | invalidPayloadData
  | policyViolation
  | messageTooBig
  | mandatoryExtension
  | internalServerError
  | serviceRestart
  | tryAgainLater
  | badGateway
  | tlsHandshake
  | other (number : UInt16)
  deriving DecidableEq, Repr, Inhabited

namespace Code

/-- The number of a code on the wire. -/
def toNumber : Code → UInt16
  | normalClosure => 1000
  | goingAway => 1001
  | protocolError => 1002
  | unsupportedData => 1003
  | noStatusReceived => 1005
  | abnormalClosure => 1006
  | invalidPayloadData => 1007
  | policyViolation => 1008
  | messageTooBig => 1009
  | mandatoryExtension => 1010
  | internalServerError => 1011
  | serviceRestart => 1012
  | tryAgainLater => 1013
  | badGateway => 1014
  | tlsHandshake => 1015
  | other number => number

/-- The codes that have a registered number. -/
def registered : List Code :=
  [normalClosure, goingAway, protocolError, unsupportedData, noStatusReceived, abnormalClosure,
    invalidPayloadData, policyViolation, messageTooBig, mandatoryExtension, internalServerError,
    serviceRestart, tryAgainLater, badGateway, tlsHandshake]

/-- The code with a given number; a number that is not registered stands for itself. -/
def ofNumber (n : UInt16) : Code :=
  (registered.find? fun c => c.toNumber == n).getD (other n)

@[simp] theorem toNumber_ofNumber (n : UInt16) : (ofNumber n).toNumber = n := by
  unfold ofNumber
  cases h : registered.find? fun c => c.toNumber == n with
  | none => rfl
  | some c => simpa using List.find?_some h

/-- The **reserved** codes, which an endpoint must not put into a close frame. -/
def isReserved : Code → Bool
  | noStatusReceived | abnormalClosure | tlsHandshake => true
  | _ => false

/-- What a code means, in words. -/
def meaning : Code → String
  | normalClosure => "Normal closure"
  | goingAway => "Endpoint is going away"
  | protocolError => "Protocol error"
  | unsupportedData => "Unsupported data"
  | noStatusReceived => "No status received"
  | abnormalClosure => "Abnormal closure"
  | invalidPayloadData => "Invalid payload data"
  | policyViolation => "Policy violation"
  | messageTooBig => "Message too big"
  | mandatoryExtension => "Mandatory extension"
  | internalServerError => "Internal server error"
  | serviceRestart => "Service restart"
  | tryAgainLater => "Try again later"
  | badGateway => "Bad gateway"
  | tlsHandshake => "TLS handshake failure"
  | other _ => "Other"

/-- The number of a code followed by its meaning in parentheses. -/
def describe (c : Code) : String :=
  toString c.toNumber.toNat ++ " (" ++ c.meaning ++ ")"

/-- The two bytes of a code in a close frame. -/
def bytes (c : Code) : Bytes := Bytes.bigEndian 2 c.toNumber.toNat

end Code

end Close

end WebSocket
