/-!
# Opcodes

The low four bits of a frame's first byte say what the frame is. Three opcodes carry data, three
are control frames, and the other ten values are not assigned.

## Main results

* `Opcode.ofCode?_code`, `Opcode.code_ofCode?`: reading a code and writing it are inverse.
-/

namespace WebSocket

/-- What a **frame** is for. -/
inductive Opcode where
  | continuation
  | text
  | binary
  | close
  | ping
  | pong
  deriving DecidableEq, Repr, Inhabited

namespace Opcode

/-- The number that stands for the opcode on the wire. -/
def code : Opcode → UInt8
  | continuation => 0x0
  | text => 0x1
  | binary => 0x2
  | close => 0x8
  | ping => 0x9
  | pong => 0xA

/-- The opcode with a given number, if that number is assigned. -/
def ofCode? (n : UInt8) : Option Opcode :=
  if n = 0x0 then some continuation
  else if n = 0x1 then some text
  else if n = 0x2 then some binary
  else if n = 0x8 then some close
  else if n = 0x9 then some ping
  else if n = 0xA then some pong
  else none

@[simp] theorem ofCode?_code (o : Opcode) : ofCode? o.code = some o := by
  cases o <;> rfl

theorem code_ofCode? (n : UInt8) (o : Opcode) (h : ofCode? n = some o) : o.code = n := by
  unfold ofCode? at h
  repeat' split at h
  all_goals first
    | (cases h; simp_all [code])
    | exact absurd h (by simp)

/-- Close, ping and pong frames **control** the connection; the others carry messages. -/
def isControl : Opcode → Bool
  | close | ping | pong => true
  | continuation | text | binary => false

/-- The opcode in words. -/
def name : Opcode → String
  | continuation => "Continuation"
  | text => "Text"
  | binary => "Binary"
  | close => "Close"
  | ping => "Ping"
  | pong => "Pong"

end Opcode

end WebSocket
