/-!
# The two ends of a connection

The **client** opens the connection and masks every frame it sends; the **server** answers and
never masks. Most rules of the protocol are stated for one end, and their counterpart for the other.
-/

namespace WebSocket

/-- An **end of a connection**. -/
inductive Role where
  | client
  | server
  deriving DecidableEq, Repr, Inhabited

namespace Role

/-- The end that talks to this one. -/
def opposite : Role → Role
  | client => server
  | server => client

@[simp] theorem opposite_opposite (r : Role) : r.opposite.opposite = r := by
  cases r <;> rfl

/-- The end in words. -/
def name : Role → String
  | client => "client"
  | server => "server"

end Role

end WebSocket
