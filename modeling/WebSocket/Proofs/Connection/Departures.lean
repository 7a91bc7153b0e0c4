import WebSocket.Proofs.Connection.Sending
import WebSocket.Proofs.Frame.RoundTrip

/-!
# Which bytes go out

The bytes that the peer has taken, then those that wait in the transport, then those that the writer
holds with the frame in its slot, are a greeting, which was written in the handshake, and behind it
the encoded frames that were handed to the writer (`Connection.Departing`). No byte is lost, added
or overtaken on the way.

## Main results

* `Connection.departing_of_run`: what goes out is **the greeting and the frames**, encoded one
  behind the other.
-/

namespace WebSocket

namespace Connection

variable {c c' c₁ : Connection} {task : TaskId} {action : Action} {rest script : Script}
  {move : Move} {moves : List Move} {role : Role} {options : Options} {keys : Nat → Mask}
  {departed greeted : Bytes}

/-- The bytes that the peer **takes** in a move. -/
def departure? (c : Connection) : Move → Option Bytes
  | .peerTake count => some (c.transport.outgoing.take count)
  | _ => none

/-- The bytes that the peer takes **in a run**. -/
def departures (c : Connection) (moves : List Move) : Bytes := (c.trace departure? moves).flatten

/-- The head that a connection writes in a move. -/
def greets? (c : Connection) : Move → Option Bytes
  | .act task => c.greeting? task
  | _ => none

/-- The heads that a connection **writes in its handshake**, in a run. -/
def greetings (c : Connection) (moves : List Move) : Bytes := (c.trace greets? moves).flatten

theorem flatten_toList {o : Option Bytes} : o.toList.flatten = o.getD [] := by
  cases o <;> simp

theorem departures_concat {before : List Move} (hrun : c.run before = some c₁)
    (hstep : c₁.step move = some c') :
    c.departures (before ++ [move]) = c.departures before ++ (c₁.departure? move).getD [] := by
  rw [departures, trace_append hrun, trace_singleton hstep, List.flatten_append, flatten_toList]
  rfl

theorem greetings_concat {before : List Move} (hrun : c.run before = some c₁)
    (hstep : c₁.step move = some c') :
    c.greetings (before ++ [move]) = c.greetings before ++ (c₁.greets? move).getD [] := by
  rw [greetings, trace_append hrun, trace_singleton hstep, List.flatten_append, flatten_toList]
  rfl

/-- **What has gone out**, given the bytes that the peer has taken and the heads of the
handshake. -/
structure Departing (departed greeted : Bytes) (c : Connection) : Prop where
  drawn : c.keysDrawn = c.sentFrames.countP (Codec.drawsKey c.role)
  bytes : ∃ written, c.codec.encodeAll c.keys 0 c.sentFrames = .ok written ∧
    departed ++ (c.transport.outgoing ++ c.held) = greeted ++ written

/-- The source of masking keys **stays the same**. -/
theorem Transition.keys_eq (hmove : Transition c move c') : c'.keys = c.keys := by
  cases hmove with
  | @act task _ _ _ _ _ heffect =>
      have hsame : ∀ (c : Connection) script, (c.setScript task script).keys = c.keys := by
        intro c script
        cases task <;> rfl
      rw [hsame]
      cases heffect <;> rfl
  | _ => rfl

/-- A move that hands no frame over keeps the account, if it keeps the bytes. -/
theorem Departing.keep (h : Departing departed greeted c)
    (hsettings : c'.role = c.role ∧ c'.options = c.options) (hkeys : c'.keys = c.keys)
    (hsent : c'.sent = c.sent) (hdrawn : c'.keysDrawn = c.keysDrawn) {more : Bytes}
    (hbytes : more ++ (c'.transport.outgoing ++ c'.held) = c.transport.outgoing ++ c.held) :
    Departing (departed ++ more) greeted c' := by
  obtain ⟨written, hwritten, hgone⟩ := h.bytes
  refine ⟨?_, written, ?_, ?_⟩
  · rw [hdrawn, sentFrames_congr hsent, hsettings.1, h.drawn]
  · rw [codec, hsettings.1, hsettings.2, hkeys, sentFrames_congr hsent]
    exact hwritten
  · rw [List.append_assoc, hbytes, hgone]

/-- **One action** keeps the account, with the head that it writes. -/
theorem Departing.sendStep (h : Departing departed greeted c)
    (hsettings : c'.role = c.role ∧ c'.options = c.options) (hkeys : c'.keys = c.keys)
    (hsent : c'.sent = c₁.sent) (hdrawn : c'.keysDrawn = c₁.keysDrawn)
    (hbytes : c'.transport.outgoing ++ c'.held = c₁.transport.outgoing ++ c₁.held)
    (hstep : SendStep c task script c₁) :
    Departing departed (greeted ++ (c.greeting? task).getD []) c' := by
  have hkept : c.greeting? task = none → c₁.sent = c.sent → c₁.keysDrawn = c.keysDrawn →
      c₁.transport.outgoing ++ c₁.held = c.transport.outgoing ++ c.held →
        Departing departed (greeted ++ (c.greeting? task).getD []) c' := by
    intro hgreeting hsent₁ hdrawn₁ hbytes₁
    rw [hgreeting, Option.getD_none, List.append_nil, ← List.append_nil departed]
    exact h.keep hsettings hkeys (hsent.trans hsent₁) (hdrawn.trans hdrawn₁) (hbytes.trans hbytes₁)
  obtain ⟨written, hwritten, hgone⟩ := h.bytes
  cases hstep with
  | rests _ hgreeting _ hsent₁ hdrawn₁ hbytes₁ => exact hkept hgreeting hsent₁ hdrawn₁ hbytes₁
  | takes _ _ hgreeting _ hsent₁ hdrawn₁ hbytes₁ => exact hkept hgreeting hsent₁ hdrawn₁ hbytes₁
  | finishes _ hgreeting _ _ hsent₁ hdrawn₁ hbytes₁ => exact hkept hgreeting hsent₁ hdrawn₁ hbytes₁
  | @greets head _ hgreeting _ _ hnone hsent₁ hdrawn₁ hheld hbytes₁ =>
      have hempty : c.sentFrames = [] := by
        rw [sentFrames, hnone]
        rfl
      have hsame := sentFrames_congr (hsent.trans hsent₁)
      rw [hempty] at hwritten
      obtain rfl : written = [] := (Except.ok.inj hwritten).symm
      refine ⟨?_, [], ?_, ?_⟩
      · rw [hdrawn, hdrawn₁, hsame, hsettings.1, h.drawn]
      · rw [hsame, hempty]
        rfl
      · rw [hheld, List.append_nil, List.append_nil] at hgone
        rw [hbytes, hbytes₁, hgreeting, Option.getD_some, List.append_nil, ← hgone,
          List.append_assoc]
  | @feeds f more bytes _ hgreeting _ _ hencode hsent₁ hdrawn₁ hbytes₁ =>
      have hframes := sentFrames_cons (hsent.trans hsent₁)
      refine ⟨?_, written ++ bytes, ?_, ?_⟩
      · rw [hdrawn, hdrawn₁, hframes, hsettings.1, List.countP_append, List.countP_singleton,
          ← h.drawn]
        split <;> rfl
      · rw [hframes, codec, hsettings.1, hsettings.2, hkeys]
        refine Codec.encodeAll_concat hwritten ?_
        rw [Nat.zero_add]
        exact h.drawn ▸ hencode
      · rw [hbytes, hbytes₁, hgreeting, Option.getD_none, List.append_nil, ← List.append_assoc,
          hgone, List.append_assoc]

/-- **Every move** keeps the account. -/
theorem Departing.transition (h : Departing departed greeted c) (hsends : c.Sends)
    (hmove : Transition c move c') :
    Departing (departed ++ (c.departure? move).getD [])
      (greeted ++ (c.greets? move).getD []) c' := by
  have hsettings := hmove.settings
  have hkeys := hmove.keys_eq
  obtain ⟨task, action, rest, c₁, script, rfl, hscript, heffect, rfl⟩ | hact := hmove.act_or
  · have hheld : (c₁.setScript task script).held = c₁.held := by
      cases task <;> rfl
    have hdrawn : (c₁.setScript task script).keysDrawn = c₁.keysDrawn := by
      cases task <;> rfl
    rw [show c.departure? (.act task) = none from rfl, Option.getD_none, List.append_nil,
      show c.greets? (.act task) = c.greeting? task from rfl]
    refine h.sendStep hsettings hkeys (setScript_sent ..) hdrawn ?_ (hsends hscript heffect)
    rw [setScript_transport, hheld]
  · have hnone : c.greets? move = none := by
      cases move with
      | act task => exact absurd rfl (hact task)
      | _ => rfl
    rw [hnone, Option.getD_none, List.append_nil]
    cases hmove with
    | act => exact absurd rfl (hact _)
    | @peerTake count =>
        refine h.keep hsettings hkeys rfl rfl ?_
        rw [show c.departure? (.peerTake count) = some (c.transport.outgoing.take count) from rfl,
          Option.getD_some, ← List.append_assoc, List.take_append_drop]
        rfl
    | _ => exact h.keep hsettings hkeys rfl rfl rfl

/-- **What goes out** of a connection in use is the greeting of its handshake and, behind it, the
frames that were handed to the writer, encoded one behind the other. -/
theorem departing_of_run (hrun : (new role options keys).run moves = some c)
    (hsteady : (new role options keys).steadily moves = true) (hphase : c.phase.isEnding = false)
    (hunbroken : c.transport.broken = false) :
    Departing ((new role options keys).departures moves) ((new role options keys).greetings moves)
      c := by
  refine steady_induction (P := fun moves x => Departing ((new role options keys).departures moves)
    ((new role options keys).greetings moves) x) ?_ ?_ hrun hsteady hphase hunbroken
  · exact ⟨rfl, [], rfl, rfl⟩
  · intro before c₁ move c₂ hbefore hsteady₁ hintact h hstep _ _
    have hreach := (reachable_new role options keys).run hbefore
    have hkept := h.transition (hsteady₁.sends hreach hintact) (transition_of_step hstep)
    rw [departures_concat hbefore hstep, greetings_concat hbefore hstep]
    exact hkept

end Connection

end WebSocket
