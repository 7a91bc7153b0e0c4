import WebSocket.Proofs.Connection.Scripts

/-!
# A connection without one of its operations

What an action does depends on the operations in progress only through the script that it was taken
from (`Connection.Effect.withCalls`). So an operation can be left out of a connection, and everybody
else goes on as before: each move that is not one of that operation is possible without it too, and
leads to the same connection without it (`Connection.step_without`). Only an operation that works on
the transport by itself is missed: while it does, the peer's bytes still have somebody to come to.

## Main results

* `Connection.Effect.withCalls`: an action **does not look at the operations** in progress.
* `Connection.step_without`: the moves of others are possible **without an operation** too.
-/

namespace WebSocket

namespace Connection

/-- Whether a move is one **of an operation**: the operation begins, acts, is given up, or its
answer is taken. -/
def Move.concerns (id : Nat) : Move → Bool
  | .start j _ | .act (.call j) | .collect j | .giveUp j => j == id
  | _ => false

variable {c c' c₁ : Connection} {task : TaskId} {action : Action} {rest script : Script}
  {move : Move} {id j : Nat}

/-! ### Other operations in progress -/

/-- The connection with **other operations** in progress. -/
def withCalls (c : Connection) (calls : List Call) : Connection := { c with calls := calls }

theorem HeadFails.withCalls {failure : Handshake.Failure} (h : HeadFails c failure)
    (calls : List Call) : HeadFails (c.withCalls calls) failure := by
  cases h with
  | tooLarge h => exact .tooLarge h
  | ended h hend he => exact .ended h hend he
  | failed h hend he => exact .failed h hend he

/-- **An action does not look at the operations** in progress, nor does it change them. -/
theorem Effect.withCalls (h : Effect c task action rest c₁ script) (calls : List Call) :
    Effect (c.withCalls calls) task action rest (c₁.withCalls calls) script := by
  cases h with
  | missResponse h => exact .missResponse (h.withCalls calls)
  | missRequest h => exact .missRequest (h.withCalls calls)
  | @awaitOutcome _ _ _ outcome h ho =>
      cases outcome <;> exact .awaitOutcome (c := c.withCalls calls) h ho
  | takeNone h => exact .takeNone h
  | @discard _ _ _ item _ _ h hs =>
      rw [hs]
      refine .discard h ?_
      match item with
      | .ok (.message _) | .ok (.ping _) | .ok (.pong _) | .ok (.close _) | .error _ => rfl
  | failToReject ht => exact .failToReject ht
  | _ => constructor <;> assumption

/-! ### One operation less -/

/-- The connection **without an operation**. -/
def without (c : Connection) (id : Nat) : Connection :=
  c.withCalls (c.calls.filter fun call => call.id != id)

/-- Everybody else follows the same script. -/
theorem script_without (hne : task ≠ .call id) : (c.without id).script task = c.script task := by
  cases task with
  | reader => rfl
  | call j => rw [script_of_filter rfl, if_neg fun heq => hne (congrArg TaskId.call heq)]

theorem answer?_without (hne : j ≠ id) : (c.without id).answer? j = c.answer? j := by
  rw [answer?, script_without fun heq => hne (TaskId.call.inj heq), ← answer?]

/-- Nothing is left out where **nobody has the number**. -/
theorem without_of_ids (h : ∀ call ∈ c.calls, call.id ≠ id) : c.without id = c := by
  have hall : c.calls.filter (fun call => call.id != id) = c.calls :=
    List.filter_eq_self.mpr fun call hcall => bne_iff_ne.mpr (h call hcall)
  rw [without, hall]
  rfl

/-- A new script does not bring an operation back. -/
theorem without_setScript (c : Connection) (task : TaskId) (script : Script) (id : Nat) :
    (c.setScript task script).without id = (c.without id).setScript task script := by
  cases task with
  | reader => rfl
  | call j =>
      simp only [without, withCalls, setScript, List.filter_map]
      congr 2
      refine congrArg (List.filter · c.calls) (funext fun call => ?_)
      simp only [Function.comp_apply]
      split <;> rfl

/-- Who is left out is not missed by a new script **for him**. -/
theorem without_setScript_self (c : Connection) (script : Script) (id : Nat) :
    (c.setScript (.call id) script).without id = c.without id := by
  rw [without_setScript]
  have hsame : ∀ call ∈ c.calls.filter (fun call => call.id != id),
      (if call.id == id then { call with script := script } else call) = call := by
    intro call hcall
    have hne := (List.mem_filter.mp hcall).2
    rw [bne, Bool.not_eq_true'] at hne
    rw [hne]
    rfl
  simp only [without, withCalls, setScript, List.map_congr_left hsame, List.map_id']

/-- An action of somebody else does the same **without an operation**. -/
theorem Effect.without (h : Effect c task action rest c₁ script) (id : Nat) :
    Effect (c.without id) task action rest (c₁.without id) script := by
  rw [Connection.without, Connection.without, h.calls_eq]
  exact h.withCalls _

theorem isFresh_without (h : c.isFresh j = true) : (c.without id).isFresh j = true := by
  simp only [isFresh, Bool.and_eq_true, List.all_eq_true] at h ⊢
  exact ⟨⟨fun call hcall => h.1.1 call (List.mem_filter.mp hcall).1, h.1.2⟩, h.2⟩

theorem mayStart_without {operation : Operation} (h : c.mayStart operation = true) :
    (c.without id).mayStart operation = true := by
  simp only [mayStart, List.all_eq_true] at h ⊢
  exact fun call hcall => h call (List.mem_filter.mp hcall).1

theorem isAlone_without (hne : j ≠ id) : (c.without id).isAlone j = c.isAlone j := by
  simp only [isAlone, without, withCalls, List.any_filter]
  refine congrArg (List.any c.calls) (funext fun call => ?_)
  by_cases heq : call.id = j
  · have hother : (call.id != id) = true := bne_iff_ne.mpr (heq ▸ hne)
    rw [hother, Bool.true_and]
  · have hnot : (call.id == j) = false := beq_eq_false_iff_ne.mpr heq
    rw [hnot, Bool.false_and, Bool.and_false]

theorem isSuspended_without (hne : task ≠ .call id) :
    (c.without id).isSuspended task = c.isSuspended task := by
  rw [isSuspended, script_without hne, ← isSuspended]

/-- Who does not work on the transport **does not hold it**. -/
theorem released_without (hscripted : c.Scripted)
    (hholds : holdsTransport (c.script (.call id)) = false) :
    (c.without id).released = c.released := by
  have hany : (c.without id).calls.any (fun call => holdsTransport call.script) =
      c.calls.any fun call => holdsTransport call.script := by
    rw [Bool.eq_iff_iff, List.any_eq_true, List.any_eq_true]
    constructor
    · rintro ⟨call, hcall, h⟩
      exact ⟨call, (List.mem_filter.mp hcall).1, h⟩
    · rintro ⟨call, hcall, h⟩
      refine ⟨call, List.mem_filter.mpr ⟨hcall, bne_iff_ne.mpr fun heq => ?_⟩, h⟩
      rw [script_of_call? (hscripted.call?_eq_some.mpr ⟨hcall, heq⟩), h] at hholds
      cases hholds
  rw [released, released, hany]
  rfl

/-- **The moves of others** are possible without an operation too, as long as the operation does not
work on the transport. -/
theorem Transition.without (h : Transition c move c') (hscripted : c.Scripted)
    (hholds : holdsTransport (c.script (.call id)) = false)
    (hother : move.concerns id = false) :
    Transition (c.without id) move (c'.without id) := by
  cases h with
  | @start j operation hfresh hmay hlight =>
      have hne : (j != id) = true := bne_iff_ne.mpr (ne_of_beq_false hother)
      have hfresh : (c.without id).isFresh j = true := isFresh_without hfresh
      have h := Transition.start hfresh (mayStart_without hmay) hlight
      simp only [Connection.without, Connection.withCalls, List.filter_append, List.filter_cons,
        List.filter_nil, hne, if_true] at h ⊢
      exact h
  | @act task action rest c₁ script hscript heffect =>
      have hne : task ≠ .call id := by
        rintro rfl
        exact ne_of_beq_false hother rfl
      rw [without_setScript]
      exact .act (by rw [script_without hne]; exact hscript) (heffect.without id)
  | @collect j a hanswer =>
      have hne : TaskId.call j ≠ .call id := fun heq => ne_of_beq_false hother (TaskId.call.inj heq)
      have h := Transition.collect ((script_without hne).trans hanswer)
      simp only [Connection.without, Connection.withCalls, List.filter_filter, Bool.and_comm] at h ⊢
      exact h
  | @giveUp j hsuspended =>
      have hne : j ≠ id := ne_of_beq_false hother
      have h := Transition.giveUp
        ((isSuspended_without fun heq => hne (TaskId.call.inj heq)).trans hsuspended)
      rw [isAlone_without hne] at h
      simp only [Connection.without, Connection.withCalls, List.filter_filter, Bool.and_comm] at h ⊢
      exact h
  | forget => exact .forget
  | read hpos hle => exact .read hpos hle
  | stopReader hcancelled h => exact .stopReader hcancelled h
  | peerSend hopen hheld => exact .peerSend hopen ((released_without hscripted hholds).trans hheld)
  | peerEnd hopen => exact .peerEnd hopen
  | peerGone => exact .peerGone
  | peerTake => exact .peerTake
  | stall => exact .stall
  | tick => exact .tick

theorem step_without (hreach : Reachable c) (hstep : c.step move = some c')
    (hholds : holdsTransport (c.script (.call id)) = false) (hother : move.concerns id = false) :
    (c.without id).step move = some (c'.without id) :=
  step_of_transition ((transition_of_step hstep).without hreach.scripted hholds hother)

/-- A move that begins no operation of a number in use, and is none of the other moves of that
operation, is one **of somebody else**. -/
theorem Transition.not_concerns (hmove : Transition c move c') (hact : move ≠ .act (.call id))
    (hgiveUp : move ≠ .giveUp id) (hcollect : move ≠ .collect id)
    (hbusy : c.script (.call id) ≠ []) : move.concerns id = false := by
  cases hmove with
  | start hfresh =>
      refine beq_eq_false_iff_ne.mpr ?_
      rintro rfl
      exact hbusy (script_of_isFresh hfresh)
  | @act task _ _ _ _ hscript =>
      cases task with
      | reader => rfl
      | call j => exact beq_eq_false_iff_ne.mpr fun heq => hact (heq ▸ rfl)
  | collect => exact beq_eq_false_iff_ne.mpr fun heq => hcollect (heq ▸ rfl)
  | giveUp => exact beq_eq_false_iff_ne.mpr fun heq => hgiveUp (heq ▸ rfl)
  | _ => rfl

/-- An operation that begins follows its first script, and all else is **as without it**. -/
theorem script_of_start {operation : Operation} (hstep : c.step (.start id operation) = some c') :
    c'.script (.call id) = Script.ofOperation c.options.fragmentSize operation ∧
      c'.without id = c := by
  cases transition_of_step hstep with
  | start hfresh =>
      have hids := ids_of_isFresh hfresh
      constructor
      · rw [script_of_append ⟨id, operation.claim, _⟩ rfl hids, if_pos rfl]
      · have hmine : (id != id) = false := bne_self_eq_false id
        simp only [without, withCalls, List.filter_append, List.filter_cons, List.filter_nil, hmine]
        exact (congrArg c.withCalls (List.append_nil _)).trans (without_of_ids hids)

end Connection

end WebSocket
