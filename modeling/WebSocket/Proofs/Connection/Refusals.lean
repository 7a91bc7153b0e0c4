import WebSocket.Proofs.Connection.Endings
import WebSocket.Proofs.Connection.Without

/-!
# Refusals

An operation is refused when the connection is in the wrong phase or stage for it, or when its
payload is too large or its close code reserved. This is decided before the operation changes
anything: one that may still be refused has changed nothing (`Connection.Effect.undecided`), and one
that has gone further is never refused any more (`Connection.Effect.mayRefuse_eq_false`).

So a refused operation might as well not have been begun: the run without all of its moves is a run
too, and leads to the same connection (`Connection.refused_of_run`). What others have done
meanwhile, and what they can do afterwards, is the same in both runs.

## Main results

* `Connection.Reachable.offersNoRefusal`: nobody is refused **because of what the reader offers**.
* `Connection.Untouched`: what an operation that may still be refused **has done**.
* `Connection.refused_of_run`: a refused operation **changes nothing**.
-/

namespace WebSocket

/-- Whether an error **refuses** the operation that fails with it. -/
def ConnectionError.isRefusal : ConnectionError → Bool
  | .invalidState _ | .payloadTooLarge _ | .reservedCloseCode _ => true
  | _ => false

/-- Whether an answer is a refusal. -/
def Answer.isRefusal : Answer → Bool
  | .failed e => e.isRefusal
  | _ => false

/-- The actions that **decide** whether an operation is refused, and those of a refused one. -/
def Action.decides : Action → Bool
  | .answer a => a.isRefusal
  | .refuse | .ensureOpen | .beginClosing | .takeEvent | .beginDraining | .beginConnecting ..
  | .beginAccepting => true
  | _ => false

/-- The actions because of which somebody **may be refused**, now or later. -/
def Action.mayRefuse : Action → Bool
  | .offer item => (Connection.answerOfItem item).isRefusal
  | .establish _ a => a.isRefusal
  | action => action.decides

namespace Script

/-- Whether somebody may be refused because of a script. -/
def mayRefuse (script : Script) : Bool := script.any Action.mayRefuse

/-- Whether an operation is **still to be decided**, or refused: what stands behind its first action
is only for those that are not. -/
def isUndecided : Script → Bool
  | action :: rest => action.decides && !mayRefuse rest && !Connection.holdsTransport rest
  | [] => false

variable {rest : Script}

@[simp] theorem mayRefuse_nil : mayRefuse [] = false := rfl

@[simp] theorem mayRefuse_cons (action : Action) :
    mayRefuse (action :: rest) = (action.mayRefuse || mayRefuse rest) := rfl

theorem mayRefuse_append (script : Script) :
    mayRefuse (script ++ rest) = (mayRefuse script || mayRefuse rest) := List.any_append

theorem mayRefuse_recover {recovery : Recovery} {e : ConnectionError} (he : e.isRefusal = false)
    (hrest : mayRefuse rest = false) : mayRefuse (recover recovery e rest) = false := by
  cases recovery with
  | report => simp [recover, Action.mayRefuse, Action.decides, Answer.isRefusal, he]
  | stop => rfl
  | ignore => exact hrest

/-- What the reader tells of a frame **refuses nobody**. -/
theorem mayRefuse_ofAssembled (assembled : Except Fault (Option Assembled)) :
    mayRefuse (ofAssembled assembled) = false := by
  unfold ofAssembled
  split
  · rfl
  · rfl
  · rfl
  · unfold ofControl
    split
    · rfl
    · rfl
    · unfold ofClose
      split <;> rfl
    all_goals rfl

/-- An operation that is still to be decided **does not work on the transport**. -/
theorem not_holdsTransport_of_isUndecided {script : Script} (h : script.isUndecided = true) :
    Connection.holdsTransport script = false := by
  cases script with
  | nil => cases h
  | cons action rest =>
      simp only [isUndecided, Bool.and_eq_true, Bool.not_eq_true'] at h
      obtain ⟨⟨hdecides, -⟩, hrest⟩ := h
      cases action with
      | shutDown => cases hdecides
      | _ => exact hrest

/-- Every operation that may be refused is **still to be decided** when it begins. -/
theorem isUndecided_ofOperation {size : Nat} {operation : Operation}
    (h : mayRefuse (ofOperation size operation) = true) :
    isUndecided (ofOperation size operation) = true := by
  cases operation with
  | ping payload =>
      simp only [ofOperation]
      split <;> rfl
  | close code reason =>
      simp only [ofOperation]
      split <;> rfl
  | awaitPong | next | abort => cases h
  | _ => rfl

end Script

namespace Connection

variable {c c' c₀ c₁ : Connection} {task : TaskId} {action : Action} {rest script : Script}
  {move : Move} {moves past before : List Move} {id j : Nat} {e : ConnectionError}
  {operation : Operation} {role : Role} {options : Options} {keys : Nat → Mask}

/-! ### What an action decides -/

/-- Whoever waits for a pong **is not refused**. -/
theorem not_refusal_of_outcome? {w : Waiter} {now : Nat} (h : w.outcome? now = some (.error e)) :
    e.isRefusal = false := by
  unfold Waiter.outcome? at h
  split at h
  · cases h
  · cases h
    rfl
  · split at h
    · cases h
    · split at h <;> cases h
      rfl

theorem mayRefuse_judgeResponse (request : Handshake.Request) (head : Bytes) :
    (judgeResponse request head).mayRefuse = false := by
  unfold judgeResponse
  split
  · rfl
  · split <;> rfl

theorem mayRefuse_turnDown (failure : Handshake.Failure) :
    (turnDown failure).mayRefuse = false := by
  unfold turnDown
  split <;> rfl

theorem mayRefuse_judgeRequest (protocols : List String) (head : Bytes) :
    (judgeRequest protocols head).mayRefuse = false := by
  unfold judgeRequest
  split
  · exact mayRefuse_turnDown _
  · rfl

/-- Who cannot be refused any more **is never refused**, if what waits to be received refuses
nobody. -/
theorem Effect.mayRefuse_eq_false (heffect : Effect c task action rest c₁ script)
    (hevents : ∀ item ∈ c.events, (answerOfItem item).isRefusal = false)
    (h : Script.mayRefuse (action :: rest) = false) : script.mayRefuse = false := by
  rw [Script.mayRefuse_cons, Bool.or_eq_false_iff] at h
  obtain ⟨haction, hrest⟩ := h
  cases heffect with
  | lockInVain | feedInVain | flushInVain | refuseFrame => exact Script.mayRefuse_recover rfl hrest
  | failToMakeRoom | failToFlush => exact Script.mayRefuse_recover rfl hrest
  | readFrame => rw [Script.mayRefuse_append, Script.mayRefuse_ofAssembled, hrest]; rfl
  | takeNext _ hqueue =>
      have hitem := hevents _ (hqueue ▸ List.mem_cons_self ..)
      simp [Action.mayRefuse, Action.decides, hitem]
  | @awaitOutcome _ _ w outcome _ ho =>
      cases outcome with
      | ok latency => rfl
      | error e =>
          have he := not_refusal_of_outcome? ho
          simp [Action.mayRefuse, Action.decides, Answer.isRefusal, he]
  | judgeResponse => exact mayRefuse_judgeResponse _ _
  | missRequest => exact mayRefuse_turnDown _
  | judgeRequest => exact mayRefuse_judgeRequest _ _
  | establish => simpa [Action.mayRefuse, Action.decides] using haction
  | _ => first
    | (cases haction; done)
    | exact hrest
    | rfl

/-- An operation that is still to be decided **changes nothing** by an action behind which it may
still be refused. -/
theorem Effect.undecided (heffect : Effect c task action rest c₁ script)
    (hevents : ∀ item ∈ c.events, (answerOfItem item).isRefusal = false)
    (hundecided : Script.isUndecided (action :: rest) = true) (hmay : script.mayRefuse = true) :
    c₁ = c ∧ script.isUndecided = true := by
  simp only [Script.isUndecided, Bool.and_eq_true, Bool.not_eq_true'] at hundecided
  obtain ⟨⟨hdecides, hrest⟩, -⟩ := hundecided
  have hgone : script = rest → False := by
    rintro rfl
    exact absurd (hmay.symm.trans hrest) nofun
  cases heffect with
  | refuse | failOpen | failClosing | takeEarly | failToDrain | connectAgain | acceptAgain =>
      exact ⟨rfl, rfl⟩
  | passOpen | beginClosing => exact absurd rfl hgone
  | takeItem _ hqueue =>
      have hitem := hevents _ (hqueue ▸ List.mem_cons_self ..)
      simp [Action.mayRefuse, Action.decides, hitem] at hmay
  | takeLast | takeNone | beginDraining | drainNothing | beginConnecting | failToBuild
  | beginAccepting => cases hmay
  | _ => cases hdecides

/-! ### The reader refuses nobody -/

/-- What the reader offers, and what waits to be received, **refuses nobody**. -/
structure OffersNoRefusal (c : Connection) : Prop where
  reader : c.reader.mayRefuse = false
  events : ∀ item ∈ c.events, (answerOfItem item).isRefusal = false

theorem OffersNoRefusal.transition (h : c.OffersNoRefusal) (hreach : Reachable c)
    (hmove : Transition c move c') : c'.OffersNoRefusal := by
  obtain ⟨task, action, rest, c₁, script, rfl, hscript, heffect, rfl⟩ | hact := hmove.act_or
  · constructor
    · obtain ⟨rfl, hself⟩ | ⟨-, hsame⟩ | ⟨-, -, hstarted, -⟩ := heffect.script_after hscript .reader
      · rw [← script_reader, hself]
        refine heffect.mayRefuse_eq_false h.events ?_
        rw [← hscript]
        exact h.reader
      · rw [← script_reader, hsame]
        exact h.reader
      · rw [← script_reader, hstarted]
        rfl
    · rw [setScript_events]
      cases heffect.queueChange with
      | rests _ hevents => exact hevents ▸ h.events
      | takes _ _ hevents =>
          exact fun item hitem => h.events item (hevents ▸ List.mem_cons_of_mem _ hitem)
      | @offers item hoffers _ _ hevents =>
          subst hoffers
          obtain rfl := hreach.scripted.reader_of_offer hscript
          have hreader := h.reader
          rw [← script_reader, hscript, Script.mayRefuse_cons, Bool.or_eq_false_iff] at hreader
          rw [hevents]
          exact List.forall_mem_append.mpr ⟨h.events, List.forall_mem_singleton.mpr hreader.1⟩
  · have hreader : c'.reader.mayRefuse = false := by
      obtain hsame | hgone | ⟨_, _, -, hcall, -⟩ := hmove.script_of_ne_act hact .reader
      · rw [← script_reader, hsame]
        exact h.reader
      · rw [← script_reader, hgone]
        rfl
      · cases hcall
    cases hmove with
    | act => exact absurd rfl (hact _)
    | _ => exact ⟨hreader, h.events⟩

/-- **Nobody is refused because of what the reader offers**: an error in the queue is a fault. -/
theorem Reachable.offersNoRefusal (h : Reachable c) : c.OffersNoRefusal :=
  h.invariant (fun _ _ _ => ⟨rfl, fun _ hitem => nomatch hitem⟩) fun hreach h hmove =>
    h.transition hreach hmove

/-! ### An operation that may still be refused -/

theorem CallScript.ne_nil {claim : Claim} (h : CallScript claim script) : script ≠ [] := by
  rintro rfl
  cases h with
  | ordinary h => cases h
  | negotiating h => cases h

/-- What an operation that may still be refused **has done** to the connection: nothing. The run
without its moves leads to the same connection without the operation, and none of its actions has
changed anything. -/
structure Untouched (c₀ : Connection) (id : Nat) (past : List Move) (c : Connection) : Prop where
  undecided : (c.script (.call id)).isUndecided = true
  erased : c₀.run (past.filter fun m => !m.concerns id) = some (c.without id)
  unchanged : ∀ {earlier x x'}, earlier ++ [.act (.call id)] <+: past → c₀.run earlier = some x →
    x.step (.act (.call id)) = some x' → x'.without id = x.without id

/-- **Where an operation stands** since it began: nothing was changed, or it is not refused any
more. -/
inductive Deciding (c₀ : Connection) (id : Nat) (past : List Move) (c : Connection) : Prop
  | untouched (h : Untouched c₀ id past c)
  | admitted (hbusy : c.script (.call id) ≠ []) (h : (c.script (.call id)).mayRefuse = false)

theorem Deciding.busy (h : Deciding c₀ id past c) : c.script (.call id) ≠ [] := by
  cases h with
  | untouched h =>
      intro hnil
      have hundecided := h.undecided
      rw [hnil] at hundecided
      cases hundecided
  | admitted hbusy => exact hbusy

/-- An operation that has just begun **has done nothing**. -/
theorem deciding_of_start (hstep : c₀.step (.start id operation) = some c) :
    Deciding c₀ id [.start id operation] c := by
  obtain ⟨hscript, hwithout⟩ := script_of_start hstep
  cases hmay : (c.script (.call id)).mayRefuse with
  | false =>
      refine .admitted ?_ hmay
      rw [hscript]
      exact (CallScript.ofOperation _ operation).ne_nil
  | true =>
      refine .untouched ⟨?_, ?_, fun {earlier x x'} hprefix => ?_⟩
      · rw [hscript] at hmay ⊢
        exact Script.isUndecided_ofOperation hmay
      · have hmine : (Move.start id operation).concerns id = true := beq_self_eq_true id
        rw [List.filter_singleton, hmine, hwithout]
        rfl
      · obtain heq | hearlier := List.prefix_concat_iff.mp
          (show earlier ++ [.act (.call id)] <+: [] ++ [.start id operation] from hprefix)
        · cases (List.append_inj' heq rfl).2
        · exact absurd (List.prefix_nil.mp hearlier) (List.append_ne_nil_of_right_ne_nil _ nofun)

/-- **An action of the operation** changes nothing, or it is not refused any more. -/
theorem Deciding.act (h : Deciding c₀ id past c) (hreach : Reachable c)
    (hpast : c₀.run past = some c) (hstep : c.step (.act (.call id)) = some c') :
    Deciding c₀ id (past ++ [.act (.call id)]) c' := by
  obtain ⟨action, rest, hscript⟩ := List.exists_cons_of_ne_nil h.busy
  obtain ⟨c₁, script, hperform, rfl, hself⟩ := perform_of_step hstep hscript
  have heffect := effect_of_perform hperform
  have hevents := hreach.offersNoRefusal.events
  obtain ⟨_, claim, -, -, hshape⟩ := hreach.scripted.callScript hscript
  have hadmitted : script.mayRefuse = false →
      Deciding c₀ id (past ++ [.act (.call id)]) (c₁.setScript (.call id) script) := fun hnot =>
    .admitted (by rw [hself]; exact (hshape.next heffect).ne_nil) (by rw [hself]; exact hnot)
  cases h with
  | admitted _ hnot =>
      rw [hscript] at hnot
      exact hadmitted (heffect.mayRefuse_eq_false hevents hnot)
  | untouched h =>
      have hundecided := h.undecided
      rw [hscript] at hundecided
      cases hmay : script.mayRefuse with
      | false => exact hadmitted hmay
      | true =>
          obtain ⟨rfl, hstill⟩ := heffect.undecided hevents hundecided hmay
          have hwithout : (c₁.setScript (.call id) script).without id = c₁.without id :=
            without_setScript_self c₁ script id
          refine .untouched
            ⟨by rw [hself]; exact hstill, ?_, fun {earlier x x'} hprefix hx hx' => ?_⟩
          · have hmine : (Move.act (.call id)).concerns id = true := beq_self_eq_true id
            rw [List.filter_append, List.filter_singleton, hmine, hwithout]
            simpa using h.erased
          · obtain heq | hearlier := List.prefix_concat_iff.mp hprefix
            · obtain ⟨rfl, -⟩ := List.append_inj' heq rfl
              obtain rfl := Option.some.inj (hpast.symm.trans hx)
              obtain rfl := Option.some.inj (hstep.symm.trans hx')
              exact hwithout
            · exact h.unchanged hearlier hx hx'

/-- **A move of somebody else** might as well be made without the operation. -/
theorem Deciding.beside (h : Deciding c₀ id past c) (hreach : Reachable c)
    (hstep : c.step move = some c') (hact : move ≠ .act (.call id)) (hgiveUp : move ≠ .giveUp id)
    (hcollect : move ≠ .collect id) : Deciding c₀ id (past ++ [move]) c' := by
  have hbusy := h.busy
  have hsame := (transition_of_step hstep).script_of_others hact hgiveUp hcollect hbusy
  cases h with
  | admitted _ hnot => exact .admitted (hsame ▸ hbusy) (hsame ▸ hnot)
  | untouched h =>
      have hundecided := h.undecided
      have hholds := Script.not_holdsTransport_of_isUndecided hundecided
      have hother : move.concerns id = false :=
        (transition_of_step hstep).not_concerns hact hgiveUp hcollect hbusy
      refine .untouched ⟨hsame ▸ hundecided, ?_, fun {earlier x x'} hprefix => ?_⟩
      · rw [List.filter_append, List.filter_singleton, hother]
        exact run_append_eq_some.mpr ⟨_, h.erased, run_cons_eq_some.mpr
          ⟨_, step_without hreach hstep hholds hother, rfl⟩⟩
      · obtain heq | hearlier := List.prefix_concat_iff.mp hprefix
        · exact absurd (List.singleton_inj.mp (List.append_inj' heq rfl).2).symm hact
        · exact h.unchanged hearlier

/-- **Where an operation stands** at the end of a run that begins with it. -/
theorem deciding_of_run (hreach : Reachable c₀)
    (hrun : c₀.run (.start id operation :: moves) = some c)
    (hkept : ∀ m ∈ moves, m ≠ .giveUp id ∧ m ≠ .collect id) :
    Deciding c₀ id (.start id operation :: moves) c := by
  obtain ⟨c₁, hfirst, hmoves⟩ := run_cons_eq_some.mp hrun
  refine kept_induction (P := fun moves x => Deciding c₀ id (.start id operation :: moves) x)
    (deciding_of_start hfirst) ?_ hmoves hkept
  intro before x move x' hbefore hdeciding hgiveUp hcollect hstep
  have hpast : c₀.run (.start id operation :: before) = some x :=
    run_cons_eq_some.mpr ⟨c₁, hfirst, hbefore⟩
  by_cases hown : move = .act (.call id)
  · subst hown
    exact hdeciding.act (hreach.run hpast) hpast hstep
  · exact hdeciding.beside (hreach.run hpast) hstep hown hgiveUp hcollect

/-- **A refused operation changes nothing.** When an operation fails because of the phase of the
connection, because its payload is too large or because its close code is reserved, then each of its
actions has left everything but the operation itself as it was. Without its moves the run is
possible too, and leads to the same connection without the operation: the connection that is there
when its answer is taken. Everybody else has had the same answers. -/
theorem refused_of_run (hbefore : (new role options keys).run before = some c₀)
    (hrun : c₀.run (.start id operation :: moves) = some c)
    (hkept : ∀ m ∈ moves, m ≠ .giveUp id ∧ m ≠ .collect id)
    (hanswer : c.answer? id = some (.failed e)) (hrefusal : e.isRefusal = true) :
    (∀ {earlier x x'}, earlier ++ [.act (.call id)] <+: .start id operation :: moves →
      c₀.run earlier = some x → x.step (.act (.call id)) = some x' →
        x'.without id = x.without id) ∧
    c₀.run (moves.filter fun m => !m.concerns id) = some (c.without id) ∧
    c.step (.collect id) = some (c.without id) ∧
    ∀ j, j ≠ id → (c.without id).answer? j = c.answer? j := by
  have hreach := (reachable_new role options keys).run hbefore
  have hscript := script_of_answer? hanswer
  have hcollect : c.step (.collect id) = some (c.without id) := by
    refine if_pos ?_
    rw [hanswer]
    rfl
  cases deciding_of_run hreach hrun hkept with
  | admitted _ hnot =>
      rw [hscript] at hnot
      simp [Action.mayRefuse, Action.decides, Answer.isRefusal, hrefusal] at hnot
  | untouched h =>
      have herased := h.erased
      have hmine : (!(Move.start id operation).concerns id) = false := by
        simp [Move.concerns]
      rw [List.filter_cons, hmine] at herased
      exact ⟨h.unchanged, herased, hcollect, fun j hne => answer?_without hne⟩

/-- The moves by which a server opens, and somebody begins to close it. -/
def leavingMoves : List Move := openingMoves ++ [.collect 0, .start 1 (.close .normalClosure "")]

/-- The close frame is written after the phase has moved on. -/
def leaverMoves : List Move := List.replicate 6 (.act (.call 1))

/-- Between two actions of the one who closes, somebody who wants to send looks at the phase, and is
refused. -/
def overtakenMoves : List Move :=
  .act (.call 1) :: .act (.call 2) :: List.replicate 5 (.act (.call 1))

/-- Somebody sends while the connection is being closed. -/
theorem answers_of_overtakenMoves :
    (((new .server {} fun _ => Mask.zero).run leavingMoves).bind fun c₀ =>
      (c₀.run (.start 2 (.send (Message.ofBytes [1])) :: overtakenMoves)).map fun c =>
        (c.answer? 2, c.answer? 1, c.sent.length)) =
      some (some (.failed (.invalidState .closing)), some .done, 1) := by
  decide +kernel

/-- Who is refused between two actions of another one **is not missed**: the connection is closed
all the same. -/
theorem refused_of_overtakenMoves : ∃ c₀ c,
    (new .server {} fun _ => Mask.zero).run leavingMoves = some c₀ ∧
    c₀.run (.start 2 (.send (Message.ofBytes [1])) :: overtakenMoves) = some c ∧
    c.answer? 2 = some (.failed (.invalidState .closing)) ∧
    c₀.run leaverMoves = some (c.without 2) ∧
    c.step (.collect 2) = some (c.without 2) ∧
    (c.without 2).answer? 1 = some .done := by
  obtain ⟨c₀, hbefore, hrest⟩ := Option.bind_eq_some_iff.mp answers_of_overtakenMoves
  obtain ⟨c, hrun, hfacts⟩ := Option.map_eq_some_iff.mp hrest
  simp only [Prod.mk.injEq] at hfacts
  obtain ⟨hanswer, hdone, -⟩ := hfacts
  have hkept : ∀ m ∈ overtakenMoves, m ≠ .giveUp 2 ∧ m ≠ .collect 2 := by
    simp [overtakenMoves]
  obtain ⟨-, herased, hcollect, hothers⟩ := refused_of_run hbefore hrun hkept hanswer rfl
  exact ⟨c₀, c, hbefore, hrun, hanswer, herased, hcollect, (hothers 1 nofun).trans hdone⟩

end Connection

end WebSocket
