import WebSocket.Proofs.Connection.Refusals
import WebSocket.Proofs.Connection.Unhindered

/-!
# Every frame is accepted

A task hands its frames to the writer one by one, and the codec could refuse one when others of the
same message have been written already; it could even refuse the one that somebody else left in the
slot. That never happens: whoever makes frames makes such as the codec accepts, as the module on
frames that can be sent tells. So all that can go wrong with writing is that the writer is gone or
the transport fails, and both are reported as a closed connection.

## Main results

* `Connection.trace_handed?`: what is handed to the writer **is what is sent**.
* `Connection.WriterScript.next`: what an operation that writes can **fail with**.
* `Connection.accepted_of_run`: every frame is accepted, and the only failure to write is a closed
  connection.
-/

namespace WebSocket

/-- The operations that **write frames**. -/
def Operation.writes : Operation → Bool
  | .send _ | .sendFragmented .. | .ping _ | .close .. => true
  | _ => false

/-- The errors with which an operation that writes **may end**: it is refused, or the connection is
closed. -/
def ConnectionError.EndsWriter (e : ConnectionError) : Prop :=
  e = .connectionClosed ∨ e.isRefusal = true

namespace Connection

variable {c c' c₀ c₁ : Connection} {task : TaskId} {action : Action} {rest script : Script}
  {move : Move} {moves past before after : List Move} {id : Nat} {e : ConnectionError}
  {operation : Operation} {role : Role} {options : Options} {keys : Nat → Mask} {s : Sent}

/-! ### Handing frames over -/

/-- The frame that a move **hands to the writer**: the next one of a task at work, once the slot can
be made free for it. -/
def handed? (c : Connection) : Move → Option Sent
  | .act task =>
    match c.script task, c.writer with
    | .feed (f :: _) _ :: _, some w => if w.isBlocked then none else some ⟨task, f⟩
    | _, _ => none
  | _ => none

/-- A frame that is handed over is **the next one** of the task that acts. -/
theorem of_handed? (h : c.handed? move = some s) :
    move = .act s.task ∧
      ∃ more recovery rest, c.script s.task = .feed (s.frame :: more) recovery :: rest := by
  unfold handed? at h
  split at h
  · split at h
    · rename_i hscript _
      split at h
      · cases h
      · obtain rfl := Option.some.inj h
        exact ⟨rfl, _, _, _, hscript⟩
    · cases h
  · cases h

/-- A frame that is handed over **is sent**, and nothing else is sent. -/
theorem Transition.sent_eq (hmove : Transition c move c') (h : c.Sendable) :
    c'.sent = (c.handed? move).toList ++ c.sent := by
  cases hmove with
  | @act task _ _ _ _ hscript heffect =>
      rw [setScript_sent]
      cases heffect with
      | feed hw hroom => simp [handed?, hscript, hw, hroom]
      | feedInVain hw => simp [handed?, hscript, hw, unlock]
      | @makeRoom frames _ _ _ _ hw hfull =>
          cases frames <;> simp [handed?, hscript, hw, hfull]
      | @failToMakeRoom frames _ _ _ hw hfull =>
          cases frames <;> simp [handed?, hscript, hw, hfull, unlock]
      | refuseFrame hw _ he => exact absurd he (h.emptySlot_ne_error hw)
      | _ =>
          rw [handed?, hscript]
          rfl
  | _ => rfl

/-- The frames that were handed over are those that **were sent**, one by one. -/
theorem trace_handed? (hrun : (new role options keys).run moves = some c) :
    (new role options keys).trace handed? moves = c.sent.reverse := by
  refine run_induction (P := fun moves x =>
    (new role options keys).trace handed? moves = x.sent.reverse) rfl ?_ hrun
  intro before x move x' hbefore ih hstep
  have hsendable := ((reachable_new role options keys).run hbefore).sendable
  rw [trace_append hbefore, trace_singleton hstep, ih,
    (transition_of_step hstep).sent_eq hsendable, List.reverse_append]
  cases x.handed? move <;> rfl

/-! ### What an operation that writes fails with -/

/-- The actions of an operation **that writes**. -/
def isWriters : Action → Bool
  | .answer _ | .refuse | .ensureOpen | .beginClosing | .claimClose .. | .enlist _ | .startWaiting
  | .abandon | .lockWriter .. | .feed .. | .flush _ | .markClosed => true
  | _ => false

theorem OrdinaryScript.isWriters (h : OrdinaryScript .shared (action :: rest)) :
    isWriters action = true := by
  cases h with
  | sending h | pinging _ h | closing _ h => cases h <;> rfl
  | _ => rfl

/-- A script of an operation **that writes**, and what it fails with: it is refused, or it finds the
connection closed. -/
structure WriterScript (script : Script) : Prop where
  shape : OrdinaryScript .shared script
  reports : ∀ e, .answer (.failed e) ∈ script → e.EndsWriter

theorem WriterScript.ofOperation (size : Nat) (h : operation.writes = true) :
    WriterScript (Script.ofOperation size operation) := by
  have hshape := CallScript.ofOperation size operation
  have hshared : operation.claim = .shared := by
    cases operation <;> first | rfl | cases h
  rw [hshared] at hshape
  obtain ⟨hordinary⟩ := hshape
  refine ⟨hordinary, fun e he => ?_⟩
  cases operation with
  | ping payload =>
      simp only [Script.ofOperation] at he
      split at he
      · obtain rfl : e = .payloadTooLarge _ := by simpa using he
        exact .inr rfl
      · simp [Script.writing] at he
  | close code reason =>
      simp only [Script.ofOperation] at he
      split at he
      · obtain rfl : e = .reservedCloseCode _ := by simpa using he
        exact .inr rfl
      · simp at he
  | send | sendFragmented => simp [Script.ofOperation, Script.sending, Script.writing] at he
  | _ => cases h

theorem WriterScript.ne_nil (h : WriterScript script) : script ≠ [] :=
  (CallScript.ordinary h.shape).ne_nil

/-- An operation that writes goes on **as one**, where every frame can be sent. -/
theorem WriterScript.next (h : WriterScript (action :: rest))
    (heffect : Effect c (.call id) action rest c₁ script) (hsendable : c.Sendable) :
    WriterScript script := by
  refine ⟨h.shape.next heffect, ?_⟩
  have hrest : ∀ e, .answer (.failed e) ∈ rest → e.EndsWriter := fun e he =>
    h.reports e (List.mem_cons_of_mem _ he)
  have hlost : ∀ recovery e, .answer (.failed e) ∈ Script.recover recovery .connectionClosed rest →
      e.EndsWriter := by
    intro recovery e he
    cases recovery with
    | report => exact .inl (by simpa [Script.recover] using he)
    | stop => simp [Script.recover, Script.finishing] at he
    | ignore => exact hrest e he
  have hwriters := h.shape.isWriters
  cases heffect with
  | refuse | failOpen =>
      intro e he
      obtain rfl : e = .invalidState c.phase := by simpa using he
      exact .inr rfl
  | failClosing => simp
  | lockInVain | feedInVain | flushInVain => exact hlost _
  | failToMakeRoom | failToFlush => exact fun e he => hlost _ e (by simpa using he)
  | refuseFrame hw _ he => exact absurd he (hsendable.emptySlot_ne_error hw)
  | _ => first
    | (cases hwriters; done)
    | exact hrest
    | exact fun e he => hrest e (by simpa using he)

/-- An operation that writes **is followed as one** to the end of the run. -/
theorem writerScript_of_run (hbefore : (new role options keys).run before = some c₀)
    (hrun : c₀.run (.start id operation :: after) = some c) (hwrites : operation.writes = true)
    (hkept : ∀ m ∈ after, m ≠ .giveUp id ∧ m ≠ .collect id) :
    WriterScript (c.script (.call id)) := by
  obtain ⟨c₁, hfirst, hafter⟩ := run_cons_eq_some.mp hrun
  have hreach := ((reachable_new role options keys).run hbefore).step hfirst
  refine kept_induction (P := fun _ x => WriterScript (x.script (.call id))) ?_ ?_ hafter hkept
  · rw [(script_of_start hfirst).1]
    exact .ofOperation _ hwrites
  · intro past x move x' hpast hscript hgiveUp hcollect hstep
    by_cases hown : move = .act (.call id)
    · subst hown
      obtain ⟨action, rest, hcons⟩ := List.exists_cons_of_ne_nil hscript.ne_nil
      obtain ⟨x₁, script, hperform, rfl, hself⟩ := perform_of_step hstep hcons
      rw [hself]
      exact (hcons ▸ hscript).next (effect_of_perform hperform) (hreach.run hpast).sendable
    · rw [(transition_of_step hstep).script_of_others hown hgiveUp hcollect hscript.ne_nil]
      exact hscript

/-- An operation that is refused **has handed nothing over**. -/
theorem not_handed_of_refusal (hbefore : (new role options keys).run before = some c₀)
    (hrun : c₀.run (.start id operation :: after) = some c)
    (hkept : ∀ m ∈ after, m ≠ .giveUp id ∧ m ≠ .collect id)
    (hanswer : c.answer? id = some (.failed e)) (hrefusal : e.isRefusal = true) :
    ∀ s ∈ c₀.trace handed? (.start id operation :: after), s.task ≠ .call id := by
  have hreach := (reachable_new role options keys).run hbefore
  rintro ⟨_, f⟩ hs rfl
  obtain ⟨earlier, move, x, x', hfront, hearlier, hstep, hlook⟩ := exists_of_mem_trace hrun hs
  obtain ⟨rfl, -⟩ := of_handed? hlook
  cases deciding_of_run hreach hrun hkept with
  | admitted _ hnot =>
      rw [script_of_answer? hanswer] at hnot
      simp [Action.mayRefuse, Action.decides, Answer.isRefusal, hrefusal] at hnot
  | untouched h =>
      have hsame : (x'.without id).sent = (x.without id).sent :=
        congrArg sent (h.unchanged hfront hearlier hstep)
      have hsent := (transition_of_step hstep).sent_eq (hreach.run hearlier).sendable
      rw [hlook] at hsent
      exact List.cons_ne_self _ _ (hsent.symm.trans hsame)

/-- **Every frame is accepted.** Wherever a run of either end has led, the codec accepts the next
frame of everybody who is at work, and the frame that lies in the slot. The frames that were handed
over on the way are those that were sent, one by one and in the same order, and each of them can be
sent, with any codec and any key. So an operation that writes, and that nobody gives up, fails only
because the connection is closed, or it was refused and has handed nothing over. -/
theorem accepted_of_run (hrun : (new role options keys).run moves = some c) :
    (∀ {task f more recovery rest}, c.script task = .feed (f :: more) recovery :: rest →
      ∃ bytes, c.codec.encode (c.keys c.drawn) f = .ok bytes) ∧
    (∀ {w f}, c.writer = some w → w.slot = some f →
      ∃ bytes, c.codec.encode (c.keys c.drawn) f = .ok bytes) ∧
    (∀ s ∈ (new role options keys).trace handed? moves, s.frame.IsSendable) ∧
    (new role options keys).trace handed? moves = c.sent.reverse ∧
    ∀ {before id operation after c₀ e}, moves = before ++ .start id operation :: after →
      (new role options keys).run before = some c₀ → operation.writes = true →
        (∀ m ∈ after, m ≠ .giveUp id ∧ m ≠ .collect id) → c.answer? id = some (.failed e) →
          e = .connectionClosed ∨ (e.isRefusal = true ∧
            ∀ s ∈ c₀.trace handed? (.start id operation :: after), s.task ≠ .call id) := by
  have hsendable := ((reachable_new role options keys).run hrun).sendable
  have hsent := trace_handed? hrun
  refine ⟨fun {task _ _ _ _} hscript => ?_, fun hw hslot => hsendable.slot hw hslot c.codec _,
    fun s hs => hsendable.sent s (List.mem_reverse.mp (hsent ▸ hs)), hsent, ?_⟩
  · have hframes := hsendable.scripts task
    rw [hscript] at hframes
    exact (Script.isSendable_cons.mp hframes).1 _ (List.mem_cons_self ..) c.codec _
  · rintro before id operation after c₀ e rfl hbefore hwrites hkept hanswer
    obtain ⟨c₁, hbefore₁, hafter⟩ := run_append_eq_some.mp hrun
    obtain rfl := Option.some.inj (hbefore.symm.trans hbefore₁)
    have hscript := writerScript_of_run hbefore hafter hwrites hkept
    obtain hclosed | hrefusal := hscript.reports e
      (script_of_answer? hanswer ▸ List.mem_singleton_self _)
    · exact .inl hclosed
    · exact .inr ⟨hrefusal, not_handed_of_refusal hbefore hafter hkept hanswer hrefusal⟩

/-- A server **answers a ping**. Then the peer goes away while a message is sent, in front of its
last frame. -/
def halfwayMoves : List Move :=
  openingMoves ++ .collect 0 :: .peerSend [0x89, 0x81, 0, 0, 0, 0, 7] :: .read 7 ::
    (List.replicate 6 (.act .reader) ++
      .start 1 (.sendFragmented (Message.ofBytes (List.replicate 16385 0)) 8192) ::
        (List.replicate 4 (.act (.call 1)) ++ .peerGone :: List.replicate 3 (.act (.call 1))))

/-- Somebody sends another message, and is refused. -/
def belatedMoves : List Move := [.start 2 (.send (Message.ofBytes [1])), .act (.call 2)]

theorem answers_of_halfwayMoves :
    ((new .server {} fun _ => Mask.zero).run (halfwayMoves ++ belatedMoves)).map (fun c =>
      (c.answer? 1, c.answer? 2, c.sent.map Sent.task)) =
      some (some (.failed .connectionClosed), some (.failed (.invalidState .closed)),
        [.call 1, .call 1, .reader]) := by
  decide +kernel

/-- In that run the pong and all but the end of the message **are accepted**, and the other message
is not begun. -/
theorem accepted_of_halfwayMoves : ∃ c₁ c,
    (new .server {} fun _ => Mask.zero).run halfwayMoves = some c₁ ∧ c₁.run belatedMoves = some c ∧
    c.answer? 2 = some (.failed (.invalidState .closed)) ∧ c.sent.length = 3 ∧
    (∀ s ∈ c.sent, s.frame.IsSendable) ∧
    ∀ s ∈ c₁.trace handed? belatedMoves, s.task ≠ .call 2 := by
  obtain ⟨c, hrun, hfacts⟩ := Option.map_eq_some_iff.mp answers_of_halfwayMoves
  simp only [Prod.mk.injEq] at hfacts
  obtain ⟨-, hrefused, hsent⟩ := hfacts
  obtain ⟨c₁, hbefore, hbelated⟩ := run_append_eq_some.mp hrun
  obtain ⟨-, -, haccepted, htrace, hfails⟩ := accepted_of_run hrun
  refine ⟨c₁, c, hbefore, hbelated, hrefused, ?_, fun s hs => haccepted s ?_, ?_⟩
  · simpa using congrArg List.length hsent
  · rw [htrace]
    exact List.mem_reverse.mpr hs
  · obtain hclosed | ⟨-, hnothing⟩ := hfails rfl hbefore rfl (by simp) hrefused
    · cases hclosed
    · exact hnothing

end Connection

end WebSocket
