import WebSocket.Proofs.Connection.Arrivals

/-!
# What operations report

An operation of a connection in use fails with a fault only if the writer was to encode a frame that
cannot be sent, or if the operation received the fault that ended the stream. The first never
happens, and the second not as long as only events were offered.

## Main results

* `Connection.faultless_of_run`: no operation **fails with a fault**.
-/

namespace WebSocket

/-- The actions with which an operation **fails with a fault**, now or later. -/
def Action.isFaulty : Action → Bool
  | .answer (.failed (.codec _)) | .establish _ (.failed (.codec _)) => true
  | _ => false

theorem Operation.not_faulty_of_script (size : Nat) (operation : Operation) :
    ∀ b ∈ Script.ofOperation size operation, b.isFaulty = false := by
  cases operation with
  | ping payload =>
      simp only [Script.ofOperation]
      split <;> simp [Action.isFaulty, Script.writing]
  | close code reason =>
      simp only [Script.ofOperation]
      split <;> simp [Action.isFaulty]
  | _ =>
      simp [Script.ofOperation, Script.sending, Script.writing, Script.finishing, Action.isFaulty]

namespace Connection

variable {c c' c₁ : Connection} {task : TaskId} {action : Action} {rest script : Script}
  {move : Move} {moves : List Move} {role : Role} {options : Options} {keys : Nat → Mask}

/-- **No operation** has failed with a fault, or is about to. -/
def Faultless (c : Connection) : Prop := ∀ id, ∀ b ∈ c.script (.call id), b.isFaulty = false

theorem not_faulty_recover {recovery : Recovery} {e : ConnectionError}
    (he : ∀ fault, e ≠ .codec fault) (hrest : ∀ b ∈ rest, b.isFaulty = false) :
    ∀ b ∈ Script.recover recovery e rest, b.isFaulty = false := by
  cases recovery with
  | ignore => exact hrest
  | stop => simp [Script.recover, Script.finishing, Action.isFaulty]
  | report =>
      cases e with
      | codec fault => exact absurd rfl (he fault)
      | _ => simp [Script.recover, Action.isFaulty]

theorem not_faulty_turnDown (failure : Handshake.Failure) :
    ∀ b ∈ turnDown failure, b.isFaulty = false := by
  unfold turnDown
  split <;> simp [Action.isFaulty]

/-- An operation goes on **without a fault**, if all frames can be sent and only events wait to be
received. -/
theorem Effect.not_faulty (heffect : Effect c task action rest c₁ script)
    (haction : action.isSteady = true) (hunbroken : c.transport.broken = false)
    (hkept : ∀ b ∈ action :: rest, b.isFaulty = false)
    (hsendable : c.Sendable) (hevents : ∀ item ∈ c.events, ∃ e, item = .ok e) :
    ∀ b ∈ script, b.isFaulty = false := by
  obtain ⟨-, hrest⟩ := List.forall_mem_cons.mp hkept
  have hplain : ∀ {b : Action}, b.isFaulty = false → ∀ b' ∈ b :: rest, b'.isFaulty = false :=
    fun hb => List.forall_mem_cons.mpr ⟨hb, hrest⟩
  have hitem : ∀ {item more}, c.events = item :: more →
      ∀ b ∈ [Action.answer (answerOfItem item)], b.isFaulty = false := by
    intro item more hqueue b hb
    obtain ⟨e, rfl⟩ := hevents item (by rw [hqueue]; exact List.mem_cons_self ..)
    obtain rfl := List.mem_singleton.mp hb
    rfl
  cases heffect with
  | queueUp => exact hkept
  | startWriting => exact hplain rfl
  | lockInVain => exact not_faulty_recover (fun _ => nofun) hrest
  | fedAll => exact hplain rfl
  | feedInVain => exact not_faulty_recover (fun _ => nofun) hrest
  | makeRoom => exact hkept
  | failToMakeRoom _ _ ht => exact absurd ht (Transport.write_ne_broken hunbroken)
  | refuseFrame hw _ he => exact absurd he (hsendable.emptySlot_ne_error hw)
  | feed => exact hplain rfl
  | flushInVain => exact not_faulty_recover (fun _ => nofun) hrest
  | failToFlush _ ht => exact absurd ht (Transport.write_ne_broken hunbroken)
  | takeItem _ hqueue => exact hitem hqueue
  | takeNext _ hqueue => exact hitem hqueue
  | @awaitOutcome _ _ w outcome _ houtcome =>
      intro b hb
      obtain rfl := List.mem_singleton.mp hb
      unfold Waiter.outcome? at houtcome
      split at houtcome
      · cases houtcome
        rfl
      · cases houtcome
        rfl
      · split at houtcome
        · cases houtcome
        · split at houtcome <;> cases houtcome
          rfl
  | judgeResponse =>
      unfold Connection.judgeResponse
      split
      · simp [Action.isFaulty]
      · split <;> simp [Action.isFaulty]
  | judgeRequest =>
      unfold Connection.judgeRequest
      split
      · exact not_faulty_turnDown _
      · simp [Action.isFaulty]
  | missRequest => exact not_faulty_turnDown _
  | establish =>
      intro b hb
      obtain rfl := List.mem_singleton.mp hb
      have hlater := hkept _ (List.mem_cons_self ..)
      unfold Action.isFaulty at hlater ⊢
      split <;> simp_all
  | _ => first
      | (cases haction; done)
      | exact hrest
      | simp [Action.isFaulty]

/-- Every move of a connection in use keeps its operations **without a fault**. -/
theorem Faultless.transition (h : Faultless c) (hsteady : c.Steady) (hsendable : c.Sendable)
    (hmove : Transition c move c') (hevents : ∀ item ∈ c.events, ∃ e, item = .ok e) :
    Faultless c' := by
  intro id
  obtain ⟨task, action, rest, c₁, script, rfl, hscript, heffect, rfl⟩ | hact := hmove.act_or
  · obtain ⟨rfl, heq⟩ | ⟨-, heq⟩ | ⟨hreader, -⟩ := heffect.script_after hscript (.call id)
    · rw [heq]
      have hkept := h id
      have haction := hsteady.calls id action (by rw [hscript]; exact List.mem_cons_self ..)
      rw [hscript] at hkept
      exact heffect.not_faulty haction hsteady.unbroken hkept hsendable hevents
    · rw [heq]
      exact h id
    · cases hreader
  · obtain heq | heq | ⟨_, operation, rfl, -, -, heq⟩ := hmove.script_of_ne_act hact (.call id)
    · rw [heq]
      exact h id
    · rw [heq]
      exact fun _ hb => nomatch hb
    · rw [heq]
      exact operation.not_faulty_of_script _

/-- What was offered **stays offered**. -/
theorem Transition.offered_suffix (hmove : Transition c move c') : c.offered <:+ c'.offered := by
  cases hmove with
  | act _ heffect =>
      rw [setScript_offered]
      cases heffect with
      | offer => exact List.suffix_cons _ _
      | _ => exact List.suffix_rfl
  | _ => exact List.suffix_rfl

/-- Nobody is **answered with a fault**. -/
theorem Faultless.answer? (h : Faultless c) (id : Nat) (fault : Fault) :
    c.answer? id ≠ some (.failed (.codec fault)) := by
  intro hanswer
  have hnot := h id (.answer (.failed (.codec fault)))
    (by rw [script_of_answer? hanswer]; exact List.mem_singleton_self _)
  cases hnot

/-- **No operation fails with a fault**, as long as only events were offered. -/
theorem faultless_of_run (hrun : (new role options keys).run moves = some c)
    (hsteady : (new role options keys).steadily moves = true) (hphase : c.phase.isEnding = false)
    (hunbroken : c.transport.broken = false)
    (hoffered : ∀ item ∈ c.offered, ∃ e, item = .ok e) : Faultless c := by
  refine steady_induction (P := fun moves x => (new role options keys).steadily moves = true →
    (∀ item ∈ x.offered, ∃ e, item = .ok e) → Faultless x)
    (fun _ _ _ _ hb => nomatch hb) ?_ hrun hsteady hphase hunbroken hsteady hoffered
  intro before c₁ move c₂ hbefore hsteady₁ _ ih hstep _ _ hsteady hoffered
  have hmove := transition_of_step hstep
  rw [steadily_append hbefore, Bool.and_eq_true] at hsteady
  have hoffered₁ : ∀ item ∈ c₁.offered, ∃ e, item = .ok e := fun item hitem =>
    hoffered item (hmove.offered_suffix.subset hitem)
  obtain ⟨taken, hqueue, -⟩ :=
    arriving_of_run hbefore hsteady.1 hsteady₁.phase hsteady₁.unbroken
  have hsendable := ((reachable_new role options keys).run hbefore).sendable
  refine (ih hsteady.1 hoffered₁).transition hsteady₁ hsendable hmove fun item hitem => ?_
  refine hoffered₁ item (List.mem_reverse.mp ?_)
  rw [hqueue]
  exact List.mem_append_right _ hitem

end Connection

end WebSocket
