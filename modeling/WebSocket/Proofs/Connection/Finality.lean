import WebSocket.Proofs.Connection.Closing
import WebSocket.Proofs.Connection.Receipts

/-!
# A closed connection

The phase `closed` is never left. What else comes to an end with it depends on how far the
connection had got. When the handshake was over, no further handshake succeeds. When the writer was
taken away and nobody has bytes of it left, nothing is written any more; before that, a task may
still write the frames for which it had looked at the phase, and the reader may write a close frame.
When the reader is about to end, nothing is received but the events that are queued.

A connection that is torn down before its handshake is closed, but its transport is still there: a
handshake then goes on as if nothing had happened (`Connection.accepted_of_abortedMoves`).

## Main results

* `Connection.closed_final`: what is **final** about a closed connection, and on which condition.
* `Connection.not_closed_final`: without the conditions it is not.
-/

namespace WebSocket

/-- The actions with which a handshake **begins**. -/
def Action.takesTransport : Action → Bool
  | .beginConnecting .. | .beginAccepting => true
  | _ => false

/-- The answers of a handshake that **succeeded**. -/
def Answer.opens : Answer → Bool
  | .connected _ | .accepted _ => true
  | _ => false

/-- Whether an action writes what the writer held, and **ends the stream**. -/
def Action.shutsDown : Action → Bool
  | .shutDown _ => true
  | _ => false

/-- Whether the reader has **nothing to read or to offer** any more. -/
def Script.windsUp (script : Script) : Bool :=
  script.all fun
    | .markClosed | .takeWriter | .shutDown _ => true
    | _ => false

namespace Connection

variable {c c' c₁ : Connection} {task : TaskId} {action : Action} {rest script : Script}
  {move : Move} {moves : List Move}

/-! ### Phase and stage -/

/-- The last phase is **never left**. -/
theorem Effect.closed (heffect : Effect c task action rest c₁ script) (h : c.phase = .closed) :
    c₁.phase = .closed := by
  cases heffect with
  | beginClosing hopen => rw [h] at hopen; cases hopen
  | followClosing hopen => rw [h] at hopen; cases hopen
  | markClosed => rfl
  | failHandshake => rfl
  | establish =>
      show (if c.phase = .connecting then Phase.opened else c.phase) = .closed
      rw [if_neg (by rw [h]; exact nofun), h]
  | _ => exact h

theorem Transition.closed (hmove : Transition c move c') (h : c.phase = .closed) :
    c'.phase = .closed := by
  cases hmove with
  | act _ heffect =>
      rw [setScript_phase]
      exact heffect.closed h
  | _ => exact h

/-- Whether the handshake is **over**, with the stream of frames or without it. -/
def IsPast (c : Connection) : Prop := c.stage = .running ∨ c.stage = .done

theorem IsPast.not_negotiates (hpast : c.IsPast) (hstaged : c.Staged)
    (hscript : c.script task = action :: rest) : action.negotiates = false := by
  refine Bool.eq_false_iff.mpr fun hnegotiates => ?_
  have hstage := hstaged.negotiating hscript hnegotiates
  obtain h | h := hpast <;> rw [h] at hstage <;> cases hstage

/-- A handshake that is over **stays over**. -/
theorem IsPast.transition (hpast : c.IsPast) (hstaged : c.Staged) (hmove : Transition c move c') :
    c'.stage = c.stage := by
  have hne : c.stage ≠ .handshake ∧ c.stage ≠ .negotiating := by
    obtain h | h := hpast <;> rw [h] <;> exact ⟨nofun, nofun⟩
  cases hmove with
  | act hscript heffect =>
      rw [setScript_stage]
      have hnot := hpast.not_negotiates hstaged hscript
      cases heffect with
      | beginConnecting hstage => exact absurd hstage hne.1
      | failToBuild hstage => exact absurd hstage hne.1
      | beginAccepting hstage => exact absurd hstage hne.1
      | failHandshake => cases hnot
      | establish => cases hnot
      | _ => rfl
  | giveUp => exact if_neg fun h => hne.2 h.1
  | _ => rfl

/-! ### Handshakes -/

/-- An answer that stands **behind other actions** is not one of a handshake that succeeded. -/
theorem Scripted.tail_not_opens (h : c.Scripted) (hscript : c.script task = action :: rest)
    {a : Answer} (hmem : .answer a ∈ rest) : a.opens = false := by
  cases task with
  | reader => cases h.readerScript hscript <;> simp at hmem
  | call id =>
      obtain ⟨_, claim, -, -, hcall⟩ := h.callScript hscript
      have hdone : ∀ {b : Answer}, b = .done ∨ b = .failed .timeout → b.opens = false := by
        rintro b (rfl | rfl) <;> rfl
      cases hcall with
      | ordinary hordinary =>
          cases hordinary with
          | abort ha => simp at hmem; rw [hmem]; exact hdone ha
          | finishing ha => simp at hmem; rw [hmem]; exact hdone ha
          | releasing ha => simp at hmem; rw [hmem]; exact hdone ha
          | shutting ha => simp at hmem; rw [hmem]; exact hdone ha
          | _ => simp at hmem <;> (rw [hmem]; rfl)
      | negotiating hnegotiating => cases hnegotiating <;> simp at hmem
      | _ => simp at hmem

/-- Only a handshake that is under way can **succeed**. -/
theorem Effect.not_opens (heffect : Effect c task action rest c₁ script) (h : c.Scripted)
    (hscript : c.script task = action :: rest) (hnegotiates : action.negotiates = false)
    {a : Answer} {more : Script} (hnew : script = .answer a :: more) : a.opens = false := by
  have hrest : rest = .answer a :: more → a.opens = false := fun heq =>
    h.tail_not_opens hscript (heq ▸ List.mem_cons_self ..)
  have hrecover : ∀ {r : Recovery} {e : ConnectionError},
      Script.recover r e rest = .answer a :: more → a.opens = false := by
    intro r e heq
    cases r with
    | ignore => exact hrest heq
    | _ => cases heq
  cases heffect with
  | readFrame =>
      obtain ⟨b, r, heq, hreacts⟩ := ofAssembled_head (c.assembly.feed _).2 rest
      rw [heq] at hnew
      cases hnew
      cases hreacts
  | lockInVain | feedInVain | refuseFrame | flushInVain => exact hrecover hnew
  | @takeItem item | @takeNext item => cases item <;> cases hnew <;> rfl
  | @awaitOutcome _ _ _ outcome => cases outcome <;> cases hnew <;> rfl
  | _ => first
      | exact hrest hnew
      | (cases hnew; done)
      | (cases hnew; rfl)
      | cases hnegotiates

/-- When the handshake is over, **no move makes one succeed**. -/
theorem IsPast.answer (hpast : c.IsPast) (hreach : Reachable c) (hmove : Transition c move c')
    {id : Nat} {a : Answer} (hanswer : c'.script (.call id) = [.answer a])
    (hopens : a.opens = true) : c.script (.call id) = [.answer a] := by
  obtain ⟨task, _, _, _, _, rfl, hscript, heffect, rfl⟩ | hact := hmove.act_or
  · obtain ⟨rfl, heq⟩ | ⟨-, heq⟩ | ⟨htask, -⟩ := heffect.script_after hscript (.call id)
    · rw [heq] at hanswer
      have hnot := hpast.not_negotiates hreach.staged hscript
      rw [heffect.not_opens hreach.scripted hscript hnot hanswer] at hopens
      cases hopens
    · rwa [heq] at hanswer
    · cases htask
  · obtain heq | heq | ⟨_, operation, -, -, -, heq⟩ := hmove.script_of_ne_act hact (.call id)
    · rwa [heq] at hanswer
    · rw [heq] at hanswer
      cases hanswer
    · rw [heq] at hanswer
      cases operation with
      | ping payload =>
          simp only [Script.ofOperation] at hanswer
          split at hanswer
          · cases hanswer; cases hopens
          · cases hanswer
      | close code reason =>
          simp only [Script.ofOperation] at hanswer
          split at hanswer
          · cases hanswer; cases hopens
          · cases hanswer
      | _ => cases hanswer

/-- When the handshake is over, one that is begun **fails because of the phase**, and changes
nothing. -/
theorem IsPast.refuses (hpast : c.IsPast) {id : Nat}
    (hscript : c.script (.call id) = action :: rest) (htakes : action.takesTransport = true) :
    c.step (.act (.call id)) =
      some (c.setScript (.call id) [.answer (.failed (.invalidState c.phase))]) := by
  have hstage : ¬c.stage = .handshake := by
    obtain h | h := hpast <;> rw [h] <;> exact nofun
  cases action with
  | beginConnecting => simp only [step, act, hscript, perform, takeTransport, if_neg hstage, ending]
  | beginAccepting => simp only [step, act, hscript, perform, takeTransport, if_neg hstage, ending]
  | _ => cases htakes

/-! ### Writing -/

/-- Nobody is left who could **write**: the writer is gone, and nobody has bytes of it. -/
structure IsSilent (c : Connection) : Prop where
  writer : c.writer = none
  shut : ∀ {task action rest}, c.script task = action :: rest → action.shutsDown = false

/-- A connection that nothing holds any more is **silent**, and its reader has ended. -/
theorem IsSilent.of_released (hreach : Reachable c) (hreleased : c.released = true) :
    c.IsSilent ∧ c.reader = [] := by
  have hstaged := hreach.staged
  unfold released at hreleased
  split at hreleased
  · cases hreleased
  · cases hreleased
  · rename_i hstage
    have hidle := hstaged.idle (by rw [hstage]; exact nofun)
    refine ⟨⟨hidle.writer, fun {task action rest} hscript => ?_⟩, hidle.reader⟩
    refine Bool.eq_false_iff.mpr fun hshuts => ?_
    cases action with
    | shutDown held => rw [hstaged.streaming hscript rfl] at hstage; cases hstage
    | _ => cases hshuts
  · simp only [Bool.and_eq_true, readerEnded, List.isEmpty_iff, Option.isNone_iff_eq_none,
      Bool.not_eq_true', List.any_eq_false] at hreleased
    obtain ⟨⟨hreader, hwriter⟩, hcalls⟩ := hreleased
    refine ⟨⟨hwriter, fun {task action rest} hscript => ?_⟩, hreader⟩
    cases task with
    | reader => rw [script_reader, hreader] at hscript; cases hscript
    | call id =>
        obtain ⟨call, hcall, heq⟩ := call?_of_script hscript
        have hnot := hcalls call (mem_of_call? hcall)
        rw [heq] at hnot
        refine Bool.eq_false_iff.mpr fun hshuts => hnot ?_
        cases action with
        | shutDown held => rfl
        | _ => cases hshuts

/-- A stream is ended **first of all** that is left to do. -/
theorem Scripted.tail_not_shutsDown (h : c.Scripted) (hscript : c.script task = action :: rest) :
    ∀ b ∈ rest, b.shutsDown = false := by
  cases task with
  | reader => cases h.readerScript hscript <;> simp [Action.shutsDown]
  | call id =>
      obtain ⟨_, claim, -, -, hcall⟩ := h.callScript hscript
      cases hcall with
      | ordinary hordinary => cases hordinary <;> simp [Action.shutsDown]
      | negotiating hnegotiating => cases hnegotiating <;> simp
      | _ => simp

/-- Where nobody is left who could write, an action **writes nothing**. -/
theorem IsSilent.effect (hsilent : c.IsSilent) (heffect : Effect c task action rest c₁ script)
    (h : c.Scripted) (hscript : c.script task = action :: rest)
    (hnegotiates : action.negotiates = false) :
    c₁.writer = none ∧ c₁.transport = c.transport ∧ c₁.sent = c.sent ∧
      ∀ {b more}, script = b :: more → b.shutsDown = false := by
  have hwriter := hsilent.writer
  have hlost : ∀ {w : Writer}, c.writer ≠ some w := fun hw => nomatch hwriter.symm.trans hw
  have hhead : ∀ {b more}, script = b :: more → b.shutsDown = false := by
    intro b more hnew
    refine Bool.eq_false_iff.mpr fun hshuts => ?_
    have hplaced : isPlaced b = true := by
      cases b <;> first | rfl | cases hshuts
    cases heffect.comesTo hnew hplaced with
    | next hrest =>
        rw [h.tail_not_shutsDown hscript _ (hrest ▸ List.mem_cons_self ..)] at hshuts
        cases hshuts
    | fedAll | waits => cases hshuts
    | takes _ hw => exact hlost hw
  cases heffect with
  | startWriting _ hw | takeWriter _ hw => exact absurd hw hlost
  | makeRoom hw | failToMakeRoom hw | refuseFrame hw | fedAll hw | feed hw | flush hw
  | failToFlush hw =>
      exact absurd hw hlost
  | shutBroken | shutDown => exact nomatch hsilent.shut hscript
  | _ => first
      | exact ⟨hwriter, rfl, rfl, hhead⟩
      | cases hnegotiates

/-- A silent connection **stays silent**, and what is on its way to the peer only gets less. -/
theorem IsSilent.transition (hsilent : c.IsSilent) (hpast : c.IsPast) (hreach : Reachable c)
    (hmove : Transition c move c') :
    c'.IsSilent ∧ c'.sent = c.sent ∧ c'.transport.outgoing <:+ c.transport.outgoing := by
  obtain ⟨task, _, _, _, _, rfl, hscript, heffect, rfl⟩ | hact := hmove.act_or
  · have hnot := hpast.not_negotiates hreach.staged hscript
    obtain ⟨hwriter, htransport, hsent, hhead⟩ :=
      hsilent.effect heffect hreach.scripted hscript hnot
    refine ⟨⟨by rwa [setScript_writer], fun {other b more} hother => ?_⟩, ?_, ?_⟩
    · obtain ⟨rfl, heq⟩ | ⟨-, heq⟩ | ⟨-, -, heq, -⟩ := heffect.script_after hscript other
      · rw [heq] at hother
        exact hhead hother
      · rw [heq] at hother
        exact hsilent.shut hother
      · rw [heq] at hother
        cases hother
        rfl
    · rwa [setScript_sent]
    · simp only [setScript_transport, htransport, List.suffix_refl]
  · refine ⟨⟨?_, fun {task b more} hscript => ?_⟩, (hmove.sent_of_ne_act hact).2.2, ?_⟩
    · cases hmove with
      | act => exact absurd rfl (hact _)
      | _ => exact hsilent.writer
    · obtain hbefore | hopening := hmove.opening_of_ne_act hact hscript
      · exact hsilent.shut hbefore
      · cases b <;> first | rfl | cases hopening
    · cases hmove with
      | act => exact absurd rfl (hact _)
      | peerTake => exact List.drop_suffix _ _
      | _ => exact List.suffix_refl _

/-! ### What is still written, and what is still received -/

/-- The frames written **after a connection was closed**: those of tasks that had them to write
already, and close frames. -/
structure Leftover (c₀ c : Connection) : Prop where
  cargo : ∀ task, ∀ f ∈ (c.script task).cargo, f.isClose = true ∨ f ∈ (c₀.script task).cargo
  sent : ∃ new, c.sent = new ++ c₀.sent ∧
    ∀ x ∈ new, x.frame.isClose = true ∨ x.frame ∈ (c₀.script x.task).cargo

theorem Leftover.refl (c : Connection) : Leftover c c :=
  ⟨fun _ _ hf => Or.inr hf, [], rfl, fun _ hx => nomatch hx⟩

/-- In a closed connection **no further frames** come up but close frames. -/
theorem Leftover.transition {c₀ : Connection} (h : Leftover c₀ c) (hreach : Reachable c)
    (hphase : c.phase = .closed) (hmove : Transition c move c') : Leftover c₀ c' := by
  obtain ⟨task, _, _, _, _, rfl, hscript, heffect, rfl⟩ | hact := hmove.act_or
  · refine ⟨fun other f hf => ?_, ?_⟩
    · by_cases hne : other = task
      · subst hne
        have hbefore := h.cargo other
        rw [heffect.script_self hscript] at hf
        rw [hscript] at hbefore
        cases heffect.cargoChange hreach.scripted hscript with
        | kept heq => exact hbefore f (heq ▸ hf)
        | dropped heq => rw [heq] at hf; cases hf
        | checked hopen => rw [hphase] at hopen; cases hopen
        | claimed _ _ _ heq =>
            rw [heq] at hf
            obtain rfl := List.mem_singleton.mp hf
            exact Or.inl rfl
        | fed heq => exact hbefore f (heq ▸ List.mem_cons_of_mem _ hf)
      · obtain heq | heq := heffect.cargo_other hscript hne
        · rw [heq] at hf
          exact h.cargo other f hf
        · rw [heq] at hf
          cases hf
    · obtain ⟨new, hsent, hnew⟩ := h.sent
      rw [setScript_sent]
      obtain heq | ⟨f, heq, hcargo, -⟩ := heffect.sent hreach hscript
      · exact ⟨new, by rw [heq, hsent], hnew⟩
      · refine ⟨⟨task, f⟩ :: new, by rw [heq, hsent, List.cons_append], ?_⟩
        refine List.forall_mem_cons.mpr ⟨h.cargo task f ?_, hnew⟩
        rw [hcargo]
        exact List.mem_cons_self ..
  · refine ⟨fun task f hf => ?_, ?_⟩
    · obtain heq | ⟨hnil, -⟩ := hmove.cargo_of_ne_act hact task
      · rw [heq] at hf
        exact h.cargo task f hf
      · rw [hnil] at hf
        cases hf
    · rw [(hmove.sent_of_ne_act hact).2.2]
      exact h.sent

/-- Only the reader puts something into the event queue. -/
theorem Scripted.reader_of_offer (h : c.Scripted) {item : Except ConnectionError Event}
    (hscript : c.script task = .offer item :: rest) : task = .reader := by
  cases task with
  | reader => rfl
  | call id =>
      obtain ⟨_, claim, -, -, hcall⟩ := h.callScript hscript
      cases hcall with
      | ordinary hordinary => cases hordinary with
          | sending hw => cases hw
          | pinging _ hw => cases hw
          | closing _ hw => cases hw
      | negotiating hnegotiating => cases hnegotiating

/-- A reader that is about to end **goes on to its end**. -/
theorem Effect.windsUp (heffect : Effect c .reader action rest c₁ script)
    (hreader : Script.windsUp (action :: rest) = true) : script.windsUp = true := by
  simp only [Script.windsUp, List.all_cons, Bool.and_eq_true] at hreader
  obtain ⟨haction, hrest⟩ := hreader
  cases heffect with
  | markClosed => exact hrest
  | queueUpToTake => exact Bool.and_eq_true_iff.mpr ⟨rfl, hrest⟩
  | takeNothing => exact hrest
  | takeWriter => exact Bool.and_eq_true_iff.mpr ⟨rfl, hrest⟩
  | shutBroken => exact hrest
  | shutDown => exact hrest
  | _ => cases haction

/-- While the reader is about to end, the event queue **only gets shorter**. -/
theorem windsUp_transition (hreader : c.reader.windsUp = true) (hpast : c.IsPast)
    (hreach : Reachable c) (hmove : Transition c move c') :
    c'.reader.windsUp = true ∧ c'.events <:+ c.events := by
  cases hmove with
  | @act task action rest c₁ script hscript heffect =>
      have hnot := hpast.not_negotiates hreach.staged hscript
      refine ⟨?_, ?_⟩
      · cases task with
        | reader =>
            rw [show c.reader = action :: rest from hscript] at hreader
            exact heffect.windsUp hreader
        | call id =>
            obtain heq | ⟨_, _, rfl, -⟩ := heffect.reader_eq
            · rwa [setScript_reader_of_call, heq]
            · cases hnot
      · rw [setScript_events]
        cases heffect with
        | offer =>
            obtain rfl := hreach.scripted.reader_of_offer hscript
            rw [show c.reader = _ from hscript] at hreader
            cases hreader
        | takeItem _ heq => rw [heq]; exact List.suffix_cons _ _
        | takeNext _ heq => rw [heq]; exact List.suffix_cons _ _
        | discard heq => rw [heq]; exact List.suffix_cons _ _
        | _ => exact List.suffix_refl _
  | stopReader => exact ⟨rfl, List.suffix_refl _⟩
  | _ => exact ⟨hreader, List.suffix_refl _⟩

/-- Once the reader is about to end, a run receives **events that were queued**, in order, and then
only word that there are no more. -/
theorem receipts_of_windsUp (hreader : c.reader.windsUp = true) (hpast : c.IsPast)
    (hreach : Reachable c) (hrun : c.run moves = some c') :
    ∃ items ends, c.receipts moves = answersOf items ends ∧ items.Sublist c.events := by
  induction moves generalizing c with
  | nil => exact ⟨[], 0, rfl, List.nil_sublist _⟩
  | cons move moves ih =>
      obtain ⟨c₁, hstep, hrest⟩ := run_cons_eq_some.mp hrun
      have hmove := transition_of_step hstep
      obtain ⟨hreader₁, hevents⟩ := windsUp_transition hreader hpast hreach hmove
      have hpast₁ : c₁.IsPast := by
        rw [IsPast, hpast.transition hreach.staged hmove]
        exact hpast
      obtain ⟨items, ends, heq, hsub⟩ := ih hreader₁ hpast₁ (hreach.step hstep) hrest
      have hreceipt := receipt_cases hstep
      rw [receipts_cons hstep, heq]
      generalize c.receipt? move = receipt at hreceipt
      cases hreceipt with
      | nothing => exact ⟨items, ends, rfl, hsub.trans hevents.sublist⟩
      | @event id item _ _ _ htaken =>
          refine ⟨item :: items, ends, rfl, ?_⟩
          rw [htaken]
          exact hsub.cons_cons item
      | last _ _ hend _ hsame =>
          have hempty : c.events = [] := by
            obtain hrunning | hdone := hpast
            · exact (hend hrunning).1
            · exact (hreach.staged.idle (by rw [hdone]; exact nofun)).events
          rw [hsame, hempty, List.sublist_nil] at hsub
          subst hsub
          exact ⟨[], ends + 1, rfl, List.nil_sublist _⟩
      | early _ _ hstage =>
          obtain h | h := hpast <;> rw [h] at hstage <;> cases hstage

/-! ### What is final -/

/-- **What is final about a closed connection** whose handshake is over. The phase is never left. A
handshake that is begun fails because of the phase and changes nothing, and none succeeds any more.
Only such frames are written as tasks still had to write, and close frames; and nothing at all is
written once nobody is left who could. Once the reader is about to end, only queued events are
received, and then only word that there are no more. -/
theorem closed_final (hreach : Reachable c) (hphase : c.phase = .closed) (hpast : c.IsPast)
    (hrun : c.run moves = some c') :
    c'.phase = .closed ∧ c'.stage = c.stage ∧
    (∀ {id action rest}, c'.script (.call id) = action :: rest → action.takesTransport = true →
      c'.step (.act (.call id)) =
        some (c'.setScript (.call id) [.answer (.failed (.invalidState .closed))])) ∧
    (∀ {id a}, c'.script (.call id) = [.answer a] → a.opens = true →
      c.script (.call id) = [.answer a]) ∧
    Leftover c c' ∧
    (c.IsSilent → c'.sent = c.sent ∧ c'.transport.outgoing <:+ c.transport.outgoing) ∧
    (c.reader.windsUp = true → ∃ items ends, c.receipts moves = answersOf items ends ∧
      items.Sublist c.events) := by
  have hkept : c'.phase = .closed ∧ c'.stage = c.stage ∧
      (∀ {id a}, c'.script (.call id) = [.answer a] → a.opens = true →
        c.script (.call id) = [.answer a]) ∧
      Leftover c c' ∧ (c.IsSilent → c'.IsSilent ∧ c'.sent = c.sent ∧
        c'.transport.outgoing <:+ c.transport.outgoing) := by
    refine run_invariant (P := fun x => x.phase = .closed ∧ x.stage = c.stage ∧
      (∀ {id a}, x.script (.call id) = [.answer a] → a.opens = true →
        c.script (.call id) = [.answer a]) ∧
      Leftover c x ∧ (c.IsSilent → x.IsSilent ∧ x.sent = c.sent ∧
        x.transport.outgoing <:+ c.transport.outgoing)) ?_ hreach ?_ hrun
    · rintro x move x' hreach ⟨hphase, hstage, hanswer, hleft, hsilent⟩ hmove
      have hpast : x.IsPast := by rwa [IsPast, hstage]
      refine ⟨hmove.closed hphase, ?_, ?_, hleft.transition hreach hphase hmove, ?_⟩
      · rw [hpast.transition hreach.staged hmove, hstage]
      · exact fun hnew hopens => hanswer (hpast.answer hreach hmove hnew hopens) hopens
      · intro h
        obtain ⟨hx, hsent, hout⟩ := hsilent h
        obtain ⟨hx', hsent', hout'⟩ := hx.transition hpast hreach hmove
        exact ⟨hx', hsent'.trans hsent, hout'.trans hout⟩
    · exact ⟨hphase, rfl, fun h _ => h, .refl c, fun h => ⟨h, rfl, List.suffix_refl _⟩⟩
  obtain ⟨hphase', hstage', hanswer, hleft, hsilent⟩ := hkept
  refine ⟨hphase', hstage', ?_, hanswer, hleft, fun h => (hsilent h).2, ?_⟩
  · intro id action rest hscript htakes
    have hpast' : c'.IsPast := by rwa [IsPast, hstage']
    rw [hpast'.refuses hscript htakes, hphase']
  · exact fun hreader => receipts_of_windsUp hreader hpast hreach hrun

/-! ### Runs in which a connection closes -/

/-- The moves by which a server that is open **comes to its end** when the peer's stream ends. -/
def endedMoves : List Move :=
  openingMoves ++
    [.collect 0, .peerEnd .ended, .act .reader, .act .reader, .act .reader, .act .reader]

theorem closed_of_endedMoves :
    ((new .server {} fun _ => Mask.zero).run endedMoves).map
        (fun c => (c.phase, c.stage, c.released, c.reader.windsUp)) =
      some (.closed, .running, true, true) := by
  decide +kernel

/-- What happens to an ended server: somebody tries to accept again, and somebody receives. -/
def uselessMoves : List Move :=
  [.start 1 .accept, .act (.call 1), .collect 1, .start 2 .receive, .act (.call 2)]

/-- A server that has come to its end in that way is **final**. -/
theorem closed_final_of_endedMoves :
    ∃ c c' : Connection, (new .server {} fun _ => Mask.zero).run endedMoves = some c ∧
      c.run uselessMoves = some c' ∧ c'.phase = .closed ∧ c'.sent = c.sent ∧
        ∃ items ends, c.receipts uselessMoves = answersOf items ends ∧ items.Sublist c.events := by
  obtain ⟨c, hrun, hfacts⟩ := Option.map_eq_some_iff.mp closed_of_endedMoves
  simp only [Prod.mk.injEq] at hfacts
  obtain ⟨hphase, hstage, hreleased, hreader⟩ := hfacts
  have hreach : Reachable c := ⟨_, _, _, _, hrun⟩
  have hmore : ((new .server {} fun _ => Mask.zero).run (endedMoves ++ uselessMoves)).isSome =
      true := by decide +kernel
  obtain ⟨c', hrun'⟩ := Option.isSome_iff_exists.mp hmore
  obtain ⟨c₁, hrun₁, huseless⟩ := run_append_eq_some.mp hrun'
  obtain rfl : c = c₁ := Option.some.inj (hrun.symm.trans hrun₁)
  obtain ⟨hphase', -, -, -, -, hsilent, hreceipts⟩ :=
    closed_final hreach hphase (Or.inl hstage) huseless
  exact ⟨c, c', hrun, huseless, hphase', (hsilent (IsSilent.of_released hreach hreleased).1).1,
    hreceipts hreader⟩

/-- The moves by which a connection is torn down **before its handshake**. -/
def abortedMoves : List Move :=
  [.start 0 .abort, .act (.call 0), .act (.call 0), .act (.call 0), .collect 0]

theorem closed_of_abortedMoves :
    ((new .server {} fun _ => Mask.zero).run abortedMoves).map
        (fun c => (c.phase, c.answer? 0, c.transport.outgoing)) = some (.closed, none, []) := by
  decide +kernel

/-- A server that was torn down before its handshake **still accepts**, and answers the peer. -/
theorem accepted_of_abortedMoves :
    ((new .server {} fun _ => Mask.zero).run (abortedMoves ++ openingMoves)).map
        (fun c => (c.phase, (c.answer? 0).map Answer.opens, c.transport.outgoing.isEmpty)) =
      some (.closed, some true, false) := by
  decide +kernel

/-- So a closed connection is **not always final**. -/
theorem not_closed_final :
    ¬ ∀ (c : Connection) (moves : List Move) (c' : Connection), Reachable c → c.phase = .closed →
      c.run moves = some c' →
        (∀ id a, c'.answer? id = some a → a.opens = true → c.answer? id = some a) ∧
          c'.transport.outgoing <:+ c.transport.outgoing := by
  intro h
  obtain ⟨c', hrun', hfacts'⟩ := Option.map_eq_some_iff.mp accepted_of_abortedMoves
  obtain ⟨c, hrun, hfacts⟩ := Option.map_eq_some_iff.mp closed_of_abortedMoves
  simp only [Prod.mk.injEq] at hfacts hfacts'
  obtain ⟨c₁, hrun₁, hmore⟩ := run_append_eq_some.mp hrun'
  obtain rfl : c = c₁ := Option.some.inj (hrun.symm.trans hrun₁)
  obtain ⟨hanswer, -⟩ := h c openingMoves c' ⟨_, _, _, _, hrun⟩ hfacts.1 hmore
  obtain ⟨a, ha, hopens⟩ := Option.map_eq_some_iff.mp hfacts'.2.1
  exact nomatch (hanswer 0 a ha hopens).symm.trans hfacts.2.1

end Connection

end WebSocket
