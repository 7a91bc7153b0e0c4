import WebSocket.Proofs.Connection.Replies

/-!
# Connections in use

Messages and pings are sent and received over a connection, by any number of operations at a time,
and nobody closes it, aborts it, or gives up an operation that has frames to write. As long as the
end of such a connection has not begun, nobody stands in front of an action that would begin it, the
reader is there, and so is the writer (`Connection.Steady`).

## Main results

* `Connection.steady_of_run`: a connection is **steady** behind every run of this kind, unless its
  end has begun.
* `Connection.steady_induction`: induction along such a run.
* `Connection.Steady.phase_eq`: such a connection stays open while its reader has more to read.
-/

namespace WebSocket

/-- The actions of operations with which nobody **ends** a connection. -/
def Action.isSteady : Action → Bool
  | .lockWriter _ recovery | .feed _ recovery | .flush recovery => recovery == .report
  | .answer _ | .ensureOpen | .enlist _ | .startWaiting | .abandon | .takeEvent | .takeEventOrEnd
  | .beginDraining | .awaitPong _ | .beginConnecting .. | .beginAccepting => true
  | action => action.negotiates

/-- The operations with which nobody ends a connection. -/
def Operation.isSteady : Operation → Bool
  | .close .. | .abort => false
  | _ => true

theorem Operation.isSteady_script {operation : Operation} (h : operation.isSteady = true)
    (size : Nat) : ∀ b ∈ Script.ofOperation size operation, b.isSteady = true := by
  cases operation with
  | close => cases h
  | abort => cases h
  | ping payload =>
      simp only [Script.ofOperation]
      split <;> simp [Action.isSteady, Script.writing]
  | _ => simp [Script.ofOperation, Script.sending, Script.writing, Action.isSteady]

namespace Connection

variable {c c' c₁ : Connection} {task : TaskId} {action : Action} {rest script : Script}
  {move : Move} {moves : List Move} {role : Role} {options : Options} {keys : Nat → Mask}

/-! ### Runs in which nobody ends the connection -/

/-- The moves with which nobody ends a connection: nobody begins to close or to abort it, and nobody
gives up an operation **in the middle of its writing**. -/
def isSteady (c : Connection) : Move → Bool
  | .start _ operation => operation.isSteady
  | .giveUp id => !(c.script (.call id)).asksLock && !(c.script (.call id)).holdsLock
  | _ => true

/-- The runs of which all moves are so. -/
def steadily (c : Connection) : List Move → Bool
  | [] => true
  | move :: moves =>
    c.isSteady move && match c.step move with
      | none => true
      | some c' => c'.steadily moves

theorem steadily_eq (c : Connection) (moves : List Move) :
    c.steadily moves = c.always isSteady moves := by
  induction moves generalizing c with
  | nil => rfl
  | cons move moves ih =>
      rw [steadily, always]
      cases c.step move with
      | none => rfl
      | some c' => exact congrArg (c.isSteady move && ·) (ih c')

theorem steadily_append {before after : List Move} (hrun : c.run before = some c₁) :
    c.steadily (before ++ after) = (c.steadily before && c₁.steadily after) := by
  rw [steadily_eq, steadily_eq, steadily_eq, always_append hrun]

theorem steadily_singleton (c : Connection) (move : Move) :
    c.steadily [move] = c.isSteady move := by
  rw [steadily_eq, always_singleton]

/-! ### What is true along such a run -/

/-- A connection that is **in use**: its end has not begun, the peer is there to be written to, and
nobody is about to end it. -/
structure Steady (c : Connection) : Prop where
  phase : c.phase.isEnding = false
  unbroken : c.transport.broken = false
  uncancelled : c.cancelled = false
  calls : ∀ id, ∀ b ∈ c.script (.call id), b.isSteady = true

/-- An end that has begun is **not undone**. -/
theorem Transition.isEnding (hmove : Transition c move c') (h : c'.phase.isEnding = false) :
    c.phase.isEnding = false := by
  refine Bool.eq_false_iff.mpr fun hending => ?_
  obtain ⟨task, _, _, _, _, rfl, -, heffect, rfl⟩ | hact := hmove.act_or
  · rw [setScript_phase, heffect.isEnding hending] at h
    cases h
  · rw [(hmove.sent_of_ne_act hact).1, hending] at h
    cases h

theorem steady_recover {recovery : Recovery} (hrecovery : (recovery == .report) = true)
    (e : ConnectionError) (rest : Script) :
    ∀ b ∈ Script.recover recovery e rest, b.isSteady = true := by
  rw [eq_of_beq hrecovery]
  simp [Script.recover, Action.isSteady]

theorem steady_turnDown (failure : Handshake.Failure) :
    ∀ b ∈ turnDown failure, b.isSteady = true := by
  unfold turnDown
  split <;> simp [Action.isSteady, Action.negotiates]

/-- An operation goes on **without ending** the connection. -/
theorem Effect.isSteady (heffect : Effect c task action rest c₁ script)
    (hphase : c.phase.isEnding = false) (hunbroken : c.transport.broken = false)
    (haction : action.isSteady = true) (hrest : ∀ b ∈ rest, b.isSteady = true) :
    (∀ b ∈ script, b.isSteady = true) ∧ c₁.cancelled = c.cancelled := by
  have hkept : ∀ {b : Action}, b.isSteady = true → ∀ b' ∈ b :: rest, b'.isSteady = true :=
    fun hb => List.forall_mem_cons.mpr ⟨hb, hrest⟩
  cases heffect with
  | queueUp => exact ⟨hkept haction, rfl⟩
  | startWriting => exact ⟨hkept haction, rfl⟩
  | lockInVain => exact ⟨steady_recover haction _ _, rfl⟩
  | fedAll => exact ⟨hkept haction, rfl⟩
  | feedInVain => exact ⟨steady_recover haction _ _, rfl⟩
  | makeRoom => exact ⟨hkept haction, rfl⟩
  | failToMakeRoom _ _ ht => exact absurd ht (Transport.write_ne_broken hunbroken)
  | refuseFrame => exact ⟨steady_recover haction _ _, rfl⟩
  | feed => exact ⟨hkept haction, rfl⟩
  | flushInVain => exact ⟨steady_recover haction _ _, rfl⟩
  | failToFlush _ ht => exact absurd ht (Transport.write_ne_broken hunbroken)
  | beginDraining h =>
      obtain hclosing | hclosed := h
      · rw [hclosing] at hphase; cases hphase
      · rw [hclosed] at hphase; cases hphase
  | judgeResponse =>
      refine ⟨?_, rfl⟩
      unfold Connection.judgeResponse
      split
      · simp [Action.isSteady, Action.negotiates]
      · split <;> simp [Action.isSteady, Action.negotiates]
  | judgeRequest =>
      refine ⟨?_, rfl⟩
      unfold Connection.judgeRequest
      split
      · exact steady_turnDown _
      · simp [Action.isSteady, Action.negotiates]
  | missRequest => exact ⟨steady_turnDown _, rfl⟩
  | _ => first
      | (cases haction; done)
      | exact ⟨hrest, rfl⟩
      | exact ⟨by simp [Action.isSteady, Action.negotiates], rfl⟩

/-- The reader **does not stop itself**. -/
theorem ReaderScript.uncancelled (h : ReaderScript (action :: rest))
    (heffect : Effect c task action rest c₁ script) : c₁.cancelled = c.cancelled := by
  cases heffect with
  | cancelReader =>
      cases h with
      | ponging _ hwrites => cases hwrites
      | closing hwrites => cases hwrites
  | _ => rfl

/-- A connection **stays steady** as long as its end does not begin. -/
theorem Steady.transition (h : c.Steady) (hreach : Reachable c) (hmove : Transition c move c')
    (hsteady : c.isSteady move = true) (hphase : c'.phase.isEnding = false)
    (hunbroken : c'.transport.broken = false) : c'.Steady := by
  obtain ⟨task, action, rest, c₁, script, rfl, hscript, heffect, rfl⟩ | hact := hmove.act_or
  · have hother : ∀ id, .call id ≠ task →
        ∀ b ∈ (c₁.setScript task script).script (.call id), b.isSteady = true := by
      intro id hne
      obtain ⟨heq, -⟩ | ⟨-, heq⟩ | ⟨hreader, -⟩ := heffect.script_after hscript (.call id)
      · exact absurd heq hne
      · rw [heq]
        exact h.calls id
      · cases hreader
    cases task with
    | reader =>
        have hcancelled := (hreach.scripted.readerScript hscript).uncancelled heffect
        refine ⟨hphase, hunbroken, ?_, fun id => hother id nofun⟩
        rw [setScript_cancelled, hcancelled, h.uncancelled]
    | call id =>
        have hcalls := h.calls id
        rw [hscript] at hcalls
        obtain ⟨haction, hrest⟩ := List.forall_mem_cons.mp hcalls
        obtain ⟨hself, hcancelled⟩ := heffect.isSteady h.phase h.unbroken haction hrest
        refine ⟨hphase, hunbroken, ?_, fun j => ?_⟩
        · rw [setScript_cancelled, hcancelled, h.uncancelled]
        · by_cases heq : j = id
          · subst heq
            rw [heffect.script_self hscript]
            exact hself
          · exact hother j fun hj => heq (TaskId.call.inj hj)
  · have huncancelled : c'.cancelled = false := by
      have hsame := h.uncancelled
      cases hmove with
      | act => exact absurd rfl (hact _)
      | _ => exact hsame
    refine ⟨hphase, hunbroken, huncancelled, fun id => ?_⟩
    obtain heq | heq | ⟨_, operation, rfl, -, -, heq⟩ := hmove.script_of_ne_act hact (.call id)
    · rw [heq]
      exact h.calls id
    · rw [heq]
      exact fun _ hb => nomatch hb
    · rw [heq]
      exact Operation.isSteady_script hsteady _

/-- Behind a run in which nobody ends it, a connection is **steady**, unless its end has begun. -/
theorem steady_of_run (hrun : (new role options keys).run moves = some c)
    (hsteady : (new role options keys).steadily moves = true) (hphase : c.phase.isEnding = false)
    (hunbroken : c.transport.broken = false) : c.Steady := by
  refine run_induction (P := fun moves x => (new role options keys).steadily moves = true →
    x.phase.isEnding = false → x.transport.broken = false → x.Steady) ?_ ?_ hrun hsteady hphase
      hunbroken
  · exact fun _ hphase hunbroken => ⟨hphase, hunbroken, rfl, fun _ _ hb => nomatch hb⟩
  · intro before c₁ move c₂ hbefore ih hstep hsteady hphase hunbroken
    rw [steadily_append hbefore, steadily_singleton, Bool.and_eq_true] at hsteady
    have hmove := transition_of_step hstep
    have hsteady₁ := ih hsteady.1 (hmove.isEnding hphase) (hmove.unbroken hunbroken)
    exact hsteady₁.transition ((reachable_new role options keys).run hbefore) hmove hsteady.2 hphase
      hunbroken

/-! ### The stream of frames -/

/-- A connection that is open **was opened by a move** of the run that led to it. -/
theorem exists_opening (hrun : (new role options keys).run moves = some c)
    (hopen : c.phase = .opened) :
    ∃ before move after c₀ c₁, moves = before ++ move :: after ∧
      (new role options keys).run before = some c₀ ∧ c₀.phase ≠ .opened ∧
      c₀.step move = some c₁ ∧ c₁.phase = .opened ∧ c₁.run after = some c := by
  refine run_induction (P := fun moves x => x.phase = .opened →
    ∃ before move after c₀ c₁, moves = before ++ move :: after ∧
      (new role options keys).run before = some c₀ ∧ c₀.phase ≠ .opened ∧
      c₀.step move = some c₁ ∧ c₁.phase = .opened ∧ c₁.run after = some x) ?_ ?_ hrun hopen
  · intro hopen
    cases hopen
  · intro before c₁ move c₂ hbefore ih hstep hopen
    by_cases hopen₁ : c₁.phase = .opened
    · obtain ⟨front, opening, back, c₀, c₃, rfl, hfront, hnot, hopens, hopen₃, hback⟩ := ih hopen₁
      have hlast : c₁.run [move] = some c₂ := run_cons_eq_some.mpr ⟨c₂, hstep, run_nil c₂⟩
      refine ⟨front, opening, back ++ [move], c₀, c₃, ?_, hfront, hnot, hopens, hopen₃, ?_⟩
      · rw [List.append_assoc, List.cons_append]
      · exact run_append_eq_some.mpr ⟨c₁, hback, hlast⟩
    · exact ⟨before, move, [], c₁, c₂, rfl, hbefore, hopen₁, hstep, hopen, run_nil c₂⟩

/-- An open connection **tells its stream** from behind the peer's head on, and its end is left to
its reader. -/
theorem telling_of_run (hrun : (new role options keys).run moves = some c)
    (hopen : c.phase = .opened) (hunbroken : c.transport.broken = false)
    (huncancelled : c.cancelled = false) :
    c.role = role ∧ c.options = options ∧ c.Intact ∧
      ∃ head stream, Handshake.headProgress options.maxHandshakeSize (peerBytes moves) =
        .done head stream ∧ Telling stream c := by
  obtain ⟨before, move, after, c₀, c₁, rfl, hbefore, hnot, hopens, hopen₁, hafter⟩ :=
    exists_opening hrun hopen
  obtain ⟨hfresh, hrole, hoptions, head, hhead⟩ :=
    opening_of_run hbefore hnot hopens hopen₁ hafter
  have hreach₀ := (reachable_new role options keys).run hbefore
  have hsent := (transition_of_step hopens).sent_of_opening hreach₀ hnot hopen₁
  obtain ⟨hintact, htelling, -, -⟩ :=
    replying_of_run hfresh hsent (hreach₀.step hopens) hafter hunbroken huncancelled
  exact ⟨hrole, hoptions, hintact, head, _, hhead, htelling⟩

/-- A steady connection whose stream of frames has begun is **open**. -/
theorem Steady.opened (h : c.Steady) (hreach : Reachable c) (hrunning : c.stage = .running) :
    c.phase = .opened := by
  have hbegun := hreach.staged.begun hrunning
  have hphase := h.phase
  cases hopen : c.phase with
  | connecting => exact absurd hopen hbegun
  | opened => rfl
  | closing => rw [hopen] at hphase; cases hphase
  | closed => rw [hopen] at hphase; cases hphase

/-- **Induction along a run** in which nobody ends the connection: in front of each move and behind
it the connection is steady, and intact once its stream of frames has begun. -/
theorem steady_induction {P : List Move → Connection → Prop} (hstart : P [] (new role options keys))
    (hmove : ∀ {before c move c'}, (new role options keys).run before = some c → c.Steady →
      (c.stage = .running → c.Intact) → P before c → c.step move = some c' →
        c.isSteady move = true → c'.Steady → P (before ++ [move]) c')
    (hrun : (new role options keys).run moves = some c)
    (hsteady : (new role options keys).steadily moves = true) (hphase : c.phase.isEnding = false)
    (hunbroken : c.transport.broken = false) : P moves c := by
  refine run_induction (P := fun moves x => (new role options keys).steadily moves = true →
    x.phase.isEnding = false → x.transport.broken = false → P moves x) (fun _ _ _ => hstart) ?_ hrun
      hsteady hphase hunbroken
  intro before c₁ move c₂ hbefore ih hstep hsteady hphase hunbroken
  have hsteady' := hsteady
  rw [steadily_append hbefore, steadily_singleton, Bool.and_eq_true] at hsteady'
  have hlast := transition_of_step hstep
  have hphase₁ := hlast.isEnding hphase
  have hunbroken₁ := hlast.unbroken hunbroken
  have hreach₁ := (reachable_new role options keys).run hbefore
  have hsteady₁ := steady_of_run hbefore hsteady'.1 hphase₁ hunbroken₁
  have hintact : c₁.stage = .running → c₁.Intact := by
    intro hrunning
    obtain ⟨-, -, hintact, -⟩ := telling_of_run hbefore (hsteady₁.opened hreach₁ hrunning)
      hunbroken₁ hsteady₁.uncancelled
    exact hintact
  exact hmove hbefore hsteady₁ hintact (ih hsteady'.1 hphase₁ hunbroken₁) hstep hsteady'.2
    (hsteady₁.transition hreach₁ hlast hsteady'.2 hphase hunbroken)

/-! ### What a steady connection keeps -/

/-- The reader of a steady connection does **not wind up**. -/
theorem Steady.not_isOver (h : c.Steady) (hreach : Reachable c)
    (hintact : c.stage = .running → c.Intact) (hscript : c.script .reader = action :: rest) :
    Script.isOver (action :: rest) = false := by
  have hrunning : c.stage = .running := by
    by_contra hidle
    have hreader := (hreach.staged.idle hidle).reader
    rw [script_reader, hreader] at hscript
    cases hscript
  refine Bool.eq_false_iff.mpr fun hover => ?_
  rw [← hscript, script_reader] at hover
  have hclosed := (hintact hrunning).closed.mpr hover
  rw [h.opened hreach hrunning] at hclosed
  cases hclosed

/-- Nobody in a steady connection **takes the writer away** or shuts the transport down. -/
theorem Steady.not_releasing (h : c.Steady) (hreach : Reachable c)
    (hintact : c.stage = .running → c.Intact) (hscript : c.script task = action :: rest) :
    action ≠ .takeWriter ∧ ∀ held, action ≠ .shutDown held := by
  cases task with
  | reader =>
      have hover := h.not_isOver hreach hintact hscript
      refine ⟨?_, ?_⟩
      · rintro rfl
        cases hover
      · rintro held rfl
        cases hover
  | call id =>
      have hsteady := h.calls id action (by rw [hscript]; exact List.mem_cons_self ..)
      refine ⟨?_, ?_⟩
      · rintro rfl
        cases hsteady
      · rintro held rfl
        cases hsteady

/-- A steady connection has **not shut its transport down**. -/
theorem unshut_of_run (hrun : (new role options keys).run moves = some c)
    (hsteady : (new role options keys).steadily moves = true) (hphase : c.phase.isEnding = false)
    (hunbroken : c.transport.broken = false) : c.transport.shut = false := by
  refine steady_induction (P := fun _ x => x.transport.shut = false) rfl ?_ hrun hsteady hphase
    hunbroken
  intro before c₁ move c₂ hbefore hsteady₁ hintact hunshut hstep _ hsteady₂
  have hreach₁ := (reachable_new role options keys).run hbefore
  obtain ⟨task, action, rest, c₃, script, rfl, hscript, heffect, rfl⟩ | hact :=
    (transition_of_step hstep).act_or
  · have hwrite : ∀ {b t}, c₁.transport.write b = .done t → t.shut = false := by
      intro b t ht
      rw [Transport.write_eq_done ht]
      exact hunshut
    have hphase₂ := hsteady₂.phase
    rw [setScript_phase] at hphase₂
    rw [setScript_transport]
    cases heffect with
    | makeRoom _ _ ht => exact hwrite ht
    | flush _ ht => exact hwrite ht
    | sendRequest ht => exact hwrite ht
    | sendAcceptance ht => exact hwrite ht
    | sendRejection ht => exact hwrite ht
    | shutDown => exact absurd rfl ((hsteady₁.not_releasing hreach₁ hintact hscript).2 _)
    | failHandshake => cases hphase₂
    | _ => exact hunshut
  · cases transition_of_step hstep with
    | act => exact absurd rfl (hact _)
    | _ => exact hunshut

/-- An open connection whose end is left to its reader **holds its transport**. -/
theorem Intact.not_released (h : c.Intact) (hopen : c.phase = .opened) : c.released = false := by
  have hreader : c.readerEnded = false := by
    refine Bool.eq_false_iff.mpr fun hended => ?_
    have hclosed := h.closed.mpr (by rw [List.isEmpty_iff.mp hended]; rfl)
    rw [hopen] at hclosed
    cases hclosed
  rw [released, h.running]
  simp only [hreader, Bool.false_and]

/-- A connection that **stays**: its end has not begun, and no handshake has failed. -/
structure Staying (c : Connection) : Prop where
  phase : c.phase.isEnding = false
  stage : c.stage ≠ .done

theorem Staying.of_opened (hreach : Reachable c) (hopen : c.phase = .opened) : c.Staying := by
  refine ⟨by rw [hopen]; rfl, ?_⟩
  rw [hreach.staged.opened (Or.inl hopen)]
  exact nofun

/-- Whoever stays **has stayed**. -/
theorem Staying.before (h : c'.Staying) (hreach : Reachable c) (hmove : Transition c move c') :
    c.Staying := by
  refine ⟨hmove.isEnding h.phase, fun hdone => h.stage ?_⟩
  cases hmove with
  | act hscript heffect =>
      rw [setScript_stage]
      cases heffect with
      | beginConnecting hstage => rw [hdone] at hstage; cases hstage
      | failToBuild hstage => rw [hdone] at hstage; cases hstage
      | beginAccepting hstage => rw [hdone] at hstage; cases hstage
      | establish =>
          rw [hreach.staged.negotiating hscript rfl] at hdone
          cases hdone
      | failHandshake => rfl
      | _ => exact hdone
  | giveUp =>
      show (if c.stage = .negotiating ∧ _ then Stage.done else c.stage) = .done
      rw [if_neg (fun hboth => by rw [hdone] at hboth; cases hboth.1), hdone]
  | _ => exact hdone

/-- A connection in use that stays has **not left its transport**. -/
theorem Staying.not_left (h : c.Staying) (hrun : (new role options keys).run moves = some c)
    (hsteady : (new role options keys).steadily moves = true)
    (hunbroken : c.transport.broken = false) : c.transport.shut = false ∧ c.released = false := by
  refine ⟨unshut_of_run hrun hsteady h.phase hunbroken, ?_⟩
  have hstage := h.stage
  cases hrunning : c.stage with
  | handshake => rw [released, hrunning]
  | negotiating => rw [released, hrunning]
  | done => exact absurd hrunning hstage
  | running =>
      have hsteady := steady_of_run hrun hsteady h.phase hunbroken
      have hopen := hsteady.opened ((reachable_new role options keys).run hrun) hrunning
      obtain ⟨-, -, hintact, -⟩ := telling_of_run hrun hopen hunbroken hsteady.uncancelled
      exact hintact.not_released hopen

/-- Only the peer **ends its stream or goes away**. -/
theorem Transition.peer_eq (hmove : Transition c move c') (hend : ∀ e, move ≠ .peerEnd e)
    (hgone : move ≠ .peerGone) :
    c'.transport.broken = c.transport.broken ∧ c'.transport.ending = c.transport.ending := by
  cases hmove with
  | act _ heffect =>
      obtain ⟨outgoing, shut, htransport⟩ := heffect.transport
      rw [setScript_transport, htransport]
      exact ⟨rfl, rfl⟩
  | peerEnd => exact absurd rfl (hend _)
  | peerGone => exact absurd rfl hgone
  | _ => exact ⟨rfl, rfl⟩

/-- An operation that does not end a connection leaves the phase alone. -/
theorem Effect.phase_of_isSteady (heffect : Effect c task action rest c₁ script)
    (haction : action.isSteady = true) (hnot : action.negotiates = false) :
    c₁.phase = c.phase := by
  cases heffect <;> first | rfl | (cases haction; done) | cases hnot

/-- A reader that **has more to read** leaves the phase alone. -/
theorem ReaderScript.phase_eq (h : ReaderScript (action :: rest))
    (hgoing : (Script.outlook (action :: rest)).stopped = false)
    (heffect : Effect c task action rest c₁ script) : c₁.phase = c.phase := by
  have hnot := h.not_negotiates action (List.mem_cons_self ..)
  cases heffect with
  | beginClosing => cases h with
      | ponging _ hwrites => cases hwrites
      | closing hwrites => cases hwrites
  | followClosing => cases h with
      | ponging _ hwrites => cases hwrites
      | closing hwrites => cases hwrites
      | following => cases hgoing
  | markClosed => cases h with
      | ponging _ hwrites => cases hwrites
      | closing hwrites => cases hwrites
      | broken => cases hgoing
      | brokenPong => cases hgoing
      | finishing => cases hgoing
  | failHandshake => cases hnot
  | establish => cases hnot
  | _ => rfl

/-- A steady connection **stays open** while its reader has more to read. -/
theorem Steady.phase_eq (h : c.Steady) (hreach : Reachable c) (hrunning : c.stage = .running)
    (hgoing : c.reader.outlook.stopped = false) (hmove : Transition c move c') :
    c'.phase = c.phase := by
  obtain ⟨task, action, rest, c₁, script, rfl, hscript, heffect, rfl⟩ | hact := hmove.act_or
  · rw [setScript_phase]
    cases task with
    | reader =>
        rw [script_reader] at hscript
        rw [hscript] at hgoing
        exact (hreach.scripted.readerScript hscript).phase_eq hgoing heffect
    | call id =>
        have haction := h.calls id action (by rw [hscript]; exact List.mem_cons_self ..)
        have hnot : action.negotiates = false := by
          refine Bool.eq_false_iff.mpr fun hnegotiates => ?_
          have hstage := hreach.staged.negotiating hscript hnegotiates
          rw [hrunning] at hstage
          cases hstage
        exact heffect.phase_of_isSteady haction hnot
  · exact (hmove.sent_of_ne_act hact).1

end Connection

end WebSocket
