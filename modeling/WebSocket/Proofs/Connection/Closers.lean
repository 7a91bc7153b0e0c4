import WebSocket.Proofs.Connection.Outgoing

/-!
# Who brings a connection to its end

A connection leaves the open phase because somebody closes it, or because its reader has read a
close frame: whoever is first is the **closer** (`Connection.closers`). Where tasks take turns, the
closer marks the close frame as sent before anybody else gets his turn. So nobody competes with it,
and the close frame of the connection is the closer's own (`Connection.EndedBy`).

## Main results

* `Connection.endedBy_of_run`: a connection has **one closer** or none, and the close frame is the
  closer's.
* `Connection.closeSent_of_looks`: a reader that has looked at the end of the stream leaves the
  close frame marked as sent.
-/

namespace WebSocket

namespace Connection

variable {c c' c₁ : Connection} {task : TaskId} {action : Action} {rest script : Script}
  {move : Move} {moves past : List Move} {role : Role} {options : Options} {keys : Nat → Mask}

/-- The task with which a move takes a connection **from open to closing**. -/
def closes? (c : Connection) : Move → Option TaskId
  | .act task =>
    match c.script task with
    | .beginClosing :: _ | .followClosing :: _ => if c.phase = .opened then some task else none
    | _ => none
  | _ => none

/-- The tasks that take a connection **from open to closing** in a run. -/
def closers (c : Connection) (moves : List Move) : List TaskId := c.trace closes? moves

theorem closers_concat {before : List Move} (hrun : c.run before = some c₁)
    (hstep : c₁.step move = some c') :
    c.closers (before ++ [move]) = c.closers before ++ (c₁.closes? move).toList := by
  rw [closers, trace_append hrun, trace_singleton hstep]
  rfl

theorem closes?_eq_none (h : c.phase ≠ .opened) : c.closes? move = none := by
  cases move with
  | act task =>
      simp only [closes?]
      split <;> first | exact if_neg h | rfl
  | _ => rfl

/-- Whose a close frame is: a closer that is an operation was **begun in order to close** the
connection with this very frame. -/
def Asked (past : List Move) (f : Frame) : TaskId → Prop
  | .reader => True
  | .call id => ∃ code reason, f = Frame.close (some ⟨code, reason⟩) ∧
      .start id (.close code reason) ∈ past

theorem Asked.append {f : Frame} (h : Asked past f task) (more : List Move) :
    Asked (past ++ more) f task := by
  cases task with
  | reader => trivial
  | call id =>
      obtain ⟨code, reason, hframe, hmem⟩ := h
      exact ⟨code, reason, hframe, List.mem_append_left _ hmem⟩

/-- **How far a closer has got**: it is about to claim the close frame, or it has handed the close
frame over or is about to do so. -/
inductive Sets (past : List Move) (c : Connection) (task : TaskId) : Prop
  | claiming {status : Option Close.Status} {recovery : Recovery} {rest : Script}
      (hclaim : c.closeSent = false) (hscript : c.script task = .claimClose status recovery :: rest)
      (hasked : Asked past (Frame.close status) task)
  | writing {status : Option Close.Status} (hclaim : c.closeSent = true)
      (hframe : Frame.close status ∈ c.sentBy task ++ (c.script task).cargo)
      (hasked : Asked past (Frame.close status) task)

theorem Sets.asked (h : Sets past c task) : ∃ f, Asked past f task := by
  cases h with
  | claiming _ _ hasked => exact ⟨_, hasked⟩
  | writing _ _ hasked => exact ⟨_, hasked⟩

/-- **Who brings a connection to its end**: nobody so far, or one closer. -/
inductive EndedBy (past : List Move) (closers : List TaskId) (c : Connection) : Prop
  | nobody (hclosers : closers = []) (hclaim : c.closeSent = false) (hphase : c.phase ≠ .closing)
      (hclaims : ∀ task status recovery rest, c.script task ≠ .claimClose status recovery :: rest)
  | closer {task : TaskId} (hclosers : closers = [task]) (hphase : c.phase.isEnding = true)
      (hsets : Sets past c task)

/-- What a number stands for **has begun** under it. -/
theorem start_mem_of_operation? {id : Nat} {operation : Operation}
    (h : operation? past id = some operation) : .start id operation ∈ past := by
  induction past using List.reverseRecOn with
  | nil => cases h
  | append_singleton past move ih =>
      by_cases hstart : ∃ other, move = .start id other
      · obtain ⟨other, rfl⟩ := hstart
        rw [operation?_start] at h
        obtain rfl := Option.some.inj h
        exact List.mem_append_right _ (List.mem_singleton_self _)
      · rw [operation?_concat past fun other hmove => hstart ⟨other, hmove⟩] at h
        exact List.mem_append_left _ (ih h)

/-- The close frame that an operation will claim is the one that it **was begun for**. -/
theorem Tied.asked (h : Tied past c) {status : Option Close.Status} {recovery : Recovery}
    (hmem : .claimClose status recovery ∈ c.script task) :
    Asked past (Frame.close status) task := by
  cases task with
  | reader => trivial
  | call id =>
      obtain ⟨operation, hoperation, hload⟩ := h id [Frame.close status]
        (List.mem_filterMap.mpr ⟨_, hmem, rfl⟩)
      obtain hregular | ⟨code, reason, rfl, hframes⟩ := Haul.of_operation hload
      · exact nomatch hregular.isClose_eq_false (List.mem_singleton_self _)
      · exact ⟨code, reason, List.head_eq_of_cons_eq hframes, start_mem_of_operation? hoperation⟩

/-- A task that will write a close frame is **about to write it**. -/
theorem Scripted.writes_of_isClosing (h : c.Scripted) (hscript : c.script task = action :: rest)
    (hclosing : Script.isClosing (action :: rest) = true) :
    ∃ status recovery, Writes [Frame.close status] recovery action ∧ Script.cargo rest = [] := by
  cases task with
  | reader =>
      cases h.readerScript hscript with
      | closing hwrites => exact ⟨_, _, hwrites, rfl⟩
      | ponging _ hwrites =>
          exact nomatch hclosing.symm.trans (hwrites.isClosing_eq_false
            (fun f hf => by obtain rfl := List.mem_singleton.mp hf; rfl) _)
      | _ => cases hclosing
  | call id =>
      obtain ⟨_, _, -, -, hcall⟩ := h.callScript hscript
      cases hcall with
      | ordinary hordinary =>
          cases hordinary with
          | closing _ hwrites => exact ⟨_, _, hwrites, rfl⟩
          | sending hwrites =>
              exact nomatch hclosing.symm.trans (hwrites.isClosing_eq_false
                (fun _ => Message.isClose_of_mem_fragments) _)
          | pinging _ hwrites =>
              exact nomatch hclosing.symm.trans (hwrites.isClosing_eq_false
                (fun f hf => by obtain rfl := List.mem_singleton.mp hf; rfl) _)
          | _ => cases hclosing
      | negotiating hnegotiating => cases hnegotiating <;> cases hclosing
      | _ => cases hclosing

/-- A close frame that is marked as sent **stays marked**. -/
theorem Effect.closeSent (heffect : Effect c task action rest c₁ script)
    (h : c.closeSent = true) : c₁.closeSent = true := by
  cases heffect with
  | claimClose hclaim => rfl
  | _ => exact h

/-- Only by a step towards the end does a connection **begin to close**. -/
theorem Effect.phase_eq_closing (heffect : Effect c task action rest c₁ script)
    (hnot : c.phase ≠ .closing) (hclosing : c₁.phase = .closing) :
    (action = .beginClosing ∨ action = .followClosing) ∧ c.phase = .opened := by
  cases heffect with
  | beginClosing h => exact ⟨.inl rfl, h⟩
  | followClosing h => exact ⟨.inr rfl, h⟩
  | markClosed => cases hclosing
  | failHandshake => cases hclosing
  | establish =>
      dsimp only at hclosing
      split at hclosing
      · cases hclosing
      · exact absurd hclosing hnot
  | _ => exact absurd hclosing hnot

section Action

variable (hreach : Reachable c) (hscript : c.script task = action :: rest)
  (heffect : Effect c task action rest c₁ script)

include hreach hscript heffect

/-- Frames that were handed over by a task **stay so**. -/
theorem Effect.mem_sentBy {f : Frame} {other : TaskId} (h : f ∈ c.sentBy other) :
    f ∈ c₁.sentBy other := by
  obtain heq | ⟨g, heq, -⟩ := heffect.sent hreach hscript
  · rwa [sentBy_congr heq]
  · by_cases hne : other = task
    · subst hne
      rw [sentBy_self heq]
      exact List.mem_append_left _ h
    · rwa [sentBy_of_ne heq (Ne.symm hne)]

/-- The close frame of a closer **stays its own**, until it is handed over and behind. -/
theorem Sets.act {closer : TaskId} (h : Sets past c closer) (hunbroken : c.transport.broken = false)
    (hparting : c.Parting) (hcourteous : c.isCourteous (.act task) = true) :
    Sets (past ++ [.act task]) (c₁.setScript task script) closer := by
  have hsent : ∀ t, (c₁.setScript task script).sentBy t = c₁.sentBy t := fun t =>
    sentBy_congr (setScript_sent ..) t
  cases h with
  | claiming hclaim hclaims hasked =>
      have heq : closer = task := by
        by_contra hne
        exact not_claims_of_pauses (pauses_of_isCourteous hcourteous hne) _ _ _ hclaims
      subst heq
      rw [hscript] at hclaims
      cases hclaims
      have hself := heffect.script_self hscript
      cases heffect with
      | claimClose =>
          refine .writing (setScript_closeSent ..) (List.mem_append_right _ ?_) (hasked.append _)
          rw [hself]
          exact List.mem_singleton_self _
      | closeClaimed hclaimed => exact nomatch hclaim.symm.trans hclaimed
  | @writing status hclaim hframe hasked =>
      have hclaimed : (c₁.setScript task script).closeSent = true :=
        (setScript_closeSent ..).trans (heffect.closeSent hclaim)
      refine .writing hclaimed ?_ (hasked.append _)
      rw [hsent]
      obtain hframe | hframe := List.mem_append.mp hframe
      · exact List.mem_append_left _ (heffect.mem_sentBy hreach hscript hframe)
      · obtain ⟨rfl, heq⟩ | ⟨-, heq⟩ | ⟨rfl, -, -, _, _, rfl⟩ := heffect.script_after hscript closer
        · have hclosing : Script.isClosing (action :: rest) = true := by
            rw [← hscript]
            exact List.any_eq_true.mpr ⟨_, hframe, rfl⟩
          obtain ⟨_, recovery, hwrites, hrest⟩ :=
            hreach.scripted.writes_of_isClosing hscript hclosing
          have hkept :=
            hwrites.sentBy heffect hreach.sendable (fun hgone => ?_) hunbroken hrest
          · rw [heq, hkept, ← hscript]
            exact List.mem_append_right _ hframe
          · exact List.ne_nil_of_mem hframe (hparting.gone hgone closer).1
        · rw [heq]
          exact List.mem_append_right _ hframe
        · have hstage := hreach.staged.negotiating hscript rfl
          rw [script_reader, (hreach.staged.idle (by rw [hstage]; exact nofun)).reader] at hframe
          cases hframe

end Action

/-- Where tasks take turns, a move that is no action takes **nobody away** who does not wait, or who
has the close frame to write. -/
theorem Transition.kept_of_isCourteous (hmove : Transition c move c')
    (hact : ∀ task, move ≠ .act task) (hcourteous : c.isCourteous move = true)
    (huncancelled : c.cancelled = false) (hscript : c.script task = action :: rest)
    (hgoes : ∀ a, action ≠ .answer a)
    (hwaits : action.mayWait = true → Script.isClosing (action :: rest) = true) :
    c'.script task = action :: rest := by
  obtain hkept | ⟨-, a, -, -, hanswer⟩ | ⟨id, rfl, rfl, hsuspended⟩ | ⟨-, hcancelled⟩ :=
    hmove.kept_of_ne_act hact (by rw [hscript]; exact List.cons_ne_nil _ _)
  · exact hkept.trans hscript
  · exact absurd (List.head_eq_of_cons_eq (hscript.symm.trans hanswer)) (hgoes a)
  · rw [isSuspended, hscript] at hsuspended
    rw [isCourteous, hscript, Bool.and_eq_true, Bool.not_eq_true', Bool.not_eq_true'] at hcourteous
    cases (hwaits hsuspended).symm.trans hcourteous.1
  · cases hcancelled.symm.trans huncancelled

/-- A move that is no action leaves a closer alone. -/
theorem Sets.of_ne_act {closer : TaskId} (h : Sets past c closer) (hmove : Transition c move c')
    (hact : ∀ task, move ≠ .act task) (hcourteous : c.isCourteous move = true)
    (huncancelled : c.cancelled = false) : Sets (past ++ [move]) c' closer := by
  obtain ⟨-, hmark, hsent⟩ := hmove.sent_of_ne_act hact
  cases h with
  | claiming hclaim hscript hasked =>
      exact .claiming (hmark.trans hclaim) (hmove.kept_of_isCourteous hact hcourteous huncancelled
        hscript (fun _ => nofun) nofun) (hasked.append _)
  | writing hclaim hframe hasked =>
      refine .writing (hmark.trans hclaim) ?_ (hasked.append _)
      rw [sentBy_congr hsent]
      obtain hframe | hframe := List.mem_append.mp hframe
      · exact List.mem_append_left _ hframe
      · refine List.mem_append_right _ ?_
        cases hscript : c.script closer with
        | nil => rw [hscript] at hframe; cases hframe
        | cons action rest =>
            rw [hmove.kept_of_isCourteous hact hcourteous huncancelled hscript ?_ ?_, ← hscript]
            · exact hframe
            · rintro a rfl
              rw [hscript] at hframe
              cases hframe
            · intro _
              rw [← hscript]
              exact List.any_eq_true.mpr ⟨_, hframe, rfl⟩

/-- Behind a step towards the end a task **claims the close frame**. -/
theorem Scripted.claims_next (h : c.Scripted) (hscript : c.script task = action :: rest)
    (haction : action = .beginClosing ∨ action = .followClosing) :
    ∃ status recovery more, rest = .claimClose status recovery :: more := by
  cases task with
  | reader =>
      cases h.readerScript hscript with
      | following => exact ⟨_, _, _, rfl⟩
      | ponging _ hw => cases hw <;> simp at haction
      | closing hw => cases hw <;> simp at haction
      | _ => simp at haction
  | call id =>
      have hnot := h.not_reacts hscript
      obtain rfl | rfl := haction
      · obtain ⟨_, _, -, -, hcall⟩ := h.callScript hscript
        cases hcall with
        | ordinary hordinary =>
            cases hordinary with
            | close => exact ⟨_, _, _, rfl⟩
            | sending hw => cases hw
            | pinging _ hw => cases hw
            | closing _ hw => cases hw
        | negotiating hnegotiating => cases hnegotiating
      · cases hnot

/-- The reader of a connection that lives follows the end **only while it is open or closing**. -/
theorem Living.not_follows (h : c.Living) (hreach : Reachable c) (hnot : c.phase ≠ .opened)
    (hclosing : c.phase ≠ .closing) : c.script task ≠ .followClosing :: rest := by
  intro hscript
  have hintact := h.intact_of_needsStream hreach hscript rfl
  have hbegun := hreach.staged.begun hintact.running
  cases task with
  | reader =>
      have hclosed : c.phase = .closed := by
        cases hphase : c.phase with
        | connecting => exact absurd hphase hbegun
        | opened => exact absurd hphase hnot
        | closing => exact absurd hphase hclosing
        | closed => rfl
      have hover := h.isOver hclosed
      rw [show c.reader = _ from hscript] at hover
      cases hover
  | call id => cases hreach.scripted.not_reacts hscript

theorem closes?_act (hscript : c.script task = action :: rest)
    (haction : action = .beginClosing ∨ action = .followClosing) (hopen : c.phase = .opened) :
    c.closes? (.act task) = some task := by
  rw [closes?, hscript]
  obtain rfl | rfl := haction <;> exact if_pos hopen

theorem closes?_act_of_not (hscript : c.script task = action :: rest)
    (hnot : ¬((action = .beginClosing ∨ action = .followClosing) ∧ c.phase = .opened)) :
    c.closes? (.act task) = none := by
  rw [closes?, hscript]
  cases action with
  | beginClosing => exact if_neg fun hopen => hnot ⟨.inl rfl, hopen⟩
  | followClosing => exact if_neg fun hopen => hnot ⟨.inr rfl, hopen⟩
  | _ => rfl

/-- Who takes a connection from open to closing is **in front of a step** towards the end. -/
theorem closes?_eq_some (h : c.closes? move = some task) : ∃ action rest,
    c.script task = action :: rest ∧ (action = .beginClosing ∨ action = .followClosing) := by
  cases move with
  | act other =>
      rw [closes?] at h
      split at h
      · rename_i hscript
        split at h
        · obtain rfl := Option.some.inj h
          exact ⟨_, _, hscript, .inl rfl⟩
        · cases h
      · rename_i hscript
        split at h
        · obtain rfl := Option.some.inj h
          exact ⟨_, _, hscript, .inr rfl⟩
        · cases h
      · cases h
  | _ => cases h

/-- A step towards the end **takes an open connection to closing**, and does nothing else. -/
theorem Effect.closing_of_opened (heffect : Effect c task action rest c₁ script)
    (haction : action = .beginClosing ∨ action = .followClosing) (hopen : c.phase = .opened) :
    c₁.phase = .closing ∧ c₁.closeSent = c.closeSent ∧ script = rest := by
  obtain rfl | rfl := haction
  · cases heffect with
    | beginClosing => exact ⟨rfl, rfl, rfl⟩
    | failClosing hnot => exact absurd hopen hnot
  · cases heffect with
    | followClosing => exact ⟨rfl, rfl, rfl⟩
    | pastClosing hnot => exact absurd hopen hnot

/-- The first to take a step towards the end is **the closer** from then on. -/
theorem endedBy_of_closes (hreach : Reachable c) (htied : Tied past c)
    (hscript : c.script task = action :: rest) (heffect : Effect c task action rest c₁ script)
    (haction : action = .beginClosing ∨ action = .followClosing) (hopen : c.phase = .opened)
    (hclaim : c.closeSent = false) :
    EndedBy (past ++ [move]) [task] (c₁.setScript task script) := by
  obtain ⟨status, recovery, more, rfl⟩ := hreach.scripted.claims_next hscript haction
  have hmem : .claimClose status recovery ∈ c.script task := by
    rw [hscript]
    exact List.mem_cons_of_mem _ (List.mem_cons_self ..)
  obtain ⟨hclosing, hmark, rfl⟩ := heffect.closing_of_opened haction hopen
  refine .closer rfl ?_ (.claiming ?_ (heffect.script_self hscript) ((htied.asked hmem).append _))
  · rw [setScript_phase, hclosing]
    rfl
  · rw [setScript_closeSent, hmark, hclaim]

/-- With nobody about to claim the close frame, an action that takes no step towards the end brings
**nobody** to it. -/
theorem Effect.claims_of_not_closes (hreach : Reachable c) (hliving : c.Living)
    (hscript : c.script task = action :: rest) (heffect : Effect c task action rest c₁ script)
    (hphase : c.phase ≠ .closing)
    (hleaves : ¬((action = .beginClosing ∨ action = .followClosing) ∧ c.phase = .opened))
    (hclaims : ∀ task status recovery rest, c.script task ≠ .claimClose status recovery :: rest) :
    ∀ other status recovery rest,
      (c₁.setScript task script).script other ≠ .claimClose status recovery :: rest := by
  intro other status recovery more hnew
  obtain ⟨rfl, heq⟩ | ⟨-, heq⟩ | ⟨-, -, heq, -⟩ := heffect.script_after hscript other
  · rw [heq] at hnew
    obtain ⟨rfl, hopen⟩ | rfl := heffect.claims hreach.scripted hscript hnew
    · exact hleaves ⟨.inl rfl, hopen⟩
    · by_cases hopen : c.phase = .opened
      · exact hleaves ⟨.inr rfl, hopen⟩
      · exact hliving.not_follows hreach hopen hphase hscript
  · exact hclaims _ _ _ _ (heq.symm.trans hnew)
  · exact nomatch heq.symm.trans hnew

/-- **An action** leaves a connection with one closer or none. -/
theorem EndedBy.act {closers : List TaskId} (h : EndedBy past closers c) (hreach : Reachable c)
    (hliving : c.Living) (hparting : c.Parting) (htied : Tied past c)
    (hscript : c.script task = action :: rest) (heffect : Effect c task action rest c₁ script)
    (hcourteous : c.isCourteous (.act task) = true) :
    EndedBy (past ++ [.act task]) (closers ++ (c.closes? (.act task)).toList)
      (c₁.setScript task script) := by
  cases h with
  | closer hclosers hphase hsets =>
      have hnot : c.phase ≠ .opened := fun hopen => by rw [hopen] at hphase; cases hphase
      refine .closer ?_ ?_ (hsets.act hreach hscript heffect hliving.unbroken hparting hcourteous)
      · rw [closes?_eq_none hnot, hclosers]
        rfl
      · rw [setScript_phase]
        exact heffect.isEnding hphase
  | nobody hclosers hclaim hphase hclaims =>
      by_cases hleaves : (action = .beginClosing ∨ action = .followClosing) ∧ c.phase = .opened
      · rw [closes?_act hscript hleaves.1 hleaves.2, hclosers]
        exact endedBy_of_closes hreach htied hscript heffect hleaves.1 hleaves.2 hclaim
      · refine .nobody ?_ ?_ ?_
          (heffect.claims_of_not_closes hreach hliving hscript hphase hleaves hclaims)
        · rw [closes?_act_of_not hscript hleaves, hclosers]
          rfl
        · rw [setScript_closeSent]
          cases heffect with
          | claimClose => exact absurd hscript (hclaims _ _ _ _)
          | _ => exact hclaim
        · rw [setScript_phase]
          exact fun hclosing => hleaves (heffect.phase_eq_closing hphase hclosing)

/-- **Every move** leaves a connection with one closer or none. -/
theorem EndedBy.transition {closers : List TaskId} (h : EndedBy past closers c)
    (hreach : Reachable c) (hliving : c.Living) (hparting : c.Parting) (htied : Tied past c)
    (hmove : Transition c move c') (hcourteous : c.isCourteous move = true) :
    EndedBy (past ++ [move]) (closers ++ (c.closes? move).toList) c' := by
  obtain ⟨task, action, rest, c₁, script, rfl, hscript, heffect, rfl⟩ | hact := hmove.act_or
  · exact h.act hreach hliving hparting htied hscript heffect hcourteous
  · have hnone : c.closes? move = none := by
      cases move with
      | act task => exact absurd rfl (hact task)
      | _ => rfl
    obtain ⟨hsame, hmark, -⟩ := hmove.sent_of_ne_act hact
    rw [hnone, Option.toList_none, List.append_nil]
    cases h with
    | closer hclosers hphase hsets =>
        exact .closer hclosers (hsame ▸ hphase)
          (hsets.of_ne_act hmove hact hcourteous hliving.uncancelled)
    | nobody hclosers hclaim hphase hclaims =>
        refine .nobody hclosers (hmark.trans hclaim) (hsame ▸ hphase) fun task => ?_
        obtain heq | ⟨-, hnot⟩ := hmove.cargo_of_ne_act hact task
        · rw [heq]
          exact hclaims task
        · exact hnot

/-- **A connection has one closer or none**, and the close frame is the closer's own, where tasks
take turns. -/
theorem endedBy_of_run (hrun : (new role options keys).run moves = some c)
    (hcourteous : (new role options keys).courteously moves = true)
    (hopened : OpenedFirst (new role options keys) moves c)
    (hunbroken : c.transport.broken = false) (huncancelled : c.cancelled = false) :
    EndedBy moves ((new role options keys).closers moves) c := by
  refine (living_induction (P := fun moves x => x.Parting ∧
    EndedBy moves ((new role options keys).closers moves) x) ?_ ?_ hrun hcourteous hopened hunbroken
      huncancelled).2
  · refine ⟨parting_new role options keys, .nobody rfl rfl nofun fun task _ _ _ => ?_⟩
    cases task <;> exact nofun
  · intro before c₁ move c₂ hbefore hliving ⟨hparting, ih⟩ hstep hcourteous hliving'
    have hreach := (reachable_new role options keys).run hbefore
    have hmove := transition_of_step hstep
    refine ⟨hparting.transition hreach hliving hmove hcourteous hliving', ?_⟩
    rw [closers_concat hbefore hstep]
    exact ih.transition hreach hliving hparting (tied_of_run hbefore) hmove hcourteous

/-! ### The look at the end of the stream -/

/-- A close frame that is marked as sent **stays marked** in every move. -/
theorem Transition.closeSent (hmove : Transition c move c') (h : c.closeSent = true) :
    c'.closeSent = true := by
  obtain ⟨task, action, rest, c₁, script, rfl, hscript, heffect, rfl⟩ | hact := hmove.act_or
  · rw [setScript_closeSent]
    exact heffect.closeSent h
  · exact (hmove.sent_of_ne_act hact).2.1.trans h

/-- The look at the end of the stream leaves the close frame **marked as sent**. -/
theorem Transition.closeSent_of_look (hmove : Transition c move c') {look : Look} {payload : Bytes}
    (hlook : c.look? move = some look) (hstop : look.occasion = .stop payload) :
    c'.closeSent = true := by
  cases hmove with
  | @act task action rest c₁ script hscript heffect =>
      cases task with
      | call id => cases hlook
      | reader =>
          rw [setScript_closeSent]
          rw [look?, show c.reader = _ from hscript] at hlook
          cases action with
          | answerPing =>
              obtain rfl := Option.some.inj hlook
              cases hstop
          | claimClose =>
              cases heffect with
              | claimClose => rfl
              | closeClaimed hclaimed => exact hclaimed
          | _ => cases hlook
  | _ => cases hlook

/-- A reader that **has looked at the end of the stream** leaves the close frame marked as sent. -/
theorem closeSent_of_looks (hrun : c.run moves = some c') :
    ∀ look ∈ c.looks moves, ∀ payload, look.occasion = .stop payload → c'.closeSent = true := by
  refine run_induction (P := fun moves x => ∀ look ∈ c.looks moves, ∀ payload,
    look.occasion = .stop payload → x.closeSent = true) (fun _ => nofun) ?_ hrun
  intro before c₁ move c₂ hbefore ih hstep look hlook payload hstop
  have hmove := transition_of_step hstep
  rw [looks, trace_append hbefore, trace_singleton hstep] at hlook
  obtain hlook | hlook := List.mem_append.mp hlook
  · exact hmove.closeSent (ih look hlook payload hstop)
  · exact hmove.closeSent_of_look (Option.mem_toList.mp hlook) hstop

end Connection

end WebSocket
