import WebSocket.Proofs.Connection.Finality
import WebSocket.Proofs.Connection.Sending
import WebSocket.Proofs.Connection.Turns

/-!
# How the writer is taken away

A connection that nobody tears down lives from its opening until its reader has nothing more to read
(`Connection.Living`). The reader then marks it closed and stands at the writer lock like everybody
else. Where tasks take turns, whoever has frames to write stands in front of it, since nobody gets
frames to write any more. So when the reader takes the writer away, nobody misses it
(`Connection.Parting`).

## Main results

* `Connection.living_induction`: induction along a run of a connection that **lives**.
* `Connection.Parting.transition`: nobody who has frames to write is **left without a writer**.
-/

namespace WebSocket

/-- A task that gets the lock is **the first** at it. -/
theorem Lock.eq_of_acquire {l : Lock} {task : TaskId} (h : l.Sound)
    (hheld : (l.acquire task).holder = some task) {other : TaskId} {front back : List TaskId}
    (hqueue : l.queue = front ++ other :: back) (hnot : task ∉ front) : other = task := by
  cases hholder : l.holder with
  | none =>
      rw [Lock.queue_of_free h hholder] at hqueue
      simp at hqueue
  | some holder =>
      obtain rfl := Option.some.inj ((Lock.holder_acquire hholder task).symm.trans hheld)
      rw [Lock.queue_of_held hholder] at hqueue
      cases front with
      | nil => exact (List.cons.inj hqueue).1.symm
      | cons first front =>
          exact absurd ((List.cons.inj hqueue).1 ▸ List.mem_cons_self) hnot

namespace Connection

variable {c c' c₁ : Connection} {task : TaskId} {action : Action} {rest script : Script}
  {move : Move} {moves before after : List Move} {role : Role} {options : Options}
  {keys : Nat → Mask}

/-! ### Connections that live -/

/-- A connection that **lives**: the peer is there to be written to, nobody has told the reader to
stop, and from its opening on its end is left to the reader. -/
structure Living (c : Connection) : Prop where
  unbroken : c.transport.broken = false
  uncancelled : c.cancelled = false
  intact : c.phase ≠ .connecting → c.Intact

/-- A run in which the end of the connection has not begun **before it was open**. -/
def OpenedFirst (start : Connection) (moves : List Move) (c : Connection) : Prop :=
  c.phase.isEnding = true → ∃ before after c₀, moves = before ++ after ∧
    start.run before = some c₀ ∧ c₀.phase = .opened

/-- Behind the opening **all accounts of the reader are kept**, in whatever phase. -/
theorem accounts_of_opened (hrun : (new role options keys).run (before ++ after) = some c)
    {c₀ : Connection} (hbefore : (new role options keys).run before = some c₀)
    (hopen : c₀.phase = .opened) (hunbroken : c.transport.broken = false)
    (huncancelled : c.cancelled = false) :
    c.Intact ∧ (∃ head stream, Handshake.headProgress options.maxHandshakeSize
      (peerBytes (before ++ after)) = .done head stream ∧ Telling stream c) ∧
        (∃ (start : Connection) (own : List Move), start.run own = some c ∧
          Replying (start.looks own) c) ∧ c.Releasing := by
  obtain ⟨front, opening, back, d₀, d₁, rfl, hfront, hnot, hopens, hopen₁, hback⟩ :=
    exists_opening hbefore hopen
  rw [List.append_assoc, List.cons_append] at hrun ⊢
  obtain ⟨d, hd, hrest⟩ := run_append_eq_some.mp hrun
  obtain rfl : d = d₀ := Option.some.inj (hd.symm.trans hfront)
  obtain ⟨e, he, hafter⟩ := run_cons_eq_some.mp hrest
  obtain rfl : e = d₁ := Option.some.inj (he.symm.trans hopens)
  obtain ⟨hfresh, -, -, head, hhead⟩ := opening_of_run hfront hnot hopens hopen₁ hafter
  have hreach₀ := (reachable_new role options keys).run hfront
  have hsent := (transition_of_step hopens).sent_of_opening hreach₀ hnot hopen₁
  obtain ⟨hintact, htelling, hreplying, hreleasing⟩ :=
    replying_of_run hfresh hsent (hreach₀.step hopens) hafter hunbroken huncancelled
  exact ⟨hintact, ⟨head, _, hhead, htelling⟩, ⟨_, _, hafter, hreplying⟩, hreleasing⟩

/-- Behind its opening a connection **was open** once. -/
theorem OpenedFirst.split (h : OpenedFirst (new role options keys) moves c)
    (hrun : (new role options keys).run moves = some c) (hbegun : c.phase ≠ .connecting) :
    ∃ before after c₀, moves = before ++ after ∧
      (new role options keys).run before = some c₀ ∧ c₀.phase = .opened := by
  by_cases hending : c.phase.isEnding = true
  · exact h hending
  · refine ⟨moves, [], c, (List.append_nil moves).symm, hrun, ?_⟩
    cases hphase : c.phase with
    | connecting => exact absurd hphase hbegun
    | opened => rfl
    | closing | closed => rw [hphase] at hending; exact absurd rfl hending

/-- Such a connection **lives**, unless the peer goes away or the reader is told to stop. -/
theorem living_of_run (hrun : (new role options keys).run moves = some c)
    (hopened : OpenedFirst (new role options keys) moves c)
    (hunbroken : c.transport.broken = false) (huncancelled : c.cancelled = false) : c.Living := by
  refine ⟨hunbroken, huncancelled, fun hbegun => ?_⟩
  obtain ⟨before, after, c₀, rfl, hbefore, hopen⟩ := hopened.split hrun hbegun
  exact (accounts_of_opened hrun hbefore hopen hunbroken huncancelled).1

/-- What was opened first has been so **in front of the last move**. -/
theorem OpenedFirst.of_step (hmove : c.step move = some c')
    (hrun : (new role options keys).run moves = some c)
    (h : OpenedFirst (new role options keys) (moves ++ [move]) c') :
    OpenedFirst (new role options keys) moves c := by
  intro hending
  have hending' : c'.phase.isEnding = true := by
    by_contra hnot
    rw [(transition_of_step hmove).isEnding (Bool.eq_false_iff.mpr hnot)] at hending
    cases hending
  obtain ⟨before, after, c₀, hsplit, hbefore, hopen⟩ := h hending'
  obtain rfl | ⟨after, last, rfl⟩ := after.eq_nil_or_concat
  · rw [List.append_nil] at hsplit
    subst hsplit
    have hlast : (new role options keys).run (moves ++ [move]) = some c' :=
      run_append_eq_some.mpr ⟨c, hrun, run_cons_eq_some.mpr ⟨c', hmove, run_nil c'⟩⟩
    obtain rfl : c₀ = c' := Option.some.inj (hbefore.symm.trans hlast)
    rw [hopen] at hending'
    cases hending'
  · rw [List.concat_eq_append, ← List.append_assoc] at hsplit
    exact ⟨before, after, c₀, (List.append_inj' hsplit rfl).1, hbefore, hopen⟩

/-- **Induction along a run** in which tasks take turns: in front of each move and behind it the
connection lives. -/
theorem living_induction {P : List Move → Connection → Prop} (hstart : P [] (new role options keys))
    (hmove : ∀ {before c move c'}, (new role options keys).run before = some c → c.Living →
      P before c → c.step move = some c' → c.isCourteous move = true → c'.Living →
        P (before ++ [move]) c')
    (hrun : (new role options keys).run moves = some c)
    (hcourteous : (new role options keys).courteously moves = true)
    (hopened : OpenedFirst (new role options keys) moves c)
    (hunbroken : c.transport.broken = false) (huncancelled : c.cancelled = false) : P moves c := by
  refine run_induction (P := fun moves x => (new role options keys).courteously moves = true →
    OpenedFirst (new role options keys) moves x → x.transport.broken = false →
      x.cancelled = false → P moves x) (fun _ _ _ _ => hstart) ?_ hrun hcourteous hopened hunbroken
        huncancelled
  intro before c₁ move c₂ hbefore ih hstep hcourteous hopened hunbroken huncancelled
  rw [courteously_append hbefore, courteously_singleton, Bool.and_eq_true] at hcourteous
  have hlast := transition_of_step hstep
  have hopened₁ := hopened.of_step hstep hbefore
  have hunbroken₁ := hlast.unbroken hunbroken
  have huncancelled₁ := hlast.uncancelled huncancelled
  have hrun₂ : (new role options keys).run (before ++ [move]) = some c₂ :=
    run_append_eq_some.mpr ⟨c₁, hbefore, run_cons_eq_some.mpr ⟨c₂, hstep, run_nil c₂⟩⟩
  exact hmove hbefore (living_of_run hbefore hopened₁ hunbroken₁ huncancelled₁)
    (ih hcourteous.1 hopened₁ hunbroken₁ huncancelled₁) hstep hcourteous.2
    (living_of_run hrun₂ hopened hunbroken huncancelled)

/-- A connection that lives has **closed** when its reader has ended. -/
theorem Living.closed_of_ended (h : c.Living) (hbegun : c.phase ≠ .connecting)
    (hreader : c.reader = []) : c.phase = .closed :=
  (h.intact hbegun).closed.mpr (by rw [hreader]; rfl)

/-- Its reader **winds up** once it has closed. -/
theorem Living.isOver (h : c.Living) (hclosed : c.phase = .closed) : c.reader.isOver = true :=
  (h.intact (by rw [hclosed]; exact nofun)).closed.mp hclosed

/-- A task with something to do in the stream of frames has a connection that has **begun**. -/
theorem Living.intact_of_needsStream (h : c.Living) (hreach : Reachable c)
    (hscript : c.script task = action :: rest) (hneeds : action.needsStream = true) : c.Intact :=
  h.intact (hreach.staged.begun (hreach.staged.streaming hscript hneeds))

/-- No operation of a connection that lives **takes the writer away**. -/
theorem Intact.not_takes (h : c.Intact) {id : Nat}
    (hscript : c.script (.call id) = action :: rest) :
    action ≠ .takeWriter ∧ (∀ held, action ≠ .shutDown held) ∧ action ≠ .markClosed := by
  have hpatient := h.calls id
  rw [hscript] at hpatient
  obtain hcancels | hall := hpatient
  · obtain rfl : action = .cancelReader := Option.some.inj hcancels
    exact ⟨nofun, fun _ => nofun, nofun⟩
  · have haction := hall action (List.mem_cons_self ..)
    refine ⟨?_, ?_, ?_⟩
    · rintro rfl
      cases haction
    · rintro held rfl
      cases haction
    · rintro rfl
      cases haction

/-- The reader of a connection that lives has something to do only when the connection **has
begun**. -/
theorem Living.intact_of_reader (h : c.Living) (hreach : Reachable c) (hreader : c.reader ≠ []) :
    c.Intact := by
  refine h.intact (hreach.staged.begun ?_)
  by_contra hidle
  exact hreader (hreach.staged.idle hidle).reader

/-- So there is a writer only then. -/
theorem Living.intact_of_writer (h : c.Living) (hreach : Reachable c) (hwriter : c.writer ≠ none) :
    c.Intact := by
  refine h.intact (hreach.staged.begun ?_)
  by_contra hidle
  exact hwriter (hreach.staged.idle hidle).writer

/-! ### Who is served before the reader -/

/-- What holds when **the reader winds up**. -/
structure Parting (c : Connection) : Prop where
  /-- Whoever has frames to write stands at the lock **in front of the reader**, which waits for the
  writer in order to take it away. -/
  served : c.reader = [.takeWriter] → ∀ task, (c.script task).cargo ≠ [] →
    ∃ front back, c.lock.queue = front ++ task :: back ∧ .reader ∉ front
  /-- Nobody is about to claim the close frame of a connection that has closed. -/
  unclaimed : c.phase = .closed → ∀ task status recovery rest,
    c.script task ≠ .claimClose status recovery :: rest
  /-- Once the writer is gone, **nobody has frames to write**. -/
  gone : c.writer = none → ∀ task, (c.script task).cargo = [] ∧ (c.script task).holdsLock = false
  /-- The transport is shut only when the writer is gone. -/
  shut : (c.transport.shut = true ∨ ∃ held, c.reader = [.shutDown held]) →
    c.writer = none ∧ c.phase = .closed

/-- Whoever has frames to write after an action **had them before**, unless it has just looked at
the phase or claimed the close frame. -/
theorem Effect.cargo_before (heffect : Effect c task action rest c₁ script) (h : c.Scripted)
    (hscript : c.script task = action :: rest) {other : TaskId}
    (hcargo : ((c₁.setScript task script).script other).cargo ≠ []) :
    c.phase = .opened ∨
      (∃ status recovery more, c.script task = .claimClose status recovery :: more) ∨
        (c.script other).cargo ≠ [] := by
  by_cases hne : other = task
  · subst hne
    rw [heffect.script_self hscript] at hcargo
    have hchange := heffect.cargoChange h hscript
    rw [← hscript] at hchange
    cases hchange with
    | kept heq => exact .inr (.inr (heq ▸ hcargo))
    | dropped hnil => exact absurd hnil hcargo
    | checked hopen => exact .inl hopen
    | claimed hclaims => exact .inr (.inl ⟨_, _, _, hclaims⟩)
    | fed heq => exact .inr (.inr (heq ▸ List.cons_ne_nil _ _))
  · obtain heq | hnil := heffect.cargo_other hscript hne
    · exact .inr (.inr (heq ▸ hcargo))
    · exact absurd hnil hcargo

/-- Without a writer nobody **gets to work behind the lock**. -/
theorem Effect.holdsLock_before (heffect : Effect c task action rest c₁ script) (h : c.Scripted)
    (hscript : c.script task = action :: rest) (hgone : c.writer = none)
    (hholds : script.holdsLock = true) : action.holdsLock = true := by
  have hchange := heffect.lockChange h hscript
  generalize c₁.lock = l at hchange
  cases hchange with
  | unconcerned _ _ hnot => exact nomatch hholds.symm.trans hnot
  | queued _ _ hasks => exact nomatch hholds.symm.trans (Script.holdsLock_of_asksLock hasks)
  | passed _ _ hnot => exact nomatch hholds.symm.trans hnot
  | kept hworks => exact hworks
  | released hworks => exact hworks
  | acquired hasks =>
      have hrest := holdsLock_of_forall (h.tail_not_holdsLock hscript)
      cases heffect with
      | queueUp => cases hholds
      | startWriting _ hw => exact nomatch hgone.symm.trans hw
      | lockInVain => exact nomatch hholds.symm.trans (holdsLock_recover hrest _ _)
      | queueUpToTake => cases hholds
      | takeNothing => exact nomatch hholds.symm.trans hrest
      | takeWriter => cases hholds
      | _ => cases hasks

/-- The reader of a tended connection **winds up** by closing the connection, and by taking the
writer away and shutting the transport down. -/
theorem Tended.winds_up (h : c.Tended) (hreach : Reachable c)
    (hscript : c.script .reader = action :: rest) (heffect : Effect c .reader action rest c₁ script)
    (hover : script.isOver = true) : (action = .markClosed ∧ rest = [.takeWriter]) ∨
      (action = .takeWriter ∧ rest = []) ∨ ∃ held, action = .shutDown held ∧ rest = [] := by
  have hshape := hreach.scripted.readerScript hscript
  by_cases hmark : action :: rest = [.markClosed, .takeWriter]
  · exact .inl (List.cons.inj hmark)
  cases hbefore : Script.isOver (action :: rest) with
  | false =>
      have hnot := (h.readerStep hreach hscript heffect).not_over hbefore hmark
      exact nomatch hover.symm.trans hnot
  | true =>
      cases action with
      | takeWriter => cases hshape with
          | ponging _ hw => cases hw
          | closing hw => cases hw
          | releasing => exact .inr (.inl ⟨rfl, rfl⟩)
      | shutDown held => cases hshape with
          | ponging _ hw => cases hw
          | closing hw => cases hw
          | shutting => exact .inr (.inr ⟨_, rfl, rfl⟩)
      | _ => cases hbefore

/-- A reader that is past its first action **had begun before**. -/
theorem Effect.reader_ne_nil (heffect : Effect c task action rest c₁ script)
    (hscript : c.script task = action :: rest) (hbusy : (c₁.setScript task script).reader ≠ [])
    (hreads : (c₁.setScript task script).reader ≠ [.readFrame]) : c.reader ≠ [] := by
  intro hempty
  cases task with
  | reader => exact nomatch hempty.symm.trans hscript
  | call id =>
      rw [setScript_reader_of_call] at hbusy hreads
      obtain heq | ⟨_, _, -, heq⟩ := heffect.reader_eq
      · exact hbusy (heq.trans hempty)
      · exact hreads heq

/-- The reader waits for the writer only when it **did before**, or when it has just closed the
connection. -/
theorem Tended.takeWriter_before (h : c.Tended) (hreach : Reachable c)
    (hscript : c.script task = action :: rest) (heffect : Effect c task action rest c₁ script)
    (hreader : (c₁.setScript task script).reader = [.takeWriter]) :
    c.reader = [.takeWriter] ∨ (task = .reader ∧ action = .markClosed ∧ rest = [.takeWriter]) := by
  cases task with
  | call id =>
      rw [setScript_reader_of_call] at hreader
      obtain heq | ⟨_, _, -, heq⟩ := heffect.reader_eq
      · exact .inl (heq.symm.trans hreader)
      · exact nomatch heq.symm.trans hreader
  | reader =>
      rw [setScript_reader_of_reader] at hreader
      obtain ⟨haction, hrest⟩ | ⟨rfl, rfl⟩ | ⟨held, rfl, rfl⟩ :=
        h.winds_up hreach hscript heffect (by rw [hreader]; rfl)
      · exact .inr ⟨rfl, haction, hrest⟩
      · exact .inl hscript
      · cases heffect <;> cases hreader

/-- The reader shuts the transport down only when it **did before**, or when it has just taken the
writer away. -/
theorem Tended.shutDown_before (h : c.Tended) (hreach : Reachable c)
    (hscript : c.script task = action :: rest) (heffect : Effect c task action rest c₁ script)
    {held : Bytes} (hreader : (c₁.setScript task script).reader = [.shutDown held]) :
    c.reader = [.shutDown held] ∨ (c.reader = [.takeWriter] ∧ c₁.writer = none ∧
      held = c.held ∧ (c.lock.acquire .reader).holder = some .reader) := by
  cases task with
  | call id =>
      rw [setScript_reader_of_call] at hreader
      obtain heq | ⟨_, _, -, heq⟩ := heffect.reader_eq
      · exact .inl (heq.symm.trans hreader)
      · exact nomatch heq.symm.trans hreader
  | reader =>
      rw [setScript_reader_of_reader] at hreader
      obtain ⟨rfl, rfl⟩ | ⟨rfl, rfl⟩ | ⟨_, rfl, rfl⟩ :=
        h.winds_up hreach hscript heffect (by rw [hreader]; rfl)
      · cases heffect; cases hreader
      · cases heffect with
        | queueUpToTake => cases hreader
        | takeNothing => cases hreader
        | takeWriter hheld hw =>
            cases hreader
            exact .inr ⟨hscript, rfl, (held_of_writer hw).1.symm, hheld⟩
      · cases heffect <;> cases hreader

/-- The transport is shut **by the reader** behind the writer, or by a handshake that fails. -/
theorem Effect.shut_before (heffect : Effect c task action rest c₁ script)
    (hshut : c₁.transport.shut = true) : c.transport.shut = true ∨
      (∃ held, action = .shutDown held) ∨ ∃ failure, action = .failHandshake failure := by
  have hwrite : ∀ {b t}, c.transport.write b = .done t → t.shut = true →
      c.transport.shut = true ∨ (∃ held, action = .shutDown held) ∨
        ∃ failure, action = .failHandshake failure := by
    intro b t ht hafter
    rw [Transport.write_eq_done ht] at hafter
    exact .inl hafter
  cases heffect with
  | makeRoom _ _ ht => exact hwrite ht hshut
  | flush _ ht => exact hwrite ht hshut
  | sendRequest ht => exact hwrite ht hshut
  | sendAcceptance ht => exact hwrite ht hshut
  | sendRejection ht => exact hwrite ht hshut
  | shutDown => exact .inr (.inl ⟨_, rfl⟩)
  | failHandshake => exact .inr (.inr ⟨_, rfl⟩)
  | _ => exact .inl hshut

section Action

variable (hreach : Reachable c) (hliving : c.Living)
  (hscript : c.script task = action :: rest) (heffect : Effect c task action rest c₁ script)
  (hcourteous : c.isCourteous (.act task) = true)

include hreach hscript heffect hcourteous

/-- Nobody is about to claim the close frame when the connection closes. -/
theorem Parting.unclaimed_act (hliving' : (c₁.setScript task script).Living)
    (hclosed : (c₁.setScript task script).phase = .closed) (other : TaskId)
    (status : Option Close.Status) (recovery : Recovery) (more : Script) :
    (c₁.setScript task script).script other ≠ .claimClose status recovery :: more := by
  intro hclaims
  obtain ⟨rfl, heq⟩ | ⟨hne, heq⟩ | ⟨-, -, heq, -⟩ := heffect.script_after hscript other
  · rw [heq] at hclaims
    cases other with
    | reader =>
        have hover := hliving'.isOver hclosed
        rw [setScript_reader_of_reader, hclaims] at hover
        cases hover
    | call id =>
        rw [setScript_phase] at hclosed
        obtain ⟨rfl, hopen⟩ | rfl := heffect.claims hreach.scripted hscript hclaims
        · cases heffect with
          | beginClosing => cases hclosed
          | failClosing hnot => exact hnot hopen
        · cases hreach.scripted.not_reacts hscript
  · rw [heq] at hclaims
    exact not_claims_of_pauses (pauses_of_isCourteous hcourteous hne) _ _ _ hclaims
  · rw [heq] at hclaims
    cases hclaims

include hliving

/-- Whoever has frames to write is **in front of the reader** when the reader winds up. -/
theorem Parting.served_act (h : c.Parting)
    (hreader : (c₁.setScript task script).reader = [.takeWriter]) (other : TaskId)
    (hcargo : ((c₁.setScript task script).script other).cargo ≠ []) :
    ∃ front back, (c₁.setScript task script).lock.queue = front ++ other :: back ∧
      .reader ∉ front := by
  have hne : other ≠ .reader := by
    rintro rfl
    rw [script_reader, hreader] at hcargo
    exact hcargo rfl
  have hintact := hliving.intact_of_reader hreach
    (heffect.reader_ne_nil hscript (by rw [hreader]; exact nofun) (by rw [hreader]; exact nofun))
  obtain hbefore | ⟨rfl, rfl, rfl⟩ :=
    hintact.takeWriter_before hreach hscript heffect hreader
  · -- whoever stood in front of the reader still does
    have hclosed : c.phase = .closed := hintact.closed.mpr (by rw [hbefore]; rfl)
    obtain hopen | ⟨status, recovery, more, hclaims⟩ | hbefore' :=
      heffect.cargo_before hreach.scripted hscript hcargo
    · rw [hclosed] at hopen
      cases hopen
    · exact absurd hclaims (h.unclaimed hclosed _ _ _ _)
    · obtain ⟨front, back, hqueue, hnot⟩ := h.served hbefore other hbefore'
      obtain ⟨front', back', hqueue', hsub⟩ :=
        heffect.place hreach hscript hqueue hbefore' hcargo
      exact ⟨front', back', hqueue', fun hmem => hnot (hsub _ hmem)⟩
  · -- everybody else pauses, and whoever has frames to write pauses in its place
    cases heffect with
    | markClosed =>
        have hsame := script_setScript_of_ne (c := c.closed) [.takeWriter] hne
        rw [hsame] at hcargo
        have hmem : other ∈ c.lock.queue := by
          by_contra hnot
          exact not_straddles_of_pauses hreach.locked (pauses_of_isCourteous hcourteous hne)
            ⟨hcargo, hnot⟩
        obtain ⟨front, back, hqueue⟩ := List.append_of_mem hmem
        refine ⟨front, back, hqueue, fun hin => ?_⟩
        refine hreach.locked.not_mem hscript rfl rfl ?_
        rw [hqueue]
        exact List.mem_append_left _ hin

omit hcourteous

/-- Who takes the writer away is **the reader**, and nobody has frames to write then. -/
theorem Parting.gone_of_taken (h : c.Parting) (hwriter : c.writer ≠ none)
    (hgone : c₁.writer = none) (huncancelled : c₁.cancelled = false) (other : TaskId) :
    ((c₁.setScript task script).script other).cargo = [] ∧
      ((c₁.setScript task script).script other).holdsLock = false := by
  have hunbroken := hliving.unbroken
  have hintact := hliving.intact_of_writer hreach hwriter
  cases task with
  | call id =>
      exact absurd hgone ((hintact.spares hscript heffect huncancelled).1.writer hwriter)
  | reader =>
      cases heffect with
      | lockInVain _ hw => exact absurd hw hwriter
      | takeNothing _ hw => exact absurd hw hwriter
      | @takeWriter _ w hheld hw =>
          by_cases hne : other = .reader
          · subst hne
            exact ⟨rfl, rfl⟩
          have hreader : c.reader = [.takeWriter] := by
            cases hreach.scripted.readerScript hscript with
            | ponging _ hw => cases hw
            | closing hw => cases hw
            | releasing => exact hscript
          rw [script_setScript_of_ne (c := { c with
            lock := (c.lock.acquire .reader).release
            writer := none
            drawn := (c.emptied w).2 }) _ hne]
          refine ⟨?_, Bool.eq_false_iff.mpr fun hholds => ?_⟩
          · by_contra hcargo
            obtain ⟨front, back, hqueue, hnot⟩ := h.served hreader other hcargo
            exact hne (Lock.eq_of_acquire hreach.locked.sound hheld hqueue hnot)
          · have hholder := Lock.holder_acquire (hreach.locked.holds hholds) .reader
            exact hne (Option.some.inj (hholder.symm.trans hheld))
      | failToMakeRoom _ _ ht => exact absurd ht (Transport.write_ne_broken hunbroken)
      | failToFlush _ ht => exact absurd ht (Transport.write_ne_broken hunbroken)
      | _ => first | exact absurd hgone hwriter | cases hgone

/-- Once the writer is gone, **nobody gets frames to write**. -/
theorem Parting.gone_of_gone (h : c.Parting) (hgone : c.writer = none) (other : TaskId) :
    ((c₁.setScript task script).script other).cargo = [] ∧
      ((c₁.setScript task script).script other).holdsLock = false := by
  have hclosed : c.phase ≠ .connecting → c.phase = .closed := by
    intro hbegun
    by_contra hnot
    exact (hliving.intact hbegun).writer hnot hgone
  refine ⟨?_, Bool.eq_false_iff.mpr fun hholds => ?_⟩
  · by_contra hcargo
    obtain hopen | ⟨status, recovery, more, hclaims⟩ | hbefore :=
      heffect.cargo_before hreach.scripted hscript hcargo
    · have hphase := hclosed (by rw [hopen]; exact nofun)
      rw [hopen] at hphase
      cases hphase
    · have hrunning := hreach.staged.streaming hclaims rfl
      exact h.unclaimed (hclosed (hreach.staged.begun hrunning)) _ _ _ _ hclaims
    · exact hbefore (h.gone hgone other).1
  · obtain ⟨rfl, heq⟩ | ⟨-, heq⟩ | ⟨-, -, heq, -⟩ := heffect.script_after hscript other
    · rw [heq] at hholds
      have hbefore := (h.gone hgone other).2
      rw [hscript] at hbefore
      have hworks := heffect.holdsLock_before hreach.scripted hscript hgone hholds
      exact nomatch hworks.symm.trans hbefore
    · rw [heq] at hholds
      exact nomatch hholds.symm.trans (h.gone hgone other).2
    · rw [heq] at hholds
      cases hholds

/-- The transport is shut **behind the writer**. -/
theorem Parting.shut_act (h : c.Parting)
    (hshut : (c₁.setScript task script).transport.shut = true ∨
      ∃ held, (c₁.setScript task script).reader = [.shutDown held]) :
    (c₁.setScript task script).writer = none ∧ (c₁.setScript task script).phase = .closed := by
  rw [setScript_transport] at hshut
  rw [setScript_writer, setScript_phase]
  by_cases hbefore : c.transport.shut = true ∨ ∃ held, c.reader = [.shutDown held]
  · obtain ⟨hgone, hclosed⟩ := h.shut hbefore
    refine ⟨heffect.writer_eq_none ?_ hgone, heffect.closed hclosed⟩
    have hrunning := (hliving.intact (by rw [hclosed]; exact nofun)).running
    refine Bool.eq_false_iff.mpr fun hnegotiates => ?_
    exact nomatch hrunning.symm.trans (hreach.staged.negotiating hscript hnegotiates)
  · obtain ⟨hopen, hnot⟩ := not_or.mp hbefore
    obtain hshut | ⟨held, hreader⟩ := hshut
    · obtain hshut | ⟨held, rfl⟩ | ⟨failure, rfl⟩ := heffect.shut_before hshut
      · exact absurd hshut hopen
      · cases task with
        | reader =>
            refine absurd ⟨held, ?_⟩ hnot
            cases hreach.scripted.readerScript hscript with
            | ponging _ hw => cases hw
            | closing hw => cases hw
            | shutting => exact hscript
        | call id =>
            have hintact := hliving.intact_of_needsStream hreach hscript rfl
            exact ((hintact.not_takes hscript).2.1 held rfl).elim
      · have hstage := hreach.staged.negotiating hscript rfl
        have hidle := hreach.staged.idle (by rw [hstage]; exact nofun)
        cases heffect with
        | failHandshake => exact ⟨hidle.writer, rfl⟩
    · have hintact := hliving.intact_of_reader hreach (heffect.reader_ne_nil hscript
        (by rw [hreader]; exact nofun) (by rw [hreader]; exact nofun))
      obtain hbefore | ⟨hbefore, hgone, -⟩ :=
        hintact.shutDown_before hreach hscript heffect hreader
      · exact absurd ⟨held, hbefore⟩ hnot
      · exact ⟨hgone, heffect.closed (hintact.closed.mpr (by rw [hbefore]; rfl))⟩

end Action

/-- A move that is no action leaves the reader alone, unless it was **told to stop**. -/
theorem Transition.reader_of_ne_act (hmove : Transition c move c') (hact : ∀ task, move ≠ .act task)
    (huncancelled : c.cancelled = false) : c'.reader = c.reader := by
  cases hmove with
  | act => exact absurd rfl (hact _)
  | stopReader hcancelled => exact nomatch hcancelled.symm.trans huncancelled
  | _ => rfl

/-- A move that is no action keeps what holds when the reader winds up. -/
theorem Parting.of_ne_act (h : c.Parting) (hreach : Reachable c) (hmove : Transition c move c')
    (hact : ∀ task, move ≠ .act task) (huncancelled : c.cancelled = false) : c'.Parting := by
  obtain ⟨hphase, -, -⟩ := hmove.sent_of_ne_act hact
  have hsame : c'.writer = c.writer ∧ c'.transport.shut = c.transport.shut := by
    cases hmove with
    | act => exact absurd rfl (hact _)
    | _ => exact ⟨rfl, rfl⟩
  have hreader := hmove.reader_of_ne_act hact huncancelled
  refine ⟨fun hwaits other hcargo => ?_, fun hclosed other => ?_, fun hgone other => ?_,
    fun hshut => ?_⟩
  · have hkept := (hmove.cargo_of_ne_act hact other).resolve_right fun hnil => hcargo hnil.1
    obtain ⟨front, back, hqueue, hnot⟩ := h.served (hreader ▸ hwaits) other (hkept ▸ hcargo)
    obtain ⟨front', back', hqueue', hsub⟩ :=
      hmove.place_of_ne_act hact hreach.locked hqueue hcargo
    exact ⟨front', back', hqueue', fun hmem => hnot (hsub _ hmem)⟩
  · obtain heq | ⟨-, hnot⟩ := hmove.cargo_of_ne_act hact other
    · rw [heq]
      exact h.unclaimed (hphase ▸ hclosed) other
    · exact hnot
  · obtain ⟨hcargo, hholds⟩ := h.gone (hsame.1 ▸ hgone) other
    refine ⟨?_, Bool.eq_false_iff.mpr fun hworks => ?_⟩
    · obtain heq | ⟨hnil, -⟩ := hmove.cargo_of_ne_act hact other
      · rw [heq, hcargo]
      · exact hnil
    · rw [hmove.script_of_holdsLock hact hworks, hholds] at hworks
      cases hworks
  · rw [hsame.1, hphase]
    refine h.shut (hshut.imp (hsame.2 ▸ ·) ?_)
    rw [hreader]
    exact id

/-- Nobody who has frames to write is **left without a writer**. -/
theorem Parting.transition (h : c.Parting) (hreach : Reachable c) (hliving : c.Living)
    (hmove : Transition c move c') (hcourteous : c.isCourteous move = true)
    (hliving' : c'.Living) : c'.Parting := by
  obtain ⟨task, action, rest, c₁, script, rfl, hscript, heffect, rfl⟩ | hact := hmove.act_or
  · refine ⟨fun hreader other hcargo => ?_, fun hclosed => ?_, fun hgone => ?_, fun hshut => ?_⟩
    · exact h.served_act hreach hliving hscript heffect hcourteous hreader other hcargo
    · exact unclaimed_act hreach hscript heffect hcourteous hliving' hclosed
    · rw [setScript_writer] at hgone
      by_cases hbefore : c.writer = none
      · exact h.gone_of_gone hreach hliving hscript heffect hbefore
      · refine h.gone_of_taken hreach hliving hscript heffect hbefore hgone ?_
        have huncancelled := hliving'.uncancelled
        rwa [setScript_cancelled] at huncancelled
    · exact h.shut_act hreach hliving hscript heffect hshut
  · exact h.of_ne_act hreach hmove hact hliving.uncancelled

/-- A new connection has **nothing to write**. -/
theorem parting_new (role : Role) (options : Options) (keys : Nat → Mask) :
    (new role options keys).Parting := by
  refine ⟨nofun, nofun, fun _ task => ?_, ?_⟩
  · cases task <;> exact ⟨rfl, rfl⟩
  · rintro (hshut | ⟨held, hreader⟩)
    · cases hshut
    · cases hreader

end Connection

end WebSocket
