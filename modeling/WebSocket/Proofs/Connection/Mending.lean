import WebSocket.Proofs.Connection.Course

/-!
# When the news is that the peer has gone

A peer that has gone away can no longer be written to, and its stream has ended. To a connection
that has nothing more to write only the second is news. So its run is also one in which the peer has
done no more than end its stream (`Connection.softened`), and whatever is known of such runs holds
of it.

## Main results

* `Connection.perform_mended`: an action that writes nothing does **the same** whether the peer is
  still there or not.
* `Connection.Softened.step`: a run goes on as a run of a connection **whose peer is still there**.
-/

namespace WebSocket

namespace Connection

/-- The connection **as if the peer were still there**. -/
def mended (c : Connection) : Connection :=
  { c with transport := { c.transport with broken := false } }

/-- An outcome, seen in the same way. -/
def Outcome.mended (o : Outcome) : Outcome := o.map fun result => (result.1.mended, result.2)

theorem Outcome.mended_ite {p : Prop} [Decidable p] (o o' : Outcome) :
    Outcome.mended (if p then o else o') = if p then o.mended else o'.mended :=
  apply_ite Outcome.mended p o o'

variable {c c' : Connection} {task : TaskId} {action : Action} {rest script : Script} {move : Move}
  {moves : List Move} {start : Connection}

/-- The bytes that an action **writes to the transport**. -/
def writes? (c : Connection) : Action → Option Bytes
  | .feed _ _ | .flush _ => c.writer.map Writer.bytes
  | .shutDown held => some held
  | .sendRequest request => some request.written
  | .sendAcceptance _ response => some response.written
  | .sendRejection failure => some (Handshake.Response.rejecting failure).written
  | _ => none

/-- The lock has nothing to do with the peer. -/
theorem withLock_mended {again : Script} {go : Connection → Outcome}
    (hgo : go { c.mended with lock := c.lock.acquire task } =
      Outcome.mended (go { c with lock := c.lock.acquire task })) :
    c.mended.withLock task again go = Outcome.mended (c.withLock task again go) := by
  rw [withLock, withLock, Outcome.mended_ite, Outcome.mended_ite, ← hgo]
  rfl

/-- Where nothing is held, nothing is written. -/
theorem drainWriter_mended {w : Writer} {recovery : Recovery} {go : Connection → Outcome}
    (hempty : w.bytes = [])
    (hgo : go { c.mended with writer := some w.written } =
      Outcome.mended (go { c with writer := some w.written })) :
    c.mended.drainWriter w recovery rest go =
      Outcome.mended (c.drainWriter w recovery rest go) := by
  rw [drainWriter, drainWriter, hempty]
  exact hgo

/-- Whoever hands over a frame writes only **to make room**. -/
theorem feedFrame_mended {frames : List Frame} {recovery : Recovery}
    (hempty : ∀ w, c.writer = some w → w.bytes = []) :
    c.mended.feedFrame task frames recovery rest =
      Outcome.mended (c.feedFrame task frames recovery rest) := by
  simp only [feedFrame]
  rw [show c.mended.writer = c.writer from rfl]
  split
  · rfl
  · rename_i w hw
    rw [Outcome.mended_ite]
    refine ite_congr rfl (fun _ => ?_) fun _ => ?_
    · exact drainWriter_mended (hempty w hw) rfl
    · rw [show c.mended.emptySlot w = c.emptySlot w from rfl]
      split
      · rfl
      · cases frames <;> rfl

theorem flushWriter_mended {recovery : Recovery}
    (hempty : ∀ w, c.writer = some w → w.bytes = []) :
    c.mended.flushWriter recovery rest = Outcome.mended (c.flushWriter recovery rest) := by
  simp only [flushWriter]
  rw [show c.mended.writer = c.writer from rfl]
  split
  · rfl
  · rename_i w hw
    exact drainWriter_mended (hempty w hw) rfl

/-- Whoever waits for a head looks at **what comes**, and not at whether the peer takes anything. -/
theorem withHead_mended (c : Connection) (fail : Handshake.Failure → Script) (go : Bytes → Script) :
    c.mended.withHead fail go = Outcome.mended (c.withHead fail go) := by
  simp only [mended, withHead]
  split
  · rfl
  · rfl
  · rw [Outcome.mended_ite]
    refine ite_congr rfl (fun _ => ?_) fun _ => rfl
    split <;> rfl

/-- An action that writes nothing does **the same** whether the peer is still there or not. -/
theorem perform_mended (hsilent : ∀ b ∈ c.writes? action, b = []) :
    c.mended.perform task action rest = Outcome.mended (c.perform task action rest) := by
  cases action with
  | ensureOpen | beginClosing | answerPing | claimClose | offer | beginConnecting
  | beginAccepting =>
      simp only [perform, claimCloseFrame, offerEvent, takeTransport, Outcome.mended_ite]
      rfl
  | enlist | startWaiting | abandon => cases task <;> rfl
  | lockWriter =>
      rw [perform, perform]
      refine withLock_mended ?_
      simp only [startWriting, mended]
      split <;> rfl
  | takeWriter =>
      rw [perform, perform]
      refine withLock_mended ?_
      simp only [removeWriter, mended]
      split <;> rfl
  | readFrame =>
      simp only [perform, readNext]
      rw [show c.mended.codec.decode c.mended.buffer = c.codec.decode c.buffer from rfl]
      split
      · rw [Outcome.mended_ite]
        rfl
      · rfl
      · rfl
  | reportFault fault =>
      simp only [perform, reportTo]
      split
      · rfl
      · rw [Outcome.mended_ite]
        rfl
  | takeEvent | takeEventOrEnd =>
      simp only [perform, nextEvent, mended]
      split
      · split
        · rfl
        · rw [Outcome.mended_ite]
          rfl
      all_goals rfl
  | beginDraining =>
      simp only [perform, mended]
      split
      · rfl
      · rfl
      all_goals
        rw [Outcome.mended_ite]
        rfl
  | drainEvents =>
      simp only [perform, mended, discardEvent]
      split
      · rfl
      · rw [Outcome.mended_ite, Outcome.mended_ite]
        rfl
  | awaitPong =>
      simp only [perform, mended, waiter?]
      split
      · rfl
      · split <;> rfl
  | awaitRequest => exact c.withHead_mended turnDown (judgeRequest c.options.protocols)
  | awaitResponse request =>
      exact c.withHead_mended (fun failure => [.failHandshake failure]) (judgeResponse request)
  | feed frames recovery => exact feedFrame_mended fun w hw => hsilent _ (by rw [writes?, hw]; rfl)
  | flush recovery => exact flushWriter_mended fun w hw => hsilent _ (by rw [writes?, hw]; rfl)
  | shutDown held =>
      obtain rfl := hsilent held rfl
      rfl
  | sendRequest | sendAcceptance | sendRejection =>
      have hempty := hsilent _ rfl
      simp only [perform, writeHead]
      rw [hempty]
      rfl
  | _ => rfl

/-! ### Moves -/

theorem script_mended (c : Connection) (task : TaskId) : c.mended.script task = c.script task := by
  cases task <;> rfl

theorem setScript_mended (c : Connection) (task : TaskId) (script : Script) :
    c.mended.setScript task script = (c.setScript task script).mended := by
  cases task <;> rfl

/-- A task that is about to **write nothing**. -/
def WritesNothing (c : Connection) (task : TaskId) : Prop :=
  ∀ action rest, c.script task = action :: rest → ∀ b ∈ c.writes? action, b = []

theorem act_mended (hsilent : c.WritesNothing task) :
    c.mended.act task = (c.act task).map mended := by
  rw [act, act, script_mended]
  cases hscript : c.script task with
  | nil => rfl
  | cons action rest =>
      dsimp only
      rw [perform_mended (hsilent action rest hscript), Outcome.mended]
      cases c.perform task action rest with
      | none => rfl
      | some result => exact congrArg some (setScript_mended ..)

/-- Every move but the news that the peer has gone is **possible in the same way**. -/
theorem step_mended (hpeer : move ≠ .peerGone)
    (hsilent : ∀ task, move = .act task → c.WritesNothing task) :
    c.mended.step move = (c.step move).map mended := by
  cases move with
  | act task => exact act_mended (hsilent task rfl)
  | peerGone => exact absurd rfl hpeer
  | forget | peerTake | stall | tick => rfl
  | start | collect | giveUp | read | stopReader | peerSend | peerEnd =>
      simp only [step]
      rw [apply_ite (Option.map mended)]
      rfl

/-- While the peer is there, there is nothing to mend. -/
theorem mended_of_unbroken (h : c.transport.broken = false) : c.mended = c := by
  rw [mended, ← h]

/-- So is every move of a run, if a connection whose peer has gone writes nothing. -/
theorem step_mended_of_broken (hpeer : move ≠ .peerGone) (hstep : c.step move = some c')
    (hsilent : c.transport.broken = true → ∀ task, c.WritesNothing task) :
    c.mended.step move = some c'.mended := by
  cases hbroken : c.transport.broken with
  | true => rw [step_mended hpeer fun task _ => hsilent hbroken task, hstep, Option.map_some]
  | false =>
      rw [mended_of_unbroken hbroken, mended_of_unbroken, hstep]
      cases transition_of_step hstep with
      | act _ heffect =>
          obtain ⟨outgoing, shut, htransport⟩ := heffect.transport
          rw [setScript_transport, htransport]
          exact hbroken
      | peerGone => exact absurd rfl hpeer
      | _ => exact hbroken

/-- Such a connection is **quiet** in the same way. -/
theorem isQuiet_mended (hsilent : c.transport.broken = true → ∀ task, c.WritesNothing task) :
    c.mended.isQuiet = c.isQuiet := by
  cases hbroken : c.transport.broken with
  | true =>
      have hact : ∀ task, (c.mended.act task).isNone = (c.act task).isNone := fun task => by
        rw [act_mended (hsilent hbroken task), Option.isNone_map]
      have hstop : c.mended.step .stopReader = (c.step .stopReader).map mended :=
        step_mended nofun nofun
      rw [isQuiet, isQuiet, hact, hstop, Option.isNone_map]
      simp only [hact]
      rfl
  | false => rw [mended_of_unbroken hbroken]

/-- A move, if the peer **does no more than end its stream**. -/
def soften (c : Connection) : Move → List Move
  | .peerGone => if c.transport.ending.isNone then [.peerEnd .ended] else []
  | move => [move]

/-- The moves of a run, if the peer does no more than end its stream. -/
def softened (c : Connection) : List Move → List Move
  | [] => []
  | move :: moves =>
    match c.step move with
    | none => []
    | some c' => c.soften move ++ c'.softened moves

theorem softened_append {before after : List Move} {c₁ : Connection}
    (hrun : c.run before = some c₁) :
    c.softened (before ++ after) = c.softened before ++ c₁.softened after := by
  induction before generalizing c with
  | nil =>
      obtain rfl : c = c₁ := Option.some.inj hrun
      rfl
  | cons first before ih =>
      obtain ⟨c₂, hfirst, hrest⟩ := run_cons_eq_some.mp hrun
      simp only [List.cons_append, softened, hfirst, ih hrest, List.append_assoc]

theorem softened_concat {before : List Move} {c₁ : Connection} (hrun : c.run before = some c₁)
    (hstep : c₁.step move = some c') :
    c.softened (before ++ [move]) = c.softened before ++ c₁.soften move := by
  rw [softened_append hrun, softened, hstep]
  exact congrArg _ (List.append_nil _)

/-- No move is added but **the end of the peer's stream**. -/
theorem mem_softened {own : Move} (h : own ∈ c.softened moves) :
    own ∈ moves ∨ own = .peerEnd .ended := by
  induction moves generalizing c with
  | nil => cases h
  | cons move moves ih =>
      rw [softened] at h
      split at h
      · cases h
      · obtain hfirst | hrest := List.mem_append.mp h
        · cases move with
          | peerGone =>
              rw [soften] at hfirst
              split at hfirst
              · exact .inr (List.mem_singleton.mp hfirst)
              · cases hfirst
          | _ => exact .inl (List.mem_singleton.mp hfirst ▸ List.mem_cons_self ..)
        · exact (ih hrest).imp_left (List.mem_cons_of_mem _)

/-! ### Ledgers -/

/-- A run **and its softened form** lead to the same connection, but for the peer, with the same
ledgers. -/
structure Softened (start : Connection) (moves : List Move) (c : Connection) : Prop where
  run : start.run (start.softened moves) = some c.mended
  bytes : peerBytes (start.softened moves) = peerBytes moves
  departures : start.departures (start.softened moves) = start.departures moves
  operations : operation? (start.softened moves) = operation? moves
  hauls : start.hauls (start.softened moves) = start.hauls moves
  closers : start.closers (start.softened moves) = start.closers moves
  courteous : start.courteously moves = true → start.courteously (start.softened moves) = true

/-- What a move **shows** to the ledgers. -/
structure SameShow (c : Connection) (move move' : Move) : Prop where
  bytes : move'.peerBytes = move.peerBytes
  departure : c.mended.departure? move' = c.departure? move
  operations : ∀ past id, operation? (past ++ [move']) id = operation? (past ++ [move]) id
  haul : ∀ past, c.mended.haul? past move' = c.haul? past move
  closes : c.mended.closes? move' = c.closes? move
  courteous : c.isCourteous move = true → c.mended.isCourteous move' = true

theorem sameShow_self (c : Connection) (move : Move) : SameShow c move move where
  bytes := rfl
  departure := by cases move <;> rfl
  operations := fun _ _ => rfl
  haul := fun past => by
    cases move with
    | act task => cases task <;> rfl
    | _ => rfl
  closes := by
    cases move with
    | act task => cases task <;> rfl
    | _ => rfl
  courteous := fun h => by cases move <;> exact h

theorem sameShow_peerEnd (c : Connection) (e : Ending) : SameShow c .peerGone (.peerEnd e) where
  bytes := rfl
  departure := rfl
  operations := fun past id => by
    have hend : operation? (past ++ [.peerEnd e]) id = operation? past id :=
      operation?_concat past fun _ => nofun
    have hgone : operation? (past ++ [.peerGone]) id = operation? past id :=
      operation?_concat past fun _ => nofun
    rw [hend, hgone]
  haul := fun _ => rfl
  closes := rfl
  courteous := fun _ => rfl

/-- What a number stands for behind one more move depends only on what it stood for, **and on the
move**. -/
theorem operation?_congr {past past' : List Move} (h : operation? past' = operation? past)
    (move : Move) : operation? (past' ++ [move]) = operation? (past ++ [move]) := by
  funext id
  by_cases hstart : ∃ operation, move = .start id operation
  · obtain ⟨operation, rfl⟩ := hstart
    rw [operation?_start, operation?_start]
  · have hnot : ∀ operation, move ≠ .start id operation :=
      fun operation heq => hstart ⟨operation, heq⟩
    rw [operation?_concat _ hnot, operation?_concat _ hnot, h]

theorem haul?_congr {past past' : List Move} (h : operation? past' = operation? past)
    (move : Move) : c.haul? past' move = c.haul? past move := by
  cases move with
  | act task =>
      cases task with
      | reader => rfl
      | call id => simp only [haul?, message?, h]
  | _ => rfl

/-- A move **shows the same** in the softened run. -/
theorem Softened.extend (h : Softened start moves c) (hrun : start.run moves = some c)
    (hstep : c.step move = some c') {move' : Move} (hsoften : c.soften move = [move'])
    (hstep' : c.mended.step move' = some c'.mended) (hshow : SameShow c move move') :
    Softened start (moves ++ [move]) c' := by
  have hmoves : start.softened (moves ++ [move]) = start.softened moves ++ [move'] := by
    rw [softened_concat hrun hstep, hsoften]
  have hops := operation?_congr h.operations
  constructor
  case run =>
    rw [hmoves]
    exact run_append_eq_some.mpr ⟨c.mended, h.run, run_cons_eq_some.mpr ⟨c'.mended, hstep', rfl⟩⟩
  case bytes =>
    rw [hmoves, peerBytes_append, peerBytes_append, peerBytes_singleton, peerBytes_singleton,
      h.bytes, hshow.bytes]
  case departures =>
    rw [hmoves, departures_concat h.run hstep', departures_concat hrun hstep, h.departures,
      hshow.departure]
  case operations =>
    rw [hmoves, hops]
    exact funext (hshow.operations moves)
  case hauls =>
    rw [hmoves, hauls_concat h.run hstep', hauls_concat hrun hstep, h.hauls,
      haul?_congr h.operations, hshow.haul]
  case closers =>
    rw [hmoves, closers_concat h.run hstep', closers_concat hrun hstep, h.closers, hshow.closes]
  case courteous =>
    intro hcourteous
    rw [courteously_append hrun, courteously_singleton, Bool.and_eq_true] at hcourteous
    rw [hmoves, courteously_append h.run, courteously_singleton, Bool.and_eq_true]
    exact ⟨h.courteous hcourteous.1, hshow.courteous hcourteous.2⟩

/-- That the peer has gone is **no news** when its stream has ended before. -/
theorem Softened.keep (h : Softened start moves c) (hrun : start.run moves = some c)
    {e : WebSocket.Ending} (hending : c.transport.ending = some e)
    (hstep : c.step .peerGone = some c') : Softened start (moves ++ [.peerGone]) c' := by
  have hmoves : start.softened (moves ++ [.peerGone]) = start.softened moves := by
    rw [softened_concat hrun hstep, soften, hending]
    exact List.append_nil _
  have hops : operation? (moves ++ [.peerGone]) = operation? moves :=
    funext fun id => operation?_concat moves fun _ => nofun
  have hmended : c'.mended = c.mended := by
    obtain rfl := Option.some.inj hstep
    rw [mended, mended]
    simp only [hending, Option.getD_some]
  constructor
  case run => rw [hmoves, hmended, h.run]
  case bytes =>
    rw [hmoves, peerBytes_append, h.bytes]
    exact (List.append_nil _).symm
  case departures =>
    rw [hmoves, departures_concat hrun hstep, h.departures]
    exact (List.append_nil _).symm
  case operations => rw [hmoves, hops, h.operations]
  case hauls =>
    rw [hmoves, hauls_concat hrun hstep, h.hauls]
    exact (List.append_nil _).symm
  case closers =>
    rw [hmoves, closers_concat hrun hstep, h.closers]
    exact (List.append_nil _).symm
  case courteous =>
    intro hcourteous
    rw [courteously_append hrun, Bool.and_eq_true] at hcourteous
    rw [hmoves]
    exact h.courteous hcourteous.1

/-- Every move **goes on** with the softened run, if a connection whose peer has gone writes
nothing. -/
theorem Softened.step (h : Softened start moves c) (hrun : start.run moves = some c)
    (hstep : c.step move = some c')
    (hsilent : c.transport.broken = true → ∀ task, c.WritesNothing task) :
    Softened start (moves ++ [move]) c' := by
  by_cases hgone : move = .peerGone
  · subst hgone
    cases hending : c.transport.ending with
    | none =>
        have hsoften : c.soften .peerGone = [.peerEnd .ended] := by rw [soften, hending]; rfl
        refine h.extend hrun hstep hsoften ?_ (sameShow_peerEnd c .ended)
        obtain rfl := Option.some.inj hstep
        simp only [Connection.step, mended, hending]
        rfl
    | some e => exact h.keep hrun hending hstep
  · have hsoften : c.soften move = [move] := by
      cases move with
      | peerGone => exact absurd rfl hgone
      | _ => rfl
    exact h.extend hrun hstep hsoften (step_mended_of_broken hgone hstep hsilent)
      (sameShow_self c move)

/-- While the peer is there, the softened run is **the run itself**. -/
theorem softened_of_unbroken (hrun : start.run moves = some c)
    (hunbroken : c.transport.broken = false) :
    Softened start moves c := by
  refine run_induction (P := fun moves x => x.transport.broken = false → Softened start moves x)
    ?_ ?_ hrun hunbroken
  · intro hstart
    exact ⟨congrArg some (mended_of_unbroken hstart).symm, rfl, rfl, rfl, rfl, rfl, id⟩
  · intro before c₁ move c₂ hbefore ih hstep hunbroken
    have hbefore' := (transition_of_step hstep).unbroken hunbroken
    exact (ih hbefore').step hbefore hstep fun hbroken => nomatch hbroken.symm.trans hbefore'

/-- A connection that has sent its close frame, with nothing left to go out, **writes nothing**. -/
theorem Course.writesNothing {role : Role} {options : Options} {keys : Nat → Mask}
    (h : Course role options keys moves c) (hspent : c.Spent) (task : TaskId) :
    c.WritesNothing task := by
  obtain ⟨⟨status, hmem⟩, hpending⟩ := hspent
  have hidle := (h.signs hmem).1 task
  have hheld := (List.append_eq_nil_iff.mp hpending).2
  have hrunning := h.accounts.1.running
  have hnegotiates : ∀ action rest, c.script task = action :: rest → action.negotiates = false := by
    intro action rest hscript
    refine Bool.eq_false_iff.mpr fun hnegotiates => ?_
    exact nomatch hrunning.symm.trans (h.reach.staged.negotiating hscript hnegotiates)
  intro action rest hscript b hb
  rw [hscript] at hidle
  cases action with
  | feed | flush =>
      obtain ⟨w, hw, rfl⟩ := Option.map_eq_some_iff.mp hb
      rw [(held_of_writer hw).1, (emptied_written c w).1] at hheld
      exact (List.append_eq_nil_iff.mp hheld).1
  | shutDown held =>
      obtain rfl := Option.some.inj hb
      cases task with
      | reader =>
          refine h.outgoing.flushed.shutting held ?_
          cases h.reach.scripted.readerScript hscript with
          | ponging _ hw => cases hw
          | closing hw => cases hw
          | shutting => exact hscript
      | call id => exact ((h.accounts.1.not_takes hscript).2.1 held rfl).elim
  | sendRequest | sendAcceptance | sendRejection => cases hnegotiates _ _ hscript
  | _ => cases hb

end Connection

end WebSocket
