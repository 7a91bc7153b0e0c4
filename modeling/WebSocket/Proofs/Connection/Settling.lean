import Mathlib.Data.List.Perm.Subperm
import WebSocket.Connection.Schedule
import WebSocket.Proofs.Connection.Locking
import WebSocket.Proofs.Connection.Sendable
import WebSocket.Proofs.Handshake.Head

/-!
# Everything comes to rest

Left to itself, a connection gets quiet: however its tasks take turns, they have to wait after a
number of actions that can be told beforehand. Every action has a cost, which pays for whatever it
puts into its place; what the reader does about a frame is paid for by the bytes of the frame. Only
a task that begins to wait for the lock pays nothing, but it does so once.

## Main results

* `Connection.Effect.cost_lt`: an action leads to **less to do**, or its task begins to wait for the
  lock.
* `Connection.length_le_stepsLeft`: how many moves a connection can make **by itself**.
* `Connection.exists_quiet`: a connection can always come to rest by itself.
-/

namespace WebSocket

/-- **What an action costs**: more than all that it puts into its place. -/
def Action.cost : Action → Nat
  | .answer _ | .enlist _ | .startWaiting | .abandon | .markClosed | .shutDown _ | .resolvePings _
  | .followClosing | .cancelReader => 1
  | .refuse | .ensureOpen | .takeWriter | .offer _ | .takeEvent | .takeEventOrEnd | .awaitPong _
  | .failHandshake _ => 2
  | .beginClosing | .sendRejection _ => 3
  | .flush _ => 5
  | .feed frames _ => 6 + 2 * frames.length
  | .lockWriter frames _ => 7 + 2 * frames.length
  | .claimClose .. | .answerPing _ => 10
  | .reportFault _ => 12
  | .drainEvents .. => 6
  | .beginDraining => 7
  | .readFrame => 18
  | .establish .. => 20
  | .sendAcceptance .. => 21
  | .awaitResponse _ | .awaitRequest => 22
  | .sendRequest _ => 23
  | .beginConnecting .. | .beginAccepting => 24

namespace Script

/-- What a script costs. -/
def cost : Script → Nat
  | [] => 0
  | action :: rest => action.cost + cost rest

@[simp] theorem cost_nil : cost [] = 0 := rfl

@[simp] theorem cost_cons (action : Action) (rest : Script) :
    cost (action :: rest) = action.cost + cost rest := rfl

@[simp] theorem cost_append (front rest : Script) :
    cost (front ++ rest) = cost front + cost rest := by
  induction front with
  | nil => simp
  | cons action front ih =>
      rw [List.cons_append, cost_cons, cost_cons, ih, Nat.add_assoc]

/-- A task that could not write what it had to has **little to do**. -/
theorem cost_recover_le (recovery : Recovery) (e : ConnectionError) (rest : Script) :
    (recover recovery e rest).cost ≤ 3 + rest.cost := by
  cases recovery with
  | report => simp [recover, Action.cost]; omega
  | stop => simp [recover, finishing, Action.cost]
  | ignore => simp [recover]

theorem cost_ofFault (fault : Fault) : (ofFault fault).cost = 17 := rfl

/-- What the reader does **about a frame** costs no more than the bytes of the frame pay. -/
theorem cost_ofAssembled_le (assembled : Except Fault (Option Assembled)) :
    (ofAssembled assembled).cost ≤ 30 := by
  match assembled with
  | .error fault => simp [ofAssembled, cost_ofFault]
  | .ok none => simp [ofAssembled, Action.cost]
  | .ok (some (.message m)) => simp [ofAssembled, Action.cost]
  | .ok (some (.control f)) =>
      simp only [ofAssembled, ofControl]
      split
      · simp [Action.cost]
      · simp [Action.cost]
      · unfold ofClose
        split
        · simp [cost_ofFault]
        · simp [finishing, Action.cost]
      all_goals simp [Action.cost]

end Script

namespace Connection

variable {c c' c₁ : Connection} {task : TaskId} {action : Action} {rest script : Script}
  {move : Move} {moves : List Move}

theorem cost_turnDown_le (failure : Handshake.Failure) : (turnDown failure).cost ≤ 3 := by
  unfold turnDown
  split <;> simp [Action.cost]

theorem cost_judgeResponse_le (request : Handshake.Request) (head : Bytes) :
    (judgeResponse request head).cost ≤ 20 := by
  unfold judgeResponse
  split
  · simp [Action.cost]
  · split <;> simp [Action.cost]

theorem cost_judgeRequest_le (protocols : List String) (head : Bytes) :
    (judgeRequest protocols head).cost ≤ 21 := by
  unfold judgeRequest
  split
  · exact Nat.le_trans (cost_turnDown_le _) (by omega)
  · simp [Action.cost]

/-- A writer whose slot is not free before it has written is to be written first. -/
def pressure (writer : Option Writer) : Nat :=
  match writer with
  | some w => if w.isBlocked then 1 else 0
  | none => 0

/-- A writer with a **free slot** is not to be written first. -/
theorem pressure_of_slot {w : Writer} (h : w.slot = none) : pressure (some w) = 0 := by
  simp [pressure, Writer.isBlocked, h]

/-- Neither is one that **has just written**. -/
theorem pressure_written (w : Writer) : pressure (some w.written) = 0 := by
  simp [pressure, Writer.isBlocked, Writer.isFull, Writer.written, Writer.capacity]

theorem pressure_le_one (writer : Option Writer) : pressure writer ≤ 1 := by
  unfold pressure
  split
  · split <;> omega
  · omega

/-- What **keeps the tasks busy** beside their scripts: bytes to be read, events to be received, and
a writer that is to be written first. -/
def supply (c : Connection) : Nat :=
  13 * c.buffer.length + 14 * c.transport.incoming.length + c.events.length + pressure c.writer

theorem length_le_of_headProgress {limit : Nat} {b head rest : Bytes}
    (h : Handshake.headProgress limit b = .done head rest) : rest.length ≤ b.length := by
  rw [← Handshake.append_of_headProgress h, List.length_append]
  omega

/-- **What an action leaves to do**: less, or just as much when its task only begins to wait for the
lock. -/
inductive Pays (c : Connection) (task : TaskId) (before : Script) (c₁ : Connection)
    (after : Script) : Prop
  | less (h : after.cost + c₁.reader.cost + c₁.supply < before.cost + c.reader.cost + c.supply)
  | waits (hlock : c₁.lock = c.lock.acquire task) (hne : c.lock ≠ c.lock.acquire task)
      (hafter : after = before) (hreader : c₁.reader = c.reader) (hsupply : c₁.supply = c.supply)

/-- A task that has less to do afterwards, and **leaves the rest alone**. -/
theorem Pays.of_script {before after : Script} (hreader : c₁.reader = c.reader)
    (hsupply : c₁.supply ≤ c.supply) (hcost : after.cost < before.cost) :
    Pays c task before c₁ after := by
  refine .less ?_
  rw [hreader]
  omega

/-- An action leads to **less to do**, or its task begins to wait for the lock. -/
theorem Effect.cost_lt (heffect : Effect c task action rest c₁ script) :
    Pays c task (action :: rest) c₁ script := by
  have hfailed : ∀ {action : Action} {recovery : Recovery} {e : ConnectionError},
      4 < action.cost → (Script.recover recovery e rest).cost < Script.cost (action :: rest) := by
    intro action recovery e hcost
    have := Script.cost_recover_le recovery e rest
    rw [Script.cost_cons]
    omega
  have hlost : ∀ {action : Action} {recovery : Recovery} {e : ConnectionError}, 4 < action.cost →
      Script.cost (.markClosed :: Script.recover recovery e rest) <
        Script.cost (action :: rest) := by
    intro action recovery e hcost
    have := Script.cost_recover_le recovery e rest
    rw [Script.cost_cons, Script.cost_cons, Action.cost]
    omega
  have hempty : pressure (some {}) = 0 := rfl
  -- a writer is written without a change of the script: this is paid for by the pressure
  cases heffect with
  | queueUp _ hne | queueUpToTake _ hne => exact .waits rfl hne rfl rfl rfl
  | lockInVain | feedInVain | flushInVain =>
      exact .of_script rfl (Nat.le_refl _) (hfailed (by simp only [Action.cost]; omega))
  | refuseFrame =>
      refine .of_script rfl ?_ (hfailed (by simp only [Action.cost]; omega))
      rw [supply, supply, pressure_of_slot rfl]
      exact Nat.add_le_add_left (Nat.zero_le _) _
  | makeRoom hw hfull ht =>
      refine .less ?_
      have hpressure : pressure c.writer = 1 := by
        rw [hw]
        exact if_pos hfull
      rw [supply, supply, hpressure, pressure_written, Transport.write_eq_done ht]
      dsimp only
      omega
  | failToMakeRoom | failToFlush =>
      refine .of_script rfl ?_ (hlost (by simp only [Action.cost]; omega))
      exact Nat.add_le_add_left (Nat.zero_le _) _
  | fedAll _ _ he =>
      refine .of_script rfl ?_ (by simp only [Script.cost_cons, Action.cost]; omega)
      rw [supply, supply, pressure_of_slot (slot_of_emptySlot he)]
      exact Nat.add_le_add_left (Nat.zero_le _) _
  | @feed f more _ _ _ w' =>
      refine .less ?_
      have hpressure := pressure_le_one (some (w'.put f))
      simp only [supply, Script.cost_cons, Action.cost, List.length_cons]
      omega
  | flush _ ht =>
      refine .of_script rfl ?_ (by simp only [Script.cost_cons, Action.cost]; omega)
      rw [supply, supply, pressure_written, Transport.write_eq_done ht]
      exact Nat.add_le_add_left (Nat.zero_le _) _
  | takeWriter =>
      refine .of_script rfl ?_ (by simp only [Script.cost_cons, Action.cost]; omega)
      exact Nat.add_le_add_left (Nat.zero_le _) _
  | readFault =>
      refine .of_script rfl (Nat.le_refl _) ?_
      rw [Script.cost_append, Script.cost_ofFault, Script.cost_cons, Action.cost]
      omega
  | @readFrame _ f buffer hd =>
      refine .less ?_
      have hshorter := Codec.decode_rest_length_lt _ _ _ _ hd
      have hcost := Script.cost_ofAssembled_le (c.assembly.feed f).2
      simp only [supply, Script.cost_append, Script.cost_cons, Action.cost]
      omega
  | offer =>
      refine .less ?_
      simp only [supply, Script.cost_cons, Action.cost, List.length_append, List.length_singleton]
      omega
  | takeItem _ hevents | takeNext _ hevents | discard hevents =>
      refine .less ?_
      simp only [supply, hevents, Script.cost_cons, Script.cost_nil, Action.cost, List.length_cons]
      omega
  | sendRequest ht | sendAcceptance ht | sendRejection ht | shutDown ht =>
      refine .of_script rfl ?_
        (by simp only [Script.cost_cons, Script.cost_nil, Action.cost]; omega)
      simp only [supply, Transport.incoming_of_write ht, Nat.le_refl]
  | @judgeResponse request head _ _ h =>
      have hshorter := length_le_of_headProgress h
      have hcost := cost_judgeResponse_le request head
      refine .of_script rfl ?_ (by simp only [Script.cost_cons, Action.cost]; omega)
      simp only [supply]
      omega
  | @judgeRequest head _ _ h =>
      have hshorter := length_le_of_headProgress h
      have hcost := cost_judgeRequest_le c.options.protocols head
      refine .of_script rfl ?_ (by simp only [Script.cost_cons, Action.cost]; omega)
      simp only [supply]
      omega
  | @missRequest failure =>
      have hcost := cost_turnDown_le failure
      exact .of_script rfl (Nat.le_refl _) (by simp only [Script.cost_cons, Action.cost]; omega)
  | establish =>
      refine .less ?_
      simp only [supply, hempty, Script.cost_cons, Script.cost_nil, Action.cost]
      omega
  | _ =>
      refine .of_script rfl (Nat.le_refl _) ?_
      simp only [Script.finishing, Script.cost_cons, Script.cost_nil, Action.cost,
        List.length_singleton]
      omega

/-! ### All tasks together -/

/-- What the operations in progress still cost together. -/
def callsCost : List Call → Nat
  | [] => 0
  | call :: more => call.script.cost + callsCost more

/-- A new script for one operation changes **its cost** and no other. -/
theorem callsCost_map {calls : List Call} (hdistinct : (calls.map Call.id).Nodup) {call : Call}
    (hmem : call ∈ calls) (s : Script) :
    callsCost (calls.map fun other =>
        if other.id == call.id then { other with script := s } else other) + call.script.cost =
      callsCost calls + s.cost := by
  induction calls with
  | nil => cases hmem
  | cons first more ih =>
      rw [List.map_cons, List.nodup_cons] at hdistinct
      obtain heq | hmem := List.mem_cons.mp hmem
      · subst heq
        have hsame : more.map (fun other =>
            if other.id == call.id then { other with script := s } else other) = more := by
          refine (List.map_congr_left fun other hother => ?_).trans (List.map_id more)
          have hne : ¬(other.id == call.id) = true := by
            intro heq
            exact hdistinct.1 (List.mem_map.mpr ⟨other, hother, by simpa using heq⟩)
          exact if_neg hne
        simp only [List.map_cons, hsame, beq_self_eq_true, if_true, callsCost]
        omega
      · have hne : ¬(first.id == call.id) = true := by
          intro heq
          have heq : first.id = call.id := by simpa using heq
          exact hdistinct.1 (heq ▸ List.mem_map_of_mem hmem)
        have hrest := ih hdistinct.2 hmem
        simp only [List.map_cons, if_neg hne, callsCost] at hrest ⊢
        omega

/-- **What is still to be done** in a connection, by all tasks together. -/
def toil (c : Connection) : Nat := c.reader.cost + callsCost c.calls + c.supply

/-- An action leaves **less to be done**, or puts its task into the queue at the lock. -/
theorem toil_act (h : c.Scripted) (hscript : c.script task = action :: rest)
    (heffect : Effect c task action rest c₁ script) :
    (c₁.setScript task script).toil < c.toil ∨
      ((c₁.setScript task script).toil = c.toil ∧ c.lock ≠ c.lock.acquire task ∧
        (c₁.setScript task script).lock = c.lock.acquire task) := by
  have hsupply : (c₁.setScript task script).supply = c₁.supply := by
    simp only [supply, setScript_buffer, setScript_transport, setScript_events, setScript_writer]
  cases task with
  | reader =>
      have hreader : c.reader = action :: rest := hscript
      have hstarted : c₁.reader = c.reader := by
        obtain heq | ⟨_, _, rfl, -⟩ := heffect.reader_eq
        · exact heq
        · cases (h.readerScript hscript).not_negotiates _ (List.mem_cons_self ..)
      have hcalls : (c₁.setScript .reader script).calls = c.calls := heffect.calls_eq
      simp only [toil, setScript_reader_of_reader, hcalls, hsupply]
      cases heffect.cost_lt with
      | less hless =>
          rw [hstarted, hreader] at hless
          rw [hreader]
          exact Or.inl (by omega)
      | waits hlock hne hafter _ hsame =>
          rw [hreader, hafter, hsame]
          exact Or.inr ⟨rfl, hne, hlock⟩
  | call id =>
      obtain ⟨call, hcall, heq⟩ := call?_of_script hscript
      have hsum := callsCost_map h.distinct (mem_of_call? hcall) script
      rw [id_of_call? hcall, heq] at hsum
      have hcalls : (c₁.setScript (.call id) script).calls = c.calls.map fun other =>
          if other.id == id then { other with script := script } else other := by
        rw [← heffect.calls_eq]
        rfl
      simp only [toil, setScript_reader_of_call, hcalls, hsupply]
      cases heffect.cost_lt with
      | less hless => exact Or.inl (by omega)
      | waits hlock hne hafter hreader hsame =>
          rw [hafter] at hsum
          rw [hreader, hsame, hafter]
          refine Or.inr ⟨by omega, hne, ?_⟩
          rw [setScript_lock]
          exact hlock

/-- At most all tasks stand at the lock. -/
theorem Locked.length_queue_le (h : c.Locked) : c.lock.queue.length ≤ c.calls.length + 1 := by
  have hsubset : c.lock.queue ⊆ .reader :: c.calls.map fun call => .call call.id := by
    intro task hmem
    cases task with
    | reader => exact List.mem_cons_self ..
    | call id =>
        refine List.mem_cons_of_mem _ (List.mem_map.mpr ?_)
        cases hscript : c.script (.call id) with
        | nil =>
            have hqueued := h.queued _ hmem
            rw [hscript] at hqueued
            obtain hq | hq := hqueued <;> cases hq
        | cons action rest =>
            obtain ⟨call, hcall, -⟩ := call?_of_script hscript
            exact ⟨call, mem_of_call? hcall, by rw [id_of_call? hcall]⟩
  have hle := (List.Nodup.subperm h.sound.nodup hsubset).length_le
  simpa using hle

/-! ### Moves of the connection itself -/

/-- The moves that a connection makes **by itself**: its tasks act, and what has come is read. -/
def Move.isOwn : Move → Bool
  | .act _ | .read _ | .stopReader => true
  | _ => false

/-- How many moves a connection can make by itself, at most. -/
def stepsLeft (c : Connection) : Nat :=
  c.toil * (c.calls.length + 2) + (c.calls.length + 1 - c.lock.queue.length)

/-- The number of steps that are left is **one less**, at least, when there is less to be done. -/
theorem stepsLeft_lt_of_toil (hcalls : c'.calls.length = c.calls.length) (h : c'.toil < c.toil) :
    c'.stepsLeft < c.stepsLeft := by
  have hmul : (c'.toil + 1) * (c.calls.length + 2) ≤ c.toil * (c.calls.length + 2) :=
    Nat.mul_le_mul_right _ h
  rw [Nat.add_mul] at hmul
  rw [stepsLeft, stepsLeft, hcalls]
  omega

/-- Every move that a connection makes by itself brings it **nearer to its rest**. -/
theorem stepsLeft_lt (hreach : Reachable c) (hown : move.isOwn = true)
    (hstep : c.step move = some c') : c'.stepsLeft < c.stepsLeft := by
  have hlocked' := (hreach.step hstep).locked
  cases transition_of_step hstep with
  | @act task action rest c₁ script hscript heffect =>
      have hcalls : (c₁.setScript task script).calls.length = c.calls.length := by
        rw [← heffect.calls_eq]
        cases task with
        | reader => rfl
        | call id => exact List.length_map _
      obtain hless | ⟨hsame, hne, hlock⟩ := toil_act hreach.scripted hscript heffect
      · exact stepsLeft_lt_of_toil hcalls hless
      · have hmem : task ∉ c.lock.queue := fun hmem =>
          hne (Lock.acquire_of_mem hreach.locked.sound hmem).symm
        have hlength := hlocked'.length_queue_le
        rw [hlock, Lock.queue_acquire hreach.locked.sound hmem, List.length_append,
          List.length_singleton, hcalls] at hlength
        rw [stepsLeft, stepsLeft, hsame, hcalls, hlock,
          Lock.queue_acquire hreach.locked.sound hmem, List.length_append, List.length_singleton]
        omega
  | read hpos hle =>
      refine stepsLeft_lt_of_toil rfl ?_
      simp only [toil, supply, List.length_append, List.length_take, List.length_drop]
      omega
  | stopReader _ hsuspended =>
      refine stepsLeft_lt_of_toil rfl ?_
      cases hreader : c.reader with
      | nil => rw [isSuspended, script_reader, hreader] at hsuspended; cases hsuspended
      | cons action rest =>
          have hpos : 0 < action.cost := by
            cases action <;> simp only [Action.cost] <;> omega
          simp only [toil, supply, hreader, Script.cost_nil, Script.cost_cons]
          omega
  | _ => cases hown

/-- **How many moves a connection can make by itself** can be told beforehand. -/
theorem length_le_stepsLeft (hreach : Reachable c) (hown : ∀ m ∈ moves, m.isOwn = true)
    (hrun : c.run moves = some c') : moves.length + c'.stepsLeft ≤ c.stepsLeft := by
  induction moves generalizing c with
  | nil =>
      obtain rfl : c = c' := by simpa using hrun
      exact Nat.le_of_eq (Nat.zero_add _)
  | cons move moves ih =>
      obtain ⟨c₁, hstep, hrest⟩ := run_cons_eq_some.mp hrun
      obtain ⟨hmove, hmoves⟩ := List.forall_mem_cons.mp hown
      have hlt := stepsLeft_lt hreach hmove hstep
      have hle := ih (hreach.step hstep) hmoves hrest
      rw [List.length_cons]
      omega

/-- A connection that is not quiet can make **a move by itself**. -/
theorem exists_own_move (hquiet : c.isQuiet = false) :
    ∃ move c', move.isOwn = true ∧ c.step move = some c' := by
  by_cases hincoming : c.transport.incoming = []
  · by_cases hstop : c.step .stopReader = none
    · by_cases hact : ∀ task, c.act task = none
      · have hall : c.isQuiet = true := by
          simp [isQuiet, hincoming, hstop, hact]
        rw [hall] at hquiet
        cases hquiet
      · obtain ⟨task, htask⟩ := not_forall.mp hact
        obtain ⟨c', hc'⟩ := Option.ne_none_iff_exists'.mp htask
        exact ⟨.act task, c', rfl, hc'⟩
    · obtain ⟨c', hc'⟩ := Option.ne_none_iff_exists'.mp hstop
      exact ⟨.stopReader, c', rfl, hc'⟩
  · exact ⟨.read c.transport.incoming.length, _, rfl,
      if_pos ⟨List.length_pos_iff.mpr hincoming, Nat.le_refl _⟩⟩

/-- A connection **comes to rest** by itself. -/
theorem exists_quiet (hreach : Reachable c) :
    ∃ moves c', (∀ m ∈ moves, m.isOwn = true) ∧ c.run moves = some c' ∧ c'.isQuiet = true := by
  -- on the number of moves that are left: each of its own moves lowers it
  induction hsteps : c.stepsLeft using Nat.strongRecOn generalizing c with
  | ind n ih =>
      cases hquiet : c.isQuiet with
      | true => exact ⟨[], c, nofun, rfl, hquiet⟩
      | false =>
          obtain ⟨move, c₁, hown, hstep⟩ := exists_own_move hquiet
          have hlt := stepsLeft_lt hreach hown hstep
          obtain ⟨moves, c', hmoves, hrun, hrest⟩ := ih _ (hsteps ▸ hlt) (hreach.step hstep) rfl
          exact ⟨move :: moves, c', List.forall_mem_cons.mpr ⟨hown, hmoves⟩,
            run_cons_eq_some.mpr ⟨c₁, hstep, hrun⟩, hrest⟩

end Connection

end WebSocket
