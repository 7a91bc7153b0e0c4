import Mathlib.Data.List.Induction
import WebSocket.Proofs.Connection.Effect

/-!
# Moves and runs

`Connection.Transition` lists what each move does to a connection, with the condition under which
the move is possible. A statement that the new connection satisfies and every transition keeps
holds of every connection that a run leads to (`Connection.Reachable.invariant`).

The tasks of a connection are looked at one by one: a transition gives one task a new script, lets
an operation begin, or lets a task go away, and leaves the scripts of all others alone.

## Main results

* `Connection.transition_of_step`: **whatever a move does** is one of the listed transitions.
* `Connection.step_of_transition`: **each listed transition** is what its move does.
* `Connection.run_induction`: **induction along a run**, of which two invariants are special cases.
* `Connection.Reachable.invariant`: what holds at first and is kept by every move holds always.
* `Connection.trace_append`: what is **seen along** one run after the other.
* `Connection.always_induction`: induction along a run **all of whose moves are allowed**.
-/

namespace WebSocket

namespace Connection

/-! ### Tasks -/

/-- The operation in progress with a given number. -/
def call? (c : Connection) (id : Nat) : Option Call := c.calls.find? fun call => call.id == id

theorem script_call (c : Connection) (id : Nat) :
    c.script (.call id) = ((c.call? id).map Call.script).getD [] := rfl

@[simp] theorem script_reader (c : Connection) : c.script .reader = c.reader := rfl

theorem script_of_call? {c : Connection} {id : Nat} {call : Call} (h : c.call? id = some call) :
    c.script (.call id) = call.script := by
  rw [script_call, h]
  rfl

/-- A task with something to do is an operation in progress. -/
theorem call?_of_script {c : Connection} {id : Nat} {action : Action} {rest : Script}
    (h : c.script (.call id) = action :: rest) :
    ∃ call, c.call? id = some call ∧ call.script = action :: rest := by
  rw [script_call] at h
  cases hcall : c.call? id with
  | none => rw [hcall] at h; cases h
  | some call =>
      rw [hcall] at h
      exact ⟨call, rfl, h⟩

theorem id_of_call? {c : Connection} {id : Nat} {call : Call} (h : c.call? id = some call) :
    call.id = id := by
  simpa using List.find?_some h

theorem mem_of_call? {c : Connection} {id : Nat} {call : Call} (h : c.call? id = some call) :
    call ∈ c.calls :=
  List.mem_of_find?_eq_some h

/-- An operation that is answered **has nothing else to do**. -/
theorem script_of_answer? {c : Connection} {id : Nat} {a : Answer} (h : c.answer? id = some a) :
    c.script (.call id) = [.answer a] := by
  unfold answer? at h
  split at h
  · cases h
    assumption
  · cases h

section SetScript

variable (c : Connection) (task : TaskId) (s : Script)

@[simp] theorem setScript_role : (c.setScript task s).role = c.role := by cases task <;> rfl
@[simp] theorem setScript_options : (c.setScript task s).options = c.options := by
  cases task <;> rfl
@[simp] theorem setScript_phase : (c.setScript task s).phase = c.phase := by cases task <;> rfl
@[simp] theorem setScript_stage : (c.setScript task s).stage = c.stage := by cases task <;> rfl
@[simp] theorem setScript_transport : (c.setScript task s).transport = c.transport := by
  cases task <;> rfl
@[simp] theorem setScript_buffer : (c.setScript task s).buffer = c.buffer := by cases task <;> rfl
@[simp] theorem setScript_assembly : (c.setScript task s).assembly = c.assembly := by
  cases task <;> rfl
@[simp] theorem setScript_writer : (c.setScript task s).writer = c.writer := by cases task <;> rfl
@[simp] theorem setScript_lock : (c.setScript task s).lock = c.lock := by cases task <;> rfl
@[simp] theorem setScript_closeSent : (c.setScript task s).closeSent = c.closeSent := by
  cases task <;> rfl
@[simp] theorem setScript_pings : (c.setScript task s).pings = c.pings := by cases task <;> rfl
@[simp] theorem setScript_waiters : (c.setScript task s).waiters = c.waiters := by
  cases task <;> rfl
@[simp] theorem setScript_events : (c.setScript task s).events = c.events := by cases task <;> rfl
@[simp] theorem setScript_cancelled : (c.setScript task s).cancelled = c.cancelled := by
  cases task <;> rfl
@[simp] theorem setScript_now : (c.setScript task s).now = c.now := by cases task <;> rfl
@[simp] theorem setScript_sent : (c.setScript task s).sent = c.sent := by cases task <;> rfl
@[simp] theorem setScript_offered : (c.setScript task s).offered = c.offered := by
  cases task <;> rfl

@[simp] theorem setScript_reader_of_call (id : Nat) :
    (c.setScript (.call id) s).reader = c.reader := rfl
@[simp] theorem setScript_reader_of_reader : (c.setScript .reader s).reader = s := rfl

/-- A new script is given to one operation only. -/
theorem call?_setScript (j : Nat) :
    (c.setScript task s).call? j =
      if task = .call j then (c.call? j).map fun call => { call with script := s }
      else c.call? j := by
  cases task with
  | reader => rfl
  | call id =>
      simp only [call?, setScript, List.find?_map, TaskId.call.injEq]
      have hpred : ((fun call : Call => call.id == j) ∘ fun call =>
          if call.id == id then { call with script := s } else call) =
          fun call => call.id == j := by
        funext call
        simp only [Function.comp_apply]
        split <;> rfl
      rw [hpred]
      cases hcall : c.calls.find? fun call => call.id == j with
      | none => simp
      | some call =>
          have hid : call.id = j := by simpa using List.find?_some hcall
          by_cases heq : id = j
          · simp [hid, heq]
          · have : ¬ j = id := fun h => heq h.symm
            simp [hid, heq, this]

variable {c task}

theorem script_setScript_of_ne {other : TaskId} (h : other ≠ task) :
    (c.setScript task s).script other = c.script other := by
  cases other with
  | reader =>
      cases task with
      | reader => exact absurd rfl h
      | call id => rfl
  | call j => rw [script_call, script_call, call?_setScript, if_neg fun heq => h heq.symm]

end SetScript

/-! ### Moves -/

/-- **What a move does**, with the condition under which it is possible. -/
inductive Transition (c : Connection) : Move → Connection → Prop
  | start {id : Nat} {operation : Operation} (hfresh : c.isFresh id = true)
      (hmay : c.mayStart operation = true) (hlight : operation.isLight = true) :
      Transition c (.start id operation)
        { c with
          calls := c.calls ++
            [⟨id, operation.claim, Script.ofOperation c.options.fragmentSize operation⟩] }
  | act {task : TaskId} {action : Action} {rest : Script} {c₁ : Connection} {script : Script}
      (hscript : c.script task = action :: rest) (heffect : Effect c task action rest c₁ script) :
      Transition c (.act task) (c₁.setScript task script)
  | collect {id : Nat} {a : Answer} (h : c.script (.call id) = [.answer a]) :
      Transition c (.collect id) { c with calls := c.calls.filter fun call => call.id != id }
  | giveUp {id : Nat} (h : c.isSuspended (.call id) = true) :
      Transition c (.giveUp id)
        { c with
          lock := c.lock.leave (.call id)
          waiters := c.waiters.filter fun w => w.id != id
          calls := c.calls.filter fun call => call.id != id
          stage := if c.stage = .negotiating ∧ c.isAlone id then .done else c.stage }
  | forget {id : Nat} : Transition c (.forget id) (c.forget id)
  | read {count : Nat} (hpos : 0 < count) (hle : count ≤ c.transport.incoming.length) :
      Transition c (.read count)
        { c with
          buffer := c.buffer ++ c.transport.incoming.take count
          transport := { c.transport with incoming := c.transport.incoming.drop count } }
  | stopReader (hcancelled : c.cancelled = true) (h : c.isSuspended .reader = true) :
      Transition c .stopReader { c with lock := c.lock.leave .reader, reader := [] }
  | peerSend {b : Bytes} (hopen : c.transport.ending = none) (hheld : c.released = false) :
      Transition c (.peerSend b)
        { c with transport := { c.transport with incoming := c.transport.incoming ++ b } }
  | peerEnd {e : Ending} (hopen : c.transport.ending = none) :
      Transition c (.peerEnd e) { c with transport := { c.transport with ending := some e } }
  | peerGone :
      Transition c .peerGone
        { c with
          transport := { c.transport with
            broken := true
            ending := some (c.transport.ending.getD .ended) } }
  | peerTake {count : Nat} :
      Transition c (.peerTake count)
        { c with transport := { c.transport with outgoing := c.transport.outgoing.drop count } }
  | stall {stalled : Bool} :
      Transition c (.stall stalled) { c with transport := { c.transport with stalled := stalled } }
  | tick {milliseconds : Nat} :
      Transition c (.tick milliseconds) { c with now := c.now + milliseconds }

/-- **Whatever a move does** is one of the listed transitions. -/
theorem transition_of_step {c : Connection} {move : Move} {c' : Connection}
    (h : c.step move = some c') : Transition c move c' := by
  cases move with
  | start id operation =>
      simp only [step] at h
      split at h
      · rename_i hall
        rw [Bool.and_eq_true, Bool.and_eq_true] at hall
        cases h
        exact .start hall.1.1 hall.1.2 hall.2
      · cases h
  | act task =>
      simp only [step, act] at h
      split at h
      · cases h
      · rename_i action rest hscript
        split at h
        · cases h
        · rename_i c₁ script hperform
          cases h
          exact .act hscript (effect_of_perform hperform)
  | collect id =>
      simp only [step] at h
      split at h
      · rename_i hanswer
        cases h
        obtain ⟨a, ha⟩ := Option.isSome_iff_exists.mp hanswer
        exact .collect (script_of_answer? ha)
      · cases h
  | giveUp id =>
      simp only [step] at h
      split at h
      · cases h; exact .giveUp ‹_›
      · cases h
  | forget id => cases h; exact .forget
  | read count =>
      simp only [step] at h
      split at h
      · rename_i hboth
        cases h
        exact .read hboth.1 hboth.2
      · cases h
  | stopReader =>
      simp only [step] at h
      split at h
      · rename_i hboth
        rw [Bool.and_eq_true] at hboth
        cases h
        exact .stopReader hboth.1 hboth.2
      · cases h
  | peerSend b =>
      simp only [step] at h
      split at h
      · rename_i hboth
        rw [Bool.and_eq_true, Option.isNone_iff_eq_none, Bool.not_eq_true'] at hboth
        cases h
        exact .peerSend hboth.1 hboth.2
      · cases h
  | peerEnd e =>
      simp only [step] at h
      split at h
      · rename_i hopen
        cases h
        exact .peerEnd (Option.isNone_iff_eq_none.mp hopen)
      · cases h
  | peerGone => cases h; exact .peerGone
  | peerTake count => cases h; exact .peerTake
  | stall stalled => cases h; exact .stall
  | tick milliseconds => cases h; exact .tick

/-- **Each listed transition** is what its move does. -/
theorem step_of_transition {c : Connection} {move : Move} {c' : Connection}
    (h : Transition c move c') : c.step move = some c' := by
  cases h with
  | start hfresh hmay hlight =>
      exact if_pos (Bool.and_eq_true_iff.mpr ⟨Bool.and_eq_true_iff.mpr ⟨hfresh, hmay⟩, hlight⟩)
  | act hscript heffect => simp only [step, act, hscript, perform_of_effect heffect]
  | collect h => exact if_pos (by rw [answer?, h]; rfl)
  | giveUp h => exact if_pos h
  | read hpos hle => exact if_pos ⟨hpos, hle⟩
  | stopReader hcancelled h => exact if_pos (Bool.and_eq_true_iff.mpr ⟨hcancelled, h⟩)
  | peerSend hopen hheld => exact if_pos (by rw [hopen, hheld]; rfl)
  | peerEnd hopen => exact if_pos (by rw [hopen]; rfl)
  | forget | peerGone | peerTake | stall | tick => rfl

/-- A move is **an action of a task**, with its effect, or no action at all. -/
theorem Transition.act_or {c c' : Connection} {move : Move} (h : Transition c move c') :
    (∃ task action rest c₁ script, move = .act task ∧ c.script task = action :: rest ∧
      Effect c task action rest c₁ script ∧ c' = c₁.setScript task script) ∨
        ∀ task, move ≠ .act task := by
  cases h with
  | act hscript heffect => exact Or.inl ⟨_, _, _, _, _, rfl, hscript, heffect, rfl⟩
  | _ => exact Or.inr fun _ => nofun

/-- Time does not go back. -/
theorem Transition.now_le {c c' : Connection} {move : Move} (hmove : Transition c move c') :
    c.now ≤ c'.now := by
  cases hmove with
  | act _ heffect => exact Nat.le_of_eq (by rw [setScript_now, heffect.now_eq])
  | tick => exact Nat.le_add_right _ _
  | _ => exact Nat.le_refl _

/-! ### Runs -/

@[simp] theorem run_nil (c : Connection) : c.run [] = some c := rfl

/-- A run begins with its first move. -/
theorem run_cons_eq_some {c c' : Connection} {move : Move} {moves : List Move} :
    c.run (move :: moves) = some c' ↔ ∃ c₁, c.step move = some c₁ ∧ c₁.run moves = some c' := by
  simp only [run, Option.bind_eq_some_iff]

/-- One run after the other is a run. -/
theorem run_append_eq_some {c c' : Connection} {before after : List Move} :
    c.run (before ++ after) = some c' ↔ ∃ c₁, c.run before = some c₁ ∧ c₁.run after = some c' := by
  induction before generalizing c with
  | nil => simp
  | cons move before ih =>
      simp only [List.cons_append, run_cons_eq_some, ih]
      constructor
      · rintro ⟨c₁, hstep, c₂, hbefore, hafter⟩
        exact ⟨c₂, ⟨c₁, hstep, hbefore⟩, hafter⟩
      · rintro ⟨c₂, ⟨c₁, hstep, hbefore⟩, hafter⟩
        exact ⟨c₁, hstep, c₂, hbefore, hafter⟩

/-- A connection that **a run leads to**. -/
def Reachable (c : Connection) : Prop :=
  ∃ role options keys moves, (new role options keys).run moves = some c

theorem reachable_new (role : Role) (options : Options) (keys : Nat → Mask) :
    Reachable (new role options keys) :=
  ⟨role, options, keys, [], rfl⟩

theorem Reachable.run {c c' : Connection} {moves : List Move} (h : Reachable c)
    (hrun : c.run moves = some c') : Reachable c' := by
  obtain ⟨role, options, keys, before, hbefore⟩ := h
  exact ⟨role, options, keys, before ++ moves, run_append_eq_some.mpr ⟨c, hbefore, hrun⟩⟩

theorem Reachable.step {c c' : Connection} {move : Move} (h : Reachable c)
    (hstep : c.step move = some c') : Reachable c' :=
  have hrun : c.run [move] = some c' := run_cons_eq_some.mpr ⟨c', hstep, rfl⟩
  h.run hrun

/-- **Induction along a run**: what is said of the moves made so far, and of where they lead, holds
of the whole run if it holds at first and one more move keeps it. -/
theorem run_induction {P : List Move → Connection → Prop} {c₀ : Connection} (hstart : P [] c₀)
    (hmove : ∀ {before c move c'}, c₀.run before = some c → P before c → c.step move = some c' →
      P (before ++ [move]) c') {moves : List Move} {c : Connection}
    (hrun : c₀.run moves = some c) : P moves c := by
  induction moves using List.reverseRecOn generalizing c with
  | nil =>
      obtain rfl : c₀ = c := by simpa using hrun
      exact hstart
  | append_singleton before move ih =>
      obtain ⟨c₁, hbefore, hlast⟩ := run_append_eq_some.mp hrun
      obtain ⟨c₂, hstep, hnil⟩ := run_cons_eq_some.mp hlast
      obtain rfl : c₂ = c := by simpa using hnil
      exact hmove hbefore (ih hbefore) hstep

/-- Time does not go back in a run. -/
theorem now_le_of_run {c c' : Connection} {moves : List Move} (hrun : c.run moves = some c') :
    c.now ≤ c'.now :=
  run_induction (P := fun _ x => c.now ≤ x.now) (Nat.le_refl _)
    (fun _ h hstep => Nat.le_trans h (transition_of_step hstep).now_le) hrun

/-- What every move keeps **holds at the end** of a run if it holds at first. -/
theorem run_invariant {P : Connection → Prop}
    (hmove : ∀ {c move c'}, Reachable c → P c → Transition c move c' → P c') {c c' : Connection}
    {moves : List Move} (hreach : Reachable c) (h : P c) (hrun : c.run moves = some c') :
    P c' :=
  run_induction (P := fun _ x => P x) h
    (fun hbefore hx hstep => hmove (hreach.run hbefore) hx (transition_of_step hstep)) hrun

/-- **What holds at first** and is kept by every move holds of every connection. What is already
known of all connections may be used for the move. -/
theorem Reachable.invariant {P : Connection → Prop}
    (hnew : ∀ role options keys, P (new role options keys))
    (hmove : ∀ {c move c'}, Reachable c → P c → Transition c move c' → P c') {c : Connection}
    (h : Reachable c) : P c := by
  obtain ⟨role, options, keys, moves, hrun⟩ := h
  exact run_invariant hmove (reachable_new role options keys) (hnew role options keys) hrun

/-- **Induction along a run in which an operation is kept**: nobody gives it up, and nobody takes
its answer. -/
theorem kept_induction {P : List Move → Connection → Prop} {c₀ : Connection} {id : Nat}
    (hstart : P [] c₀)
    (hmove : ∀ {before c move c'}, c₀.run before = some c → P before c → move ≠ .giveUp id →
      move ≠ .collect id → c.step move = some c' → P (before ++ [move]) c')
    {moves : List Move} {c : Connection} (hrun : c₀.run moves = some c)
    (hkept : ∀ m ∈ moves, m ≠ .giveUp id ∧ m ≠ .collect id) : P moves c := by
  refine run_induction (P := fun moves x => (∀ m ∈ moves, m ≠ .giveUp id ∧ m ≠ .collect id) →
    P moves x) (fun _ => hstart) ?_ hrun hkept
  intro before c₁ move c₂ hbefore ih hstep hkept
  obtain ⟨hkept, hlast⟩ := List.forall_mem_append.mp hkept
  obtain ⟨hgiveUp, hcollect⟩ := hlast move (List.mem_singleton_self move)
  exact hmove hbefore (ih hkept) hgiveUp hcollect hstep

/-! ### What is seen along a run -/

section Trace

variable {α : Type} {look : Connection → Move → Option α}

/-- What is **seen along a run**: at each move perhaps something, told from the move and from the
connection in front of it. -/
def trace (look : Connection → Move → Option α) (c : Connection) : List Move → List α
  | [] => []
  | move :: moves =>
    match c.step move with
    | none => []
    | some c' => (look c move).toList ++ c'.trace look moves

theorem trace_append {c c₁ : Connection} {before after : List Move}
    (hrun : c.run before = some c₁) :
    c.trace look (before ++ after) = c.trace look before ++ c₁.trace look after := by
  induction before generalizing c with
  | nil =>
      obtain rfl : c = c₁ := by simpa using hrun
      rfl
  | cons move before ih =>
      obtain ⟨c₂, hstep, hrest⟩ := run_cons_eq_some.mp hrun
      rw [List.cons_append, trace, trace, hstep]
      simp only [ih hrest, List.append_assoc]

theorem trace_singleton {c c' : Connection} {move : Move} (hstep : c.step move = some c') :
    c.trace look [move] = (look c move).toList := by
  rw [trace, hstep]
  exact List.append_nil _

/-- What is seen along a run was seen **at one of its moves**. -/
theorem exists_of_mem_trace {c c' : Connection} {moves : List Move} (hrun : c.run moves = some c')
    {a : α} (ha : a ∈ c.trace look moves) : ∃ earlier move x x', earlier ++ [move] <+: moves ∧
      c.run earlier = some x ∧ x.step move = some x' ∧ look x move = some a := by
  refine run_induction (P := fun moves _ => a ∈ c.trace look moves → ∃ earlier move x x',
    earlier ++ [move] <+: moves ∧ c.run earlier = some x ∧ x.step move = some x' ∧
      look x move = some a) nofun ?_ hrun ha
  intro before x move x' hbefore ih hstep ha
  rw [trace_append hbefore, trace_singleton hstep] at ha
  obtain hearlier | hlast := List.mem_append.mp ha
  · obtain ⟨earlier, m, y, y', hprefix, hy⟩ := ih hearlier
    exact ⟨earlier, m, y, y', hprefix.trans (List.prefix_append _ _), hy⟩
  · exact ⟨before, move, x, x', List.prefix_rfl, hbefore, hstep, Option.mem_toList.mp hlast⟩

end Trace

/-! ### What every move of a run obeys -/

section Always

variable {allowed : Connection → Move → Bool}

/-- Whether **all moves of a run** are allowed, each where it is made. -/
def always (allowed : Connection → Move → Bool) (c : Connection) : List Move → Bool
  | [] => true
  | move :: moves =>
    allowed c move && match c.step move with
      | none => true
      | some c' => c'.always allowed moves

theorem always_append {c c₁ : Connection} {before after : List Move}
    (hrun : c.run before = some c₁) : c.always allowed (before ++ after) =
      (c.always allowed before && c₁.always allowed after) := by
  induction before generalizing c with
  | nil =>
      obtain rfl : c = c₁ := by simpa using hrun
      rfl
  | cons move before ih =>
      obtain ⟨c₂, hstep, hrest⟩ := run_cons_eq_some.mp hrun
      simp only [List.cons_append, always, hstep, ih hrest, Bool.and_assoc]

theorem always_singleton (c : Connection) (move : Move) :
    c.always allowed [move] = allowed c move := by
  rw [always]
  split <;> exact Bool.and_true _

/-- All moves of a longer run are allowed if those of the run are, **and its last one is**. -/
theorem always_concat {c c₁ : Connection} {before : List Move} {move : Move}
    (hrun : c.run before = some c₁) : c.always allowed (before ++ [move]) =
      (c.always allowed before && allowed c₁ move) := by
  rw [always_append hrun, always_singleton]

/-- **Induction along a run** all of whose moves are allowed. -/
theorem always_induction {P : List Move → Connection → Prop} {c₀ : Connection} (hstart : P [] c₀)
    (hmove : ∀ {before c move c'}, c₀.run before = some c → P before c →
      allowed c move = true → c.step move = some c' → P (before ++ [move]) c')
    {moves : List Move} {c : Connection} (hrun : c₀.run moves = some c)
    (h : c₀.always allowed moves = true) : P moves c := by
  refine run_induction (P := fun moves x => c₀.always allowed moves = true → P moves x)
    (fun _ => hstart) ?_ hrun h
  intro before c₁ move c₂ hbefore ih hstep halways
  rw [always_concat hbefore, Bool.and_eq_true] at halways
  exact hmove hbefore (ih halways.1) halways.2 hstep

end Always

/-! ### The run that opens a server -/

/-- A request that a server accepts. -/
def openingRequest : Bytes :=
  Bytes.ascii <| String.join
    ["GET / HTTP/1.1\r\n", "Host: h\r\n", "Upgrade: websocket\r\n", "Connection: Upgrade\r\n",
      "Sec-WebSocket-Key: AAAAAAAAAAAAAAAAAAAAAA==\r\n", "Sec-WebSocket-Version: 13\r\n\r\n"]

/-- The moves by which a server **opens**: operation 0 accepts the request. -/
def openingMoves : List Move :=
  [.start 0 .accept, .act (.call 0), .peerSend openingRequest, .read openingRequest.length,
    .act (.call 0), .act (.call 0), .act (.call 0)]

end Connection

end WebSocket
