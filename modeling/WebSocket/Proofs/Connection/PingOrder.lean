import WebSocket.Proofs.Connection.Hauls
import WebSocket.Proofs.Connection.Pings
import WebSocket.Proofs.Connection.Turns

/-!
# Pings in the order in which they are written

A ping is put into the queue in one step and written in another one, behind the writer lock. Where
tasks take turns, nobody comes between the two before the ping has its place at the lock. So the
pings that are still to be written stand at the lock in the order of the queue, and all pings of a
run are those that were written and those that stand at the lock, in this order
(`Connection.Lined`).

## Main results

* `Connection.Effect.pingProgress`: what an action does about the pings that are to be written.
* `Connection.lined_of_run`: pings are written **in the order of the queue**.
-/

namespace WebSocket

/-- The frames with which a script **waits for the lock**, or what is left of them behind it. -/
def Script.lading : Script → List Frame
  | .lockWriter frames _ :: _ | .feed frames _ :: _ => frames
  | _ => []

/-- Whether a script is that of a ping **whose call has not ended**. -/
def Script.isPinging (script : Script) : Bool :=
  script.any fun
    | .startWaiting => true
    | _ => false

/-- The ping that an operation **handed to the writer**, if the frame is one. -/
def Sent.ping? (s : Sent) : Option Ping :=
  match s.task with
  | .reader => none
  | .call id => if s.frame.opcode = .ping then some ⟨s.frame.payload, id⟩ else none

/-- The pings that a script of a task **still has to write**. -/
def Script.pings (task : TaskId) (script : Script) : List Ping :=
  script.lading.filterMap fun f => Sent.ping? ⟨task, f⟩

theorem Script.pings_reader (script : Script) : script.pings .reader = [] :=
  List.filterMap_eq_nil_iff.mpr fun _ _ => rfl

theorem Script.pings_of_forall {task : TaskId} {script : Script}
    (h : ∀ f ∈ script.lading, f.opcode ≠ .ping) : script.pings task = [] := by
  refine List.filterMap_eq_nil_iff.mpr fun f hf => ?_
  cases task with
  | reader => rfl
  | call id => exact if_neg (h f hf)

/-- To leave out somebody who brings nothing **leaves out nothing**. -/
theorem flatMap_erase_of_nil {α β : Type} [DecidableEq α] {f : α → List β} {a : α} (h : f a = [])
    (l : List α) : (l.erase a).flatMap f = l.flatMap f := by
  induction l with
  | nil => rfl
  | cons b l ih =>
      by_cases heq : b = a
      · rw [heq, List.erase_cons_head, List.flatMap_cons, h, List.nil_append]
      · rw [List.erase_cons_tail (by simpa using heq), List.flatMap_cons, List.flatMap_cons, ih]

namespace Connection

variable {c c' c₁ : Connection} {task : TaskId} {action : Action} {rest script : Script}
  {move : Move} {moves before : List Move} {role : Role} {options : Options} {keys : Nat → Mask}

/-- The pings that were **written**, in order. -/
def writtenPings (c : Connection) : List Ping := c.sent.reverse.filterMap Sent.ping?

/-- The pings that a task **still has to write**. -/
def unwritten (c : Connection) (task : TaskId) : List Ping := (c.script task).pings task

theorem writtenPings_congr (h : c'.sent = c.sent) : c'.writtenPings = c.writtenPings := by
  rw [writtenPings, writtenPings, h]

theorem writtenPings_cons {f : Frame} (h : c'.sent = ⟨task, f⟩ :: c.sent) :
    c'.writtenPings = c.writtenPings ++ (Sent.ping? ⟨task, f⟩).toList := by
  rw [writtenPings, writtenPings, h, List.reverse_cons, List.filterMap_append]
  cases hp : Sent.ping? ⟨task, f⟩ <;> simp [hp]

/-! ### Who has a ping to write -/

theorem Writes.lading {frames : List Frame} {recovery : Recovery}
    (h : Writes frames recovery action) (rest : Script) :
    Script.lading (action :: rest) <:+ frames := by
  cases h with
  | lock => exact List.suffix_refl frames
  | feed hmore => exact hmore
  | flush => exact List.nil_suffix

/-- No frame of a message **is a ping**. -/
theorem opcode_ne_ping_of_fragments {m : Message} {size : Nat} {f : Frame}
    (h : f ∈ m.fragments size) : f.opcode ≠ .ping := by
  obtain ⟨opcode, part, fin, rfl, hdata, -⟩ := Message.piece_of_mem_fragments h
  rintro hping
  rw [show opcode = .ping from hping] at hdata
  cases hdata

/-- **Who has a ping to write** is a call that has put it into the queue and not ended, and it has
nothing else to write. -/
theorem Scripted.unwritten_cases (h : c.Scripted) (task : TaskId) : c.unwritten task = [] ∨
    ∃ id payload, task = .call id ∧ payload.length ≤ Frame.maxControlPayload ∧
      (c.script task).lading = [Frame.ping payload] ∧ (c.script task).isPinging = true ∧
      c.unwritten task = [⟨payload, id⟩] := by
  cases task with
  | reader => exact .inl (Script.pings_reader _)
  | call id =>
      rw [unwritten]
      cases hscript : c.script (.call id) with
      | nil => exact .inl rfl
      | cons action rest =>
          obtain ⟨_, claim, -, -, hcall⟩ := h.callScript hscript
          cases hcall with
          | ordinary hordinary =>
              cases hordinary with
              | sending hw =>
                  refine .inl (Script.pings_of_forall fun f hf => ?_)
                  exact opcode_ne_ping_of_fragments ((hw.lading _).subset hf)
              | closing _ hw =>
                  refine .inl (Script.pings_of_forall fun f hf => ?_)
                  rw [List.mem_singleton.mp ((hw.lading _).subset hf)]
                  exact nofun
              | @pinging payload _ hlength hw =>
                  have hlading := hw.lading [.startWaiting, .answer .done]
                  obtain heq | hnil := List.suffix_cons_iff.mp hlading
                  · refine .inr ⟨id, payload, rfl, hlength, heq, ?_, ?_⟩
                    · simp [Script.isPinging]
                    · rw [Script.pings, heq]
                      rfl
                  · left
                    rw [Script.pings, List.suffix_nil.mp hnil]
                    rfl
              | _ => exact .inl rfl
          | negotiating hnegotiating => cases hnegotiating <;> exact .inl rfl
          | _ => exact .inl rfl

/-- Behind an action that puts no ping into the queue **no new ping** comes up. -/
theorem Scripted.pings_tail (h : c.Scripted) (hscript : c.script task = action :: rest)
    (hnot : c.enlisting? (.act task) = none) : rest.pings task = [] := by
  cases task with
  | reader => exact Script.pings_reader _
  | call id =>
      obtain ⟨_, claim, -, -, hcall⟩ := h.callScript hscript
      cases hcall with
      | ordinary hordinary =>
          cases hordinary with
          | send => exact Script.pings_of_forall fun f => opcode_ne_ping_of_fragments
          | enlisting =>
              rw [enlisting?, hscript] at hnot
              cases hnot
          | _ => rfl
      | negotiating hnegotiating => cases hnegotiating <;> rfl
      | _ => rfl

/-! ### What an action does about the pings -/

/-- **What an action does about the pings that are to be written**, if it puts none into the
queue. -/
inductive PingProgress (c : Connection) (task : TaskId) (script : Script) (c₁ : Connection) : Prop
  /-- Nothing is written, and the lock is left alone. -/
  | rests (hasks : (c.script task).asksLock = false) (hsame : script.pings task = c.unwritten task)
      (hwritten : c₁.writtenPings = c.writtenPings) (hlock : c₁.lock = c.lock)
      (hwriter : c₁.writer ≠ none → c.writer ≠ none ∨ c.stage = .negotiating)
  /-- The lock is asked for. -/
  | asks (hsame : script.pings task = c.unwritten task)
      (hwritten : c₁.writtenPings = c.writtenPings) (hlock : c₁.lock = c.lock.acquire task)
      (hwriter : c₁.writer = c.writer)
  /-- A ping is written. -/
  | writes {p : Ping} (hbefore : c.unwritten task = p :: script.pings task)
      (hwritten : c₁.writtenPings = c.writtenPings ++ [p]) (hheld : c.lock.holder = some task)
      (hlock : c₁.lock = c.lock) (hwriter : c.writer ≠ none)
  /-- The lock is given back. -/
  | leaves (hbefore : c.unwritten task = []) (hafter : script.pings task = [])
      (hwritten : c₁.writtenPings = c.writtenPings) (hheld : c.lock.holder = some task)
      (hlock : c₁.lock = c.lock.release) (hwriter : c.writer ≠ none)
  /-- There is no writer any more. -/
  | fails (hwritten : c₁.writtenPings = c.writtenPings) (hwriter : c₁.writer = none)

/-- A frame that is **handed to the writer** is a ping that was to be written, or no ping at all. -/
theorem PingProgress.feed {f : Frame} {more : List Frame} {recovery : Recovery}
    (hscript : c.script task = .feed (f :: more) recovery :: rest) (hwriter : c.writer ≠ none)
    (hheld : c.lock.holder = some task) (hsent : c₁.sent = ⟨task, f⟩ :: c.sent)
    (hlock : c₁.lock = c.lock) : PingProgress c task (.feed more recovery :: rest) c₁ := by
  have hbefore : c.unwritten task =
      (Sent.ping? ⟨task, f⟩).toList ++ Script.pings task (.feed more recovery :: rest) := by
    rw [unwritten, hscript, Script.pings, Script.pings, Script.lading, Script.lading,
      List.filterMap_cons]
    cases Sent.ping? ⟨task, f⟩ <;> rfl
  have hwritten := writtenPings_cons hsent
  cases hp : Sent.ping? ⟨task, f⟩ with
  | none =>
      rw [hp] at hbefore hwritten
      rw [Option.toList_none, List.append_nil] at hwritten
      exact .rests (by rw [hscript]; rfl) hbefore.symm hwritten hlock fun _ => .inl hwriter
  | some p =>
      rw [hp] at hbefore hwritten
      exact .writes hbefore hwritten hheld hlock hwriter

/-- An action of a handshake **has nothing to do with pings**. -/
theorem Effect.pingProgress_of_negotiates (heffect : Effect c task action rest c₁ script)
    (hreach : Reachable c) (hscript : c.script task = action :: rest)
    (hnegotiates : action.negotiates = true) : PingProgress c task script c₁ := by
  have hstage := hreach.staged.negotiating hscript hnegotiates
  obtain ⟨_, _, -, -, -, hnegotiating⟩ := hreach.scripted.negotiating hscript hnegotiates
  have hsame : script.pings task = c.unwritten task := by
    have hafter : script.pings task = [] := by
      obtain hafter | ⟨a, rfl⟩ := hnegotiating.next heffect
      · cases hafter <;> rfl
      · rfl
    rw [hafter, unwritten, hscript]
    cases hnegotiating <;> rfl
  have hasks : (c.script task).asksLock = false := by
    rw [hscript]
    cases hnegotiating <;> rfl
  cases heffect <;> first
    | exact .rests hasks hsame rfl rfl fun _ => .inr hstage
    | cases hnegotiates

/-- **Whatever an action does** about the pings is one of these, or it puts one into the queue. -/
theorem Effect.pingProgress (heffect : Effect c task action rest c₁ script) (hreach : Reachable c)
    (hscript : c.script task = action :: rest) (hnot : c.enlisting? (.act task) = none) :
    PingProgress c task script c₁ := by
  have hrest := hreach.scripted.pings_tail hscript hnot
  have hholds : action.holdsLock = true → c.lock.holder = some task := fun hworks =>
    hreach.locked.holds (by rw [hscript]; exact hworks)
  have hidle : ∀ {script : Script}, script.pings task = [] → Script.lading (action :: rest) = [] →
      script.pings task = c.unwritten task := by
    intro script hafter hbefore
    rw [hafter, unwritten, hscript, Script.pings, hbefore]
    rfl
  have hthere : ∀ {w : Writer}, c.writer = some w → c.writer ≠ none := by
    rintro w hw
    rw [hw]
    exact Option.some_ne_none w
  by_cases hnegotiates : action.negotiates = true
  · exact heffect.pingProgress_of_negotiates hreach hscript hnegotiates
  · cases heffect with
    | enlist htask =>
        subst htask
        rw [enlisting?, hscript] at hnot
        cases hnot
    | enlistReader htask =>
        subst htask
        refine .rests (by rw [hscript]; rfl) ?_ rfl rfl .inl
        rw [Script.pings_reader, unwritten, Script.pings_reader]
    | claimClose =>
        exact .rests (by rw [hscript]; rfl) (hidle (Script.pings_of_forall (by
          simp [Script.lading, Frame.close, Frame.ofPayload])) rfl) rfl rfl .inl
    | answerPing =>
        exact .rests (by rw [hscript]; rfl) (hidle (Script.pings_of_forall (by
          simp [Script.lading, Frame.pong, Frame.ofPayload])) rfl) rfl rfl .inl
    | queueUp => exact .asks (by rw [unwritten, hscript]) rfl rfl rfl
    | startWriting => exact .asks (by rw [unwritten, hscript]; rfl) rfl rfl rfl
    | queueUpToTake => exact .asks (by rw [unwritten, hscript]) rfl rfl rfl
    | lockInVain _ hw => exact .fails rfl hw
    | feedInVain hw => exact .fails rfl hw
    | flushInVain hw => exact .fails rfl hw
    | takeNothing _ hw => exact .fails rfl hw
    | failToMakeRoom => exact .fails rfl rfl
    | failToFlush => exact .fails rfl rfl
    | takeWriter => exact .fails rfl rfl
    | makeRoom hw =>
        exact .rests (by rw [hscript]; rfl) (by rw [unwritten, hscript]) rfl rfl
          fun _ => .inl (hthere hw)
    | flush hw =>
        exact .leaves (by rw [unwritten, hscript]; rfl) hrest rfl (hholds rfl) rfl (hthere hw)
    | refuseFrame hw _ he => exact absurd he (hreach.sendable.emptySlot_ne_error hw)
    | fedAll hw =>
        exact .rests (by rw [hscript]; rfl) (hidle rfl rfl) rfl rfl fun _ => .inl (hthere hw)
    | feed hw => exact .feed hscript (hthere hw) (hholds rfl) rfl rfl
    | readFrame =>
        refine .rests (by rw [hscript]; rfl) (hidle ?_ rfl) rfl rfl .inl
        obtain ⟨next, others, heq, hreacts⟩ := ofAssembled_head (c.assembly.feed _).2 rest
        rw [heq, Script.pings]
        cases next <;> first | rfl | cases hreacts
    | _ => first
        | exact absurd rfl hnegotiates
        | exact .rests (by rw [hscript]; rfl) (hidle hrest rfl) rfl rfl .inl
        | exact .rests (by rw [hscript]; rfl) (hidle rfl rfl) rfl rfl .inl

/-! ### Who puts a ping into the queue -/

theorem enlisting?_eq_some {p : Ping} (h : c.enlisting? move = some p) :
    ∃ rest, move = .act (.call p.id) ∧ c.script (.call p.id) = .enlist p.payload :: rest := by
  unfold enlisting? at h
  split at h
  · rename_i id
    obtain ⟨payload, hpayload, rfl⟩ := Option.map_eq_some_iff.mp h
    unfold Script.enlisting? at hpayload
    split at hpayload
    · rename_i hscript
      obtain rfl := Option.some.inj hpayload
      exact ⟨_, rfl, hscript⟩
    · cases hpayload
  · cases h

/-- Who puts a ping into the queue **asks for the lock next**, and has this ping to write. -/
theorem Effect.enlisting {id : Nat} {payload : Bytes}
    (heffect : Effect c (.call id) (.enlist payload) rest c₁ script) (h : c.Scripted)
    (hscript : c.script (.call id) = .enlist payload :: rest) :
    Script.asksLock script = true ∧ script.pings (.call id) = [⟨payload, id⟩] ∧
      c₁.writtenPings = c.writtenPings ∧ c₁.lock = c.lock ∧ c₁.writer = c.writer := by
  obtain ⟨_, claim, -, -, hcall⟩ := h.callScript hscript
  cases hcall with
  | ordinary hordinary =>
      cases hordinary with
      | enlisting =>
          cases heffect with
          | enlist => exact ⟨rfl, rfl, rfl, rfl, rfl⟩
          | enlistReader htask => cases htask
      | sending hw => cases hw
      | pinging _ hw => cases hw
      | closing _ hw => cases hw
  | negotiating hnegotiating => cases hnegotiating

/-- Before the stream of frames has begun **no ping** is put into the queue. -/
theorem enlisted_eq_nil (hrun : (new role options keys).run moves = some c)
    (hstage : c.stage ≠ .running) : (new role options keys).enlisted moves = [] := by
  refine run_induction (P := fun moves x => x.stage ≠ .running →
    (new role options keys).enlisted moves = []) (fun _ => rfl) ?_ hrun hstage
  intro before c₁ move c₂ hbefore ih hstep hstage
  have hreach := (reachable_new role options keys).run hbefore
  have hidle : c₁.stage ≠ .running := fun hrunning =>
    hstage (hreach.staged.running hrunning (transition_of_step hstep))
  rw [enlisted_concat hbefore hstep, ih hidle]
  cases hp : c₁.enlisting? move with
  | none => rfl
  | some p =>
      obtain ⟨rest, -, hscript⟩ := enlisting?_eq_some hp
      exact absurd (hreach.staged.streaming hscript rfl) hidle

/-! ### Pings in line -/

/-- The moves of tasks that **take turns**, and with which no ping is given up before its call has
ended. -/
def isPunctual (c : Connection) : Move → Bool
  | .act task => c.othersPause task
  | .giveUp id => !(c.script (.call id)).isPinging
  | _ => true

/-- The runs of which all moves are so. -/
def punctually (c : Connection) (moves : List Move) : Bool := c.always isPunctual moves

/-- **The pings of a run stand in line**: they are those that were written, then those of the tasks
at the lock, and at last that of a task which has not asked for the lock yet. Once there is no
writer any more, no further ping is written. -/
inductive Lined (c : Connection) (pings : List Ping) : Prop
  | inLine (next : Option TaskId)
      (hnext : ∀ task ∈ next, (c.script task).asksLock = true ∧ task ∉ c.lock.queue ∧
        c.unwritten task ≠ [])
      (hline : pings = c.writtenPings ++ (c.lock.queue ++ next.toList).flatMap c.unwritten)
      (hrest : ∀ task, task ∉ c.lock.queue → task ∉ next → c.unwritten task = [])
  | stopped (hwriter : c.writer = none) (hwritten : c.writtenPings <+: pings)

theorem Lined.written {pings : List Ping} (h : c.Lined pings) : c.writtenPings <+: pings := by
  obtain ⟨_, -, hline, -⟩ | ⟨-, hwritten⟩ := h
  · exact ⟨_, hline.symm⟩
  · exact hwritten

/-- While nobody is on the way to the lock, all pings are **in line there**. -/
theorem Lined.atLock {pings : List Ping}
    (hline : pings = c.writtenPings ++ c.lock.queue.flatMap c.unwritten)
    (hrest : ∀ task, task ∉ c.lock.queue → c.unwritten task = []) : c.Lined pings :=
  .inLine none nofun (by rwa [Option.toList_none, List.append_nil])
    fun task hnot _ => hrest task hnot

/-- Who asks for the lock and pauses **has a place** there. -/
theorem mem_queue_of_pauses (h : c.pauses task = true) (hasks : (c.script task).asksLock = true) :
    task ∈ c.lock.queue := by
  cases hscript : c.script task with
  | nil => rw [hscript] at hasks; cases hasks
  | cons action rest =>
      rw [hscript] at hasks
      rw [pauses, hscript] at h
      cases action with
      | lockWriter => simpa [Action.isOpening, Action.mayWait, Action.asksLock] using h
      | takeWriter => simpa [Action.isOpening, Action.mayWait, Action.asksLock] using h
      | _ => cases hasks

/-- Before the stream of frames has begun nobody **has a ping to write**. -/
theorem unwritten_of_idle (hstaged : c.Staged) (hstage : c.stage ≠ .running) (task : TaskId) :
    c.unwritten task = [] := by
  refine Script.pings_of_forall fun f hf => absurd ?_ hstage
  unfold Script.lading at hf
  split at hf
  · exact hstaged.streaming ‹_› rfl
  · exact hstaged.streaming ‹_› rfl
  · cases hf

/-- An action concerns the pings of **its own task** only. -/
theorem Effect.unwritten_after (heffect : Effect c task action rest c₁ script)
    (hscript : c.script task = action :: rest) (other : TaskId) :
    (c₁.setScript task script).unwritten other =
      if other = task then script.pings task else c.unwritten other := by
  obtain ⟨rfl, heq⟩ | ⟨hne, heq⟩ | ⟨rfl, hne, -⟩ := heffect.script_after hscript other
  · rw [if_pos rfl, unwritten, heq]
  · rw [if_neg hne, unwritten, heq, unwritten]
  · rw [if_neg hne, unwritten, unwritten, Script.pings_reader, Script.pings_reader]

/-- Where all others pause, nobody **but the task that acts** is on the way to the lock. -/
theorem eq_of_othersPause (hpause : c.othersPause task = true) {other : TaskId}
    (hasks : (c.script other).asksLock = true) (hnot : other ∉ c.lock.queue) : other = task := by
  by_contra hne
  exact hnot (mem_queue_of_pauses (pauses_of_othersPause hpause hne) hasks)

/-- While the task that acts has a place at the lock or does not ask for one, all pings are in line
there. -/
theorem Lined.line {pings : List Ping} (h : c.Lined pings) (hwriter : c.writer ≠ none)
    (hpause : c.othersPause task = true)
    (hat : task ∈ c.lock.queue ∨ (c.script task).asksLock = false) :
    pings = c.writtenPings ++ c.lock.queue.flatMap c.unwritten ∧
      ∀ other, other ∉ c.lock.queue → c.unwritten other = [] := by
  obtain ⟨next, hnext, hline, hrest⟩ | ⟨hgone, -⟩ := h
  · cases next with
    | none =>
        rw [Option.toList_none, List.append_nil] at hline
        exact ⟨hline, fun other hout => hrest other hout nofun⟩
    | some other =>
        obtain ⟨hasks, hout, -⟩ := hnext other rfl
        obtain rfl := eq_of_othersPause hpause hasks hout
        exact hat.elim (absurd · hout) fun hnot => nomatch hnot.symm.trans hasks
  · exact absurd hgone hwriter

/-- When the task that acts **asks for the lock**, all pings are in line there. -/
theorem Lined.acquire {pings : List Ping} (h : c.Lined pings) (hwriter : c.writer ≠ none)
    (hsound : c.lock.Sound) (hpause : c.othersPause task = true) :
    pings = c.writtenPings ++ (c.lock.acquire task).queue.flatMap c.unwritten ∧
      ∀ other, other ∉ (c.lock.acquire task).queue → c.unwritten other = [] := by
  by_cases hmem : task ∈ c.lock.queue
  · rw [Lock.acquire_of_mem hsound hmem]
    exact h.line hwriter hpause (.inl hmem)
  · rw [Lock.queue_acquire hsound hmem]
    obtain ⟨next, hnext, hline, hrest⟩ | ⟨hgone, -⟩ := h
    · have hself : ∀ other ∈ next, other = task := fun other hother =>
        eq_of_othersPause hpause (hnext other hother).1 (hnext other hother).2.1
      refine ⟨?_, fun other hout => ?_⟩
      · cases next with
        | none => simp [hline, hrest task hmem nofun]
        | some other => rw [hline, hself other rfl, Option.toList_some]
      · rw [List.mem_append, List.mem_singleton, not_or] at hout
        exact hrest other hout.1 fun hother => hout.2 (hself other hother)
    · exact absurd hgone hwriter

/-- Those who wait behind the task that holds the lock **have what they had** when it acts. -/
theorem flatMap_waiting (hsound : c.lock.Sound) (hheld : c.lock.holder = some task)
    (hothers : ∀ other, other ≠ task → c'.unwritten other = c.unwritten other) :
    c.lock.waiting.flatMap c'.unwritten = c.lock.waiting.flatMap c.unwritten := by
  have hnodup := hsound.nodup
  rw [Lock.queue_of_held hheld, List.nodup_cons] at hnodup
  refine List.flatMap_congr fun other hother => hothers other ?_
  rintro rfl
  exact hnodup.1 hother

/-- When the writer comes with the stream of frames, **no ping** is to be written yet. -/
theorem Lined.atFirst (hreach : Reachable c) (hidle : c.stage ≠ .running)
    (hsame : c'.unwritten = c.unwritten) (hwritten : c'.writtenPings = []) : c'.Lined [] := by
  have hnone := unwritten_of_idle hreach.staged hidle
  refine .atLock ?_ fun other _ => by rw [hsame, hnone]
  rw [hwritten, hsame]
  exact (List.flatMap_eq_nil_iff.mpr fun other _ => hnone other).symm

/-- **An action keeps the pings in line** if it puts none into the queue. -/
theorem Lined.advance {pings : List Ping} (h : c.Lined pings) (hreach : Reachable c)
    (hscript : c.script task = action :: rest) (heffect : Effect c task action rest c₁ script)
    (hnot : c.enlisting? (.act task) = none) (hpause : c.othersPause task = true)
    (hearly : c.stage ≠ .running → pings = []) : (c₁.setScript task script).Lined pings := by
  have hsound := hreach.locked.sound
  have hwriter : (c₁.setScript task script).writer = c₁.writer := setScript_writer ..
  have hlock : (c₁.setScript task script).lock = c₁.lock := setScript_lock ..
  have hsent : (c₁.setScript task script).writtenPings = c₁.writtenPings :=
    writtenPings_congr (setScript_sent ..)
  have hunwritten := heffect.unwritten_after hscript
  generalize c₁.setScript task script = c' at *
  have hself : c'.unwritten task = script.pings task := by rw [hunwritten, if_pos rfl]
  have hothers : ∀ other, other ≠ task → c'.unwritten other = c.unwritten other := by
    intro other hne
    rw [hunwritten, if_neg hne]
  have hkeeps : script.pings task = c.unwritten task → c'.unwritten = c.unwritten := by
    intro hsame
    funext other
    by_cases heq : other = task
    · rw [heq, hself, hsame]
    · exact hothers other heq
  cases heffect.pingProgress hreach hscript hnot with
  | rests hasks hsame hwritten hlock' hcomes =>
      by_cases hgone : c.writer = none
      · by_cases hcame : c₁.writer = none
        · refine .stopped (hwriter.trans hcame) ?_
          rw [hsent, hwritten]
          exact h.written
        · have hidle : c.stage ≠ .running := by
            rw [(hcomes hcame).resolve_left (absurd hgone)]
            exact nofun
          obtain rfl := hearly hidle
          refine .atFirst hreach hidle (hkeeps hsame) ?_
          rw [hsent, hwritten, List.prefix_nil.mp h.written]
      · obtain ⟨hline, hrest⟩ := h.line hgone hpause (.inr hasks)
        refine .atLock ?_ ?_
        · rwa [hsent, hwritten, hlock, hlock', hkeeps hsame]
        · rwa [hlock, hlock', hkeeps hsame]
  | asks hsame hwritten hlock' hsame' =>
      by_cases hgone : c.writer = none
      · refine .stopped (by rw [hwriter, hsame', hgone]) ?_
        rw [hsent, hwritten]
        exact h.written
      · obtain ⟨hline, hrest⟩ := h.acquire hgone hsound hpause
        refine .atLock ?_ ?_
        · rwa [hsent, hwritten, hlock, hlock', hkeeps hsame]
        · rwa [hlock, hlock', hkeeps hsame]
  | writes hbefore hwritten hheld hlock' hsome =>
      have hmem := Lock.mem_queue_of_held hheld
      obtain ⟨hline, hrest⟩ := h.line hsome hpause (.inl hmem)
      rw [Lock.queue_of_held hheld, List.flatMap_cons, hbefore] at hline
      refine .atLock ?_ fun other hout => ?_
      · rw [hsent, hwritten, hlock, hlock', Lock.queue_of_held hheld, List.flatMap_cons, hself,
          flatMap_waiting hsound hheld hothers, hline]
        simp
      · rw [hlock, hlock'] at hout
        rw [hothers other fun heq => hout (heq ▸ hmem), hrest other hout]
  | leaves hbefore hafter hwritten hheld hlock' hsome =>
      have hmem := Lock.mem_queue_of_held hheld
      obtain ⟨hline, hrest⟩ := h.line hsome hpause (.inl hmem)
      rw [Lock.queue_of_held hheld, List.flatMap_cons, hbefore] at hline
      have hqueue : c'.lock.queue = c.lock.waiting := by
        rw [hlock, hlock', Lock.queue_release _ hheld, Lock.queue_of_held hheld, List.tail_cons]
      refine .atLock ?_ fun other hout => ?_
      · rw [hsent, hwritten, hqueue, flatMap_waiting hsound hheld hothers, hline, List.nil_append]
      · by_cases heq : other = task
        · rw [heq, hself, hafter]
        · rw [hothers other heq]
          refine hrest other ?_
          rw [Lock.queue_of_held hheld, List.mem_cons, not_or]
          exact ⟨heq, hqueue ▸ hout⟩
  | fails hwritten hnone =>
      refine .stopped (hwriter.trans hnone) ?_
      rw [hsent, hwritten]
      exact h.written

/-- A ping that is put into the queue **is the last one in line**. -/
theorem Lined.enlist {pings : List Ping} {id : Nat} {payload : Bytes} (h : c.Lined pings)
    (hreach : Reachable c) (hscript : c.script (.call id) = .enlist payload :: rest)
    (heffect : Effect c (.call id) (.enlist payload) rest c₁ script)
    (hpause : c.othersPause (.call id) = true) :
    (c₁.setScript (.call id) script).Lined (pings ++ [⟨payload, id⟩]) := by
  obtain ⟨hasks, hpings, hwritten, hlock, hwriter⟩ := heffect.enlisting hreach.scripted hscript
  have hnot := hreach.locked.not_mem hscript rfl rfl
  have hsent : (c₁.setScript (.call id) script).writtenPings = c.writtenPings :=
    (writtenPings_congr (setScript_sent ..)).trans hwritten
  have hothers : ∀ other, other ≠ .call id →
      (c₁.setScript (.call id) script).unwritten other = c.unwritten other := by
    intro other hne
    rw [heffect.unwritten_after hscript, if_neg hne]
  have hself : (c₁.setScript (.call id) script).unwritten (.call id) = [⟨payload, id⟩] := by
    rw [heffect.unwritten_after hscript, if_pos rfl, hpings]
  by_cases hgone : c.writer = none
  · refine .stopped (by rw [setScript_writer, hwriter, hgone]) ?_
    rw [hsent]
    exact h.written.trans (List.prefix_append _ _)
  · obtain ⟨hline, hrest⟩ := h.line hgone hpause (.inr (by rw [hscript]; rfl))
    refine .inLine (some (.call id)) ?_ ?_ ?_
    · rintro other hother
      obtain rfl := Option.some.inj hother
      rw [heffect.script_self hscript, setScript_lock, hlock, hself]
      exact ⟨hasks, hnot, nofun⟩
    · have hqueue : c.lock.queue.flatMap (c₁.setScript (.call id) script).unwritten =
          c.lock.queue.flatMap c.unwritten := by
        refine List.flatMap_congr fun other hother => hothers other ?_
        rintro rfl
        exact hnot hother
      rw [hsent, setScript_lock, hlock, List.flatMap_append, hqueue, hline, List.append_assoc]
      simp [hself]
    · intro other hout hother
      rw [setScript_lock, hlock] at hout
      rw [hothers other fun heq => hother (heq ▸ rfl), hrest other hout]

/-! ### Moves that are no actions -/

/-- Whoever has a ping to write **stands where it stood** after a move that is no action. -/
theorem Transition.kept_of_unwritten (hmove : Transition c move c') (h : c.Scripted)
    (hact : ∀ task, move ≠ .act task) (hpunctual : c.isPunctual move = true)
    (hmore : c.unwritten task ≠ []) : c'.script task = c.script task := by
  obtain hnone | ⟨id, payload, rfl, -, hlading, hpinging, -⟩ := h.unwritten_cases task
  · exact absurd hnone hmore
  · have hbusy : c.script (.call id) ≠ [] := by
      intro hnil
      rw [hnil] at hlading
      cases hlading
    obtain hkept | ⟨_, a, -, -, hended⟩ | ⟨_, hid, rfl, -⟩ | ⟨hreader, -⟩ :=
      hmove.kept_of_ne_act hact hbusy
    · exact hkept
    · rw [hended] at hlading
      cases hlading
    · obtain rfl := TaskId.call.inj hid
      rw [isPunctual, hpinging] at hpunctual
      cases hpunctual
    · cases hreader

/-- A move that is no action gives and takes **no pings**. -/
theorem Transition.unwritten_of_ne_act (hmove : Transition c move c') (h : c.Scripted)
    (hact : ∀ task, move ≠ .act task) (hpunctual : c.isPunctual move = true) (task : TaskId) :
    c'.unwritten task = c.unwritten task := by
  by_cases hmore : c.unwritten task = []
  · obtain heq | heq | ⟨_, operation, -, -, -, heq⟩ := hmove.script_of_ne_act hact task
    · rw [unwritten, heq, unwritten]
    · rw [unwritten, heq, hmore]
      rfl
    · obtain ⟨first, more, hfirst, hopening⟩ := ofOperation_opening c.options.fragmentSize operation
      rw [unwritten, heq, hfirst, hmore]
      cases first <;> first | rfl | cases hopening
  · rw [unwritten, hmove.kept_of_unwritten h hact hpunctual hmore, unwritten]

/-- **A move that is no action keeps the pings in line.** -/
theorem Lined.idle {pings : List Ping} (h : c.Lined pings) (hreach : Reachable c)
    (hmove : Transition c move c') (hact : ∀ task, move ≠ .act task)
    (hpunctual : c.isPunctual move = true) : c'.Lined pings := by
  have hsame := hmove.unwritten_of_ne_act hreach.scripted hact hpunctual
  have hwritten : c'.writtenPings = c.writtenPings :=
    writtenPings_congr (hmove.sent_of_ne_act hact).2.2
  have hwriter : c'.writer = c.writer := by
    cases hmove with
    | act => exact absurd rfl (hact _)
    | _ => rfl
  -- who goes away from the lock has no ping to write
  have hqueue : c'.lock.queue.flatMap c.unwritten = c.lock.queue.flatMap c.unwritten ∧
      (∀ other ∈ c'.lock.queue, other ∈ c.lock.queue) ∧
        ∀ other ∈ c.lock.queue, other ∉ c'.lock.queue → c.unwritten other = [] := by
    obtain heq | ⟨gone, hgone, heq⟩ := hmove.lock_of_ne_act hact
    · rw [heq]
      exact ⟨rfl, fun _ => id, fun _ hin hout => absurd hin hout⟩
    · have hnone : c.unwritten gone = [] := by
        rw [← hsame, unwritten, hgone]
        rfl
      rw [heq, Lock.queue_leave hreach.locked.sound]
      refine ⟨flatMap_erase_of_nil hnone _, fun other => List.mem_of_mem_erase, ?_⟩
      intro other hin hout
      by_cases hother : other = gone
      · rw [hother, hnone]
      · exact absurd ((List.mem_erase_of_ne hother).mpr hin) hout
  obtain ⟨next, hnext, hline, hrest⟩ | ⟨hgone, hsofar⟩ := h
  · refine .inLine next ?_ ?_ ?_
    · intro task htask
      obtain ⟨hasks, hout, hmore⟩ := hnext task htask
      rw [hmove.kept_of_unwritten hreach.scripted hact hpunctual hmore, hsame]
      exact ⟨hasks, fun hin => hout (hqueue.2.1 task hin), hmore⟩
    · rw [hwritten, funext hsame, List.flatMap_append, hqueue.1, ← List.flatMap_append, hline]
    · intro task hout hother
      rw [hsame]
      by_cases hin : task ∈ c.lock.queue
      · exact hqueue.2.2 task hin hout
      · exact hrest task hin hother
  · exact .stopped (hwriter.trans hgone) (hwritten ▸ hsofar)

/-! ### Punctual runs -/

/-- In a punctual run the pings **stand in line**, in the order in which they were put into the
queue. -/
theorem lined_of_run (hrun : (new role options keys).run moves = some c)
    (h : (new role options keys).punctually moves = true) :
    c.Lined ((new role options keys).enlisted moves) := by
  refine always_induction (P := fun moves x => x.Lined ((new role options keys).enlisted moves))
    (.atLock rfl fun task _ => ?_) ?_ hrun h
  · cases task <;> rfl
  · intro before c₁ move c₂ hbefore ih hpunctual hstep
    have hreach := (reachable_new role options keys).run hbefore
    rw [enlisted_concat hbefore hstep]
    obtain ⟨task, action, rest, c₃, script, rfl, hscript, heffect, rfl⟩ | hact :=
      (transition_of_step hstep).act_or
    · cases hp : c₁.enlisting? (.act task) with
      | none =>
          rw [Option.toList_none, List.append_nil]
          exact ih.advance hreach hscript heffect hp hpunctual (enlisted_eq_nil hbefore)
      | some p =>
          obtain ⟨_, hmoved, henlist⟩ := enlisting?_eq_some hp
          obtain rfl := Move.act.inj hmoved
          rw [hscript] at henlist
          cases henlist
          exact ih.enlist hreach hscript heffect hpunctual
    · have hnone : c₁.enlisting? move = none := by
        cases move with
        | act task => exact absurd rfl (hact task)
        | _ => rfl
      rw [hnone, Option.toList_none, List.append_nil]
      exact ih.idle hreach (transition_of_step hstep) hact hpunctual

end Connection

end WebSocket
