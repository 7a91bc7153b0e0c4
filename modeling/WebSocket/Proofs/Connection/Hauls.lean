import WebSocket.Proofs.Connection.Sending
import WebSocket.Proofs.Message.Fragments

/-!
# In which order messages are sent

Whoever takes the writer lock takes it with all frames of one message, of one ping or of one pong:
such a **haul** stays together. What was handed to the writer so far, with what the holder of the
lock still has to hand over, are the frames of all hauls, in the order in which the lock was taken
(`Connection.Hauling`).

## Main results

* `Connection.hauling_of_run`: what is sent is **one haul behind the other**, and the hauls are
  those of the sends, with pings and pongs among them.
-/

namespace WebSocket

/-- What a task takes the writer lock with: **frames**, and the message that they carry if an
operation sends one. -/
structure Haul where
  frames : List Frame
  message? : Option Message
  deriving DecidableEq, Repr

/-- The hauls of a connection that nobody ends: the fragments of a **message**, a ping or a pong. -/
inductive Haul.Regular : Haul → Prop
  | message {m : Message} {size : Nat} : Regular ⟨m.fragments size, some m⟩
  | ping {payload : Bytes} (hlength : payload.length ≤ Frame.maxControlPayload) :
      Regular ⟨[Frame.ping payload], none⟩
  | pong {payload : Bytes} (hlength : payload.length ≤ Frame.maxControlPayload) :
      Regular ⟨[Frame.pong payload], none⟩

/-- The haul of a **close frame**. -/
def Haul.closing (status : Option Close.Status) : Haul := ⟨[Frame.close status], none⟩

/-- The hauls of any connection: a message, a ping, a pong, or a close frame. -/
def Haul.Proper (haul : Haul) : Prop := haul.Regular ∨ ∃ status, haul = .closing status

/-- The frames that an action **will take the writer lock with**. -/
def Action.load? : Action → Option (List Frame)
  | .claimClose status _ => some [Frame.close status]
  | .lockWriter frames _ => some frames
  | _ => none

/-- The frames that a script **will take the writer lock with**. -/
def Script.loads (script : Script) : List (List Frame) := script.filterMap Action.load?

/-- What an operation takes the lock with is the haul **of its message**, of a ping, or of the close
frame that it was begun for. -/
theorem Haul.of_operation {size : Nat} {operation : Operation} {frames : List Frame}
    (h : frames ∈ (Script.ofOperation size operation).loads) :
    Haul.Regular ⟨frames, operation.message?⟩ ∨
      ∃ code reason, operation = .close code reason ∧
        frames = [Frame.close (some ⟨code, reason⟩)] := by
  cases operation with
  | send m =>
      obtain rfl := List.mem_singleton.mp h
      exact .inl .message
  | sendFragmented m size =>
      obtain rfl := List.mem_singleton.mp h
      exact .inl .message
  | ping payload =>
      simp only [Script.ofOperation] at h
      split at h
      · cases h
      · rename_i hlength
        obtain rfl := List.mem_singleton.mp h
        exact .inl (.ping (Nat.le_of_not_lt hlength))
  | close code reason =>
      simp only [Script.ofOperation] at h
      split at h
      · cases h
      · obtain rfl := List.mem_singleton.mp h
        exact .inr ⟨code, reason, rfl, rfl⟩
  | _ => cases h

/-- No frame of a regular haul is a **close frame**. -/
theorem Haul.Regular.isClose_eq_false {haul : Haul} (h : haul.Regular) {f : Frame}
    (hf : f ∈ haul.frames) : f.isClose = false := by
  cases h with
  | message => exact Message.isClose_of_mem_fragments hf
  | ping => obtain rfl := List.mem_singleton.mp hf; rfl
  | pong => obtain rfl := List.mem_singleton.mp hf; rfl

namespace Connection

variable {c c' c₁ : Connection} {task : TaskId} {action : Action} {rest script : Script}
  {move : Move} {moves past : List Move} {role : Role} {options : Options} {keys : Nat → Mask}
  {frames : List Frame}

/-! ### The ledger of hauls -/

/-- The operation that a number **stands for** behind some moves: the last one that began under
it. -/
def operation? (past : List Move) (id : Nat) : Option Operation :=
  past.foldl
    (fun last move => match move with
      | .start i operation => if i = id then some operation else last
      | _ => last)
    none

/-- The message that a task sends, behind some moves. -/
def message? (past : List Move) : TaskId → Option Message
  | .reader => none
  | .call id => (operation? past id).bind Operation.message?

/-- The haul with which a move **takes the writer lock**, behind some moves. -/
def haul? (past : List Move) (c : Connection) : Move → Option Haul
  | .act task => (c.taking? task).map fun frames => ⟨frames, message? past task⟩
  | _ => none

/-- The hauls of a run behind some moves. -/
def haulsFrom (past : List Move) (c : Connection) : List Move → List Haul
  | [] => []
  | move :: moves =>
    match c.step move with
    | none => []
    | some c' => (c.haul? past move).toList ++ c'.haulsFrom (past ++ [move]) moves

/-- **The hauls of a run**, in the order in which they took the writer lock. -/
def hauls (c : Connection) (moves : List Move) : List Haul := c.haulsFrom [] moves

/-- **The messages that are sent** in a run, in the order in which their sends took the writer
lock. -/
def sends (c : Connection) (moves : List Move) : List Message :=
  (c.hauls moves).filterMap Haul.message?

theorem haulsFrom_append {before after : List Move} (hrun : c.run before = some c₁) :
    c.haulsFrom past (before ++ after) =
      c.haulsFrom past before ++ c₁.haulsFrom (past ++ before) after := by
  induction before generalizing c past with
  | nil =>
      obtain rfl : c = c₁ := by simpa using hrun
      rw [List.append_nil]
      rfl
  | cons move before ih =>
      obtain ⟨c₂, hstep, hrest⟩ := run_cons_eq_some.mp hrun
      simp only [List.cons_append, haulsFrom, hstep, ih hrest, List.append_assoc,
        List.nil_append]

theorem hauls_concat {before : List Move} (hrun : c.run before = some c₁)
    (hstep : c₁.step move = some c') :
    c.hauls (before ++ [move]) = c.hauls before ++ (c₁.haul? before move).toList := by
  rw [hauls, haulsFrom_append hrun, haulsFrom, hstep]
  exact congrArg _ (List.append_nil _)

theorem flatMap_toList {haul : Option Haul} :
    haul.toList.flatMap Haul.frames = (haul.map Haul.frames).getD [] := by
  cases haul <;> simp

/-- The messages sent so far come **first** among those sent later. -/
theorem sends_isPrefix {before after : List Move} (hrun : c.run before = some c₁) :
    c.sends before <+: c.sends (before ++ after) := by
  rw [sends, sends, hauls, hauls, haulsFrom_append hrun, List.filterMap_append]
  exact List.prefix_append _ _

/-- A number stands for the operation that begins under it. -/
theorem operation?_start (past : List Move) (id : Nat) (operation : Operation) :
    operation? (past ++ [.start id operation]) id = some operation := by
  simp [operation?, List.foldl_append]

/-- Other moves do not change what a number stands for. -/
theorem operation?_concat {id : Nat} (past : List Move)
    (h : ∀ operation, move ≠ .start id operation) :
    operation? (past ++ [move]) id = operation? past id := by
  rw [operation?, List.foldl_append, List.foldl_cons, List.foldl_nil]
  cases move with
  | start i operation =>
      have hne : i ≠ id := by
        rintro rfl
        exact h operation rfl
      exact if_neg hne
  | _ => rfl

/-! ### Whose frames they are -/

/-- The frames that an operation will take the lock with are **those of the operation** that its
number stands for. -/
def Tied (past : List Move) (c : Connection) : Prop :=
  ∀ id, ∀ frames ∈ (c.script (.call id)).loads, ∃ operation, operation? past id = some operation ∧
    frames ∈ (Script.ofOperation c.options.fragmentSize operation).loads

theorem Negotiating.loads (h : Negotiating script) : script.loads = [] := by
  cases h <;> rfl

theorem mem_loads_recover {recovery : Recovery} {e : ConnectionError}
    (h : frames ∈ (Script.recover recovery e rest).loads) : frames ∈ rest.loads := by
  cases recovery with
  | ignore => exact h
  | _ => cases h

/-- An operation gets **no new frames** to write. -/
theorem Effect.mem_loads {id : Nat} (heffect : Effect c (.call id) action rest c₁ script)
    (h : c.Scripted) (hscript : c.script (.call id) = action :: rest)
    (hmem : frames ∈ script.loads) : frames ∈ Script.loads (action :: rest) := by
  have htail : frames ∈ rest.loads → frames ∈ Script.loads (action :: rest) := fun hrest => by
    obtain ⟨b, hb, hload⟩ := List.mem_filterMap.mp hrest
    exact List.mem_filterMap.mpr ⟨b, List.mem_cons_of_mem _ hb, hload⟩
  have hnever : script.loads = [] → frames ∈ Script.loads (action :: rest) := fun hnil => by
    rw [hnil] at hmem
    cases hmem
  have hnot := h.not_reacts hscript
  cases heffect with
  | lockInVain => exact htail (mem_loads_recover hmem)
  | feedInVain => exact htail (mem_loads_recover hmem)
  | failToMakeRoom => exact htail (mem_loads_recover hmem)
  | refuseFrame => exact htail (mem_loads_recover hmem)
  | flushInVain => exact htail (mem_loads_recover hmem)
  | failToFlush => exact htail (mem_loads_recover hmem)
  | judgeResponse => exact hnever (Negotiating.judgeResponse _ _).loads
  | judgeRequest => exact hnever (Negotiating.judgeRequest _ _).loads
  | missRequest => exact hnever (Negotiating.turnDown _).loads
  | _ => first
    | exact hmem
    | exact htail hmem
    | exact hnever rfl
    | cases hnot

/-- Every move keeps the frames with their operations. -/
theorem Tied.transition (h : Tied past c) (hscripted : c.Scripted)
    (hmove : Transition c move c') : Tied (past ++ [move]) c' := by
  intro id frames hmem
  rw [hmove.settings.2]
  have hkept : (∀ operation, move ≠ .start id operation) →
      frames ∈ (c.script (.call id)).loads →
        ∃ operation, operation? (past ++ [move]) id = some operation ∧
          frames ∈ (Script.ofOperation c.options.fragmentSize operation).loads := by
    intro hnot hbefore
    rw [operation?_concat past hnot]
    exact h id frames hbefore
  obtain ⟨task, action, rest, c₁, script, rfl, hscript, heffect, rfl⟩ | hact := hmove.act_or
  · refine hkept (fun _ => nofun) ?_
    obtain ⟨rfl, heq⟩ | ⟨-, heq⟩ | ⟨hreader, -⟩ := heffect.script_after hscript (.call id)
    · rw [heq] at hmem
      rw [hscript]
      exact heffect.mem_loads hscripted hscript hmem
    · rwa [heq] at hmem
    · cases hreader
  · obtain heq | heq | ⟨_, operation, rfl, hid, -, heq⟩ := hmove.script_of_ne_act hact (.call id)
    · rw [heq] at hmem
      refine hkept ?_ hmem
      rintro operation rfl
      cases hmove with
      | start hfresh =>
          rw [script_of_isFresh hfresh] at hmem
          cases hmem
    · rw [heq] at hmem
      cases hmem
    · obtain rfl := TaskId.call.inj hid
      rw [heq] at hmem
      exact ⟨operation, operation?_start _ _ _, hmem⟩

theorem tied_of_run (hrun : (new role options keys).run moves = some c) : Tied moves c := by
  refine run_induction (P := Tied) ?_ ?_ hrun
  · intro id frames hmem
    cases hmem
  intro before c₁ move c₂ hbefore ih hstep
  exact ih.transition ((reachable_new role options keys).run hbefore).scripted
    (transition_of_step hstep)

/-- While its end has not begun, nobody is about to write a **close frame**. -/
theorem isClosing_of_run (hrun : (new role options keys).run moves = some c)
    (hphase : c.phase.isEnding = false) (task : TaskId) : (c.script task).isClosing = false := by
  have hord := orderly_of_run hrun
  exact (hord.unclaimed (hord.calm hphase)).1 task

theorem taking?_eq_some (h : c.taking? task = some frames) :
    ∃ recovery rest, c.script task = .lockWriter frames recovery :: rest ∧
      (c.lock.acquire task).holder = some task := by
  unfold taking? at h
  split at h
  · rename_i hscript
    split at h
    · rename_i hheld
      obtain rfl := Option.some.inj h
      exact ⟨_, _, hscript, hheld⟩
    · cases h
  · cases h

/-- Whoever takes the lock takes it with **one message, one ping, one pong or one close frame**. -/
theorem Tied.proper (h : Tied past c) (hreach : Reachable c)
    (htaking : c.taking? task = some frames) : Haul.Proper ⟨frames, message? past task⟩ := by
  obtain ⟨recovery, rest, hscript, -⟩ := taking?_eq_some htaking
  cases task with
  | reader =>
      cases hreach.scripted.readerScript hscript with
      | ponging hlength hwrites =>
          cases hwrites
          exact .inl (.pong hlength)
      | closing hwrites =>
          cases hwrites
          exact .inr ⟨_, rfl⟩
  | call id =>
      obtain ⟨operation, hoperation, hmem⟩ :=
        h id frames (by rw [hscript]; exact List.mem_cons_self ..)
      rw [message?, hoperation]
      obtain hregular | ⟨code, reason, rfl, rfl⟩ := Haul.of_operation hmem
      · exact .inl hregular
      · exact .inr ⟨some ⟨code, reason⟩, rfl⟩

/-- **Every haul of a run** is one of these. -/
theorem proper_of_run (hrun : (new role options keys).run moves = some c) :
    ∀ haul ∈ (new role options keys).hauls moves, haul.Proper := by
  refine run_induction (P := fun moves _ => ∀ haul ∈ (new role options keys).hauls moves,
    haul.Proper) (fun _ => nofun) ?_ hrun
  intro before c₁ move c₂ hbefore ih hstep haul hmem
  rw [hauls_concat hbefore hstep] at hmem
  obtain hmem | hmem := List.mem_append.mp hmem
  · exact ih haul hmem
  · cases move with
    | act task =>
        obtain ⟨frames, htaking, rfl⟩ := Option.map_eq_some_iff.mp (Option.mem_toList.mp hmem)
        exact (tied_of_run hbefore).proper ((reachable_new role options keys).run hbefore) htaking
    | _ => cases hmem

/-! ### One haul behind the other -/

/-- **What was handed to the writer so far**, given the frames of all hauls: all of them, or all but
those that somebody is still handing over. -/
structure Hauling (frames : List Frame) (c : Connection) : Prop where
  idle : (∀ task, (c.script task).feeding? = none) → c.sentFrames = frames
  busy : ∀ {task more}, (c.script task).feeding? = some more → c.sentFrames ++ more = frames

/-- Frames were handed over **in order**. -/
theorem Hauling.isPrefix (h : Hauling frames c) : c.sentFrames <+: frames := by
  by_cases hidle : ∀ task, (c.script task).feeding? = none
  · exact h.idle hidle ▸ List.prefix_rfl
  · obtain ⟨task, hbusy⟩ := not_forall.mp hidle
    obtain ⟨more, hmore⟩ := Option.ne_none_iff_exists'.mp hbusy
    rw [← h.busy hmore]
    exact List.prefix_append _ _

/-- What leaves the frames and their tasks alone keeps the account. -/
theorem Hauling.keep (h : Hauling frames c)
    (hfeeding : ∀ task, (c'.script task).feeding? = (c.script task).feeding?)
    (hsent : c'.sent = c.sent) : Hauling frames c' := by
  have hframes := sentFrames_congr hsent
  refine ⟨fun hidle => ?_, fun {task more} hbusy => ?_⟩
  · rw [hframes]
    exact h.idle fun task => (hfeeding task).symm.trans (hidle task)
  · rw [hframes]
    exact h.busy ((hfeeding task).symm.trans hbusy)

/-- While **one task is at work**, what was handed over and what it still has are all frames. -/
theorem Hauling.of_busy {more : List Frame} (hself : (c.script task).feeding? = some more)
    (hothers : ∀ other, other ≠ task → (c.script other).feeding? = none)
    (hframes : c.sentFrames ++ more = frames) : Hauling frames c := by
  refine ⟨fun hidle => ?_, fun {other others} hbusy => ?_⟩
  · have hnone := hidle task
    rw [hself] at hnone
    cases hnone
  · by_cases hother : other = task
    · subst hother
      rw [hself] at hbusy
      rwa [← Option.some.inj hbusy]
    · rw [hothers other hother] at hbusy
      cases hbusy

/-- While **nobody is at work**, all frames were handed over. -/
theorem Hauling.of_idle (hidle : ∀ task, (c.script task).feeding? = none)
    (hframes : c.sentFrames = frames) : Hauling frames c := by
  refine ⟨fun _ => hframes, fun {task more} hbusy => ?_⟩
  rw [hidle task] at hbusy
  cases hbusy

/-- Only the holder of the lock **hands frames over**. -/
theorem Locked.feeding_unique (h : c.Locked) {more : List Frame}
    (hfeeding : (c.script task).feeding? = some more) {other : TaskId} (hne : other ≠ task) :
    (c.script other).feeding? = none := by
  by_contra hbusy
  obtain ⟨others, hothers⟩ := Option.ne_none_iff_exists'.mp hbusy
  have hholder := h.holds (Script.holdsLock_of_feeding? hfeeding)
  rw [h.holds (Script.holdsLock_of_feeding? hothers)] at hholder
  exact hne (Option.some.inj hholder)

/-- When a task takes the lock, **nobody hands frames over**. -/
theorem Locked.not_feeding (h : c.Locked) (htaking : c.taking? task = some frames)
    (other : TaskId) : (c.script other).feeding? = none := by
  obtain ⟨_, _, hscript, hheld⟩ := taking?_eq_some htaking
  by_contra hbusy
  obtain ⟨more, hmore⟩ := Option.ne_none_iff_exists'.mp hbusy
  have hholder := Lock.holder_acquire (h.holds (Script.holdsLock_of_feeding? hmore)) task
  obtain rfl := Option.some.inj (hholder.symm.trans hheld)
  rw [hscript] at hmore
  cases hmore

/-- **One action** hands over the next frame of the haul in front, or takes the lock with another
haul when nobody is at work. -/
theorem Hauling.sendStep (h : Hauling frames c) (hlocked : c.Locked)
    (hself : c'.script task = script) (hother : ∀ other, other ≠ task →
      (c'.script other).feeding? = (c.script other).feeding?) (hsent : c'.sent = c₁.sent)
    (hstep : SendStep c task script c₁) :
    Hauling (frames ++ (c.taking? task).getD []) c' := by
  have hsame : (c.script task).feeding? = script.feeding? →
      ∀ t, (c'.script t).feeding? = (c.script t).feeding? := by
    intro hfeeding t
    by_cases ht : t = task
    · subst ht
      rw [hself, hfeeding]
    · exact hother t ht
  have hothers : ∀ {more}, (c.script task).feeding? = some more →
      ∀ t, t ≠ task → (c'.script t).feeding? = none := by
    intro more hbusy t ht
    rw [hother t ht]
    exact hlocked.feeding_unique hbusy ht
  cases hstep with
  | rests htaking _ hfeeding hsent₁ =>
      rw [htaking, Option.getD_none, List.append_nil]
      exact h.keep (hsame hfeeding.symm) (hsent.trans hsent₁)
  | greets htaking _ hbefore hafter _ hsent₁ =>
      rw [htaking, Option.getD_none, List.append_nil]
      exact h.keep (hsame (hbefore.trans hafter.symm)) (hsent.trans hsent₁)
  | finishes htaking _ hbefore hafter hsent₁ =>
      have hall := h.busy hbefore
      rw [List.append_nil] at hall
      rw [htaking, Option.getD_none, List.append_nil]
      refine .of_idle (fun t => ?_) ((sentFrames_congr (hsent.trans hsent₁)).trans hall)
      by_cases ht : t = task
      · rw [ht, hself, hafter]
      · exact hothers hbefore t ht
  | @feeds f more _ htaking _ hbefore hafter _ hsent₁ =>
      rw [htaking, Option.getD_none, List.append_nil]
      refine .of_busy (hself ▸ hafter) (hothers hbefore) ?_
      rw [sentFrames_cons (hsent.trans hsent₁), List.append_assoc]
      exact h.busy hbefore
  | takes _ htaking _ hafter hsent₁ =>
      have hfree := hlocked.not_feeding htaking
      rw [htaking, Option.getD_some]
      refine .of_busy (hself ▸ hafter) (fun t ht => (hother t ht).trans (hfree t)) ?_
      rw [sentFrames_congr (hsent.trans hsent₁), h.idle hfree]

/-- A move that is no action takes nobody away **who works behind the lock**, if it gives nobody up
there. -/
theorem Transition.script_eq_of_holdsLock (hmove : Transition c move c')
    (hact : ∀ task, move ≠ .act task)
    (hgives : ∀ id, move = .giveUp id → (c.script (.call id)).holdsLock = false)
    (huncancelled : c.cancelled = false) (hholds : (c.script task).holdsLock = true) :
    c'.script task = c.script task := by
  have hbusy : c.script task ≠ [] := fun hempty => by
    rw [hempty] at hholds
    cases hholds
  obtain hkept | ⟨-, a, -, -, hanswer⟩ | ⟨id, rfl, rfl, -⟩ | ⟨-, hcancelled⟩ :=
    hmove.kept_of_ne_act hact hbusy
  · exact hkept
  · rw [hanswer] at hholds
    cases hholds
  · exact nomatch hholds.symm.trans (hgives id rfl)
  · exact nomatch hcancelled.symm.trans huncancelled

/-- So it leaves the frames alone that are being handed over. -/
theorem Transition.feeding?_of_ne_act (hmove : Transition c move c')
    (hact : ∀ task, move ≠ .act task)
    (hgives : ∀ id, move = .giveUp id → (c.script (.call id)).holdsLock = false)
    (huncancelled : c.cancelled = false) (task : TaskId) :
    (c'.script task).feeding? = (c.script task).feeding? := by
  by_cases hholds : (c.script task).holdsLock = true
  · rw [hmove.script_eq_of_holdsLock hact hgives huncancelled hholds]
  · by_cases hworks : (c'.script task).holdsLock = true
    · rw [hmove.script_of_holdsLock hact hworks]
    · rw [Script.feeding?_of_holdsLock (Bool.eq_false_iff.mpr hholds),
        Script.feeding?_of_holdsLock (Bool.eq_false_iff.mpr hworks)]

/-- Nobody who works behind the lock is given up while nobody ends the connection. -/
theorem holdsLock_of_isSteady (h : c.isSteady move = true) (id : Nat) (hmove : move = .giveUp id) :
    (c.script (.call id)).holdsLock = false := by
  subst hmove
  rw [isSteady, Bool.and_eq_true, Bool.not_eq_true', Bool.not_eq_true'] at h
  exact h.2

/-- An action leaves alone what **other tasks** are handing over. -/
theorem Effect.feeding?_of_ne (heffect : Effect c task action rest c₁ script) (hstaged : c.Staged)
    (hscript : c.script task = action :: rest) {other : TaskId} (hne : other ≠ task) :
    ((c₁.setScript task script).script other).feeding? = (c.script other).feeding? := by
  obtain ⟨heq, -⟩ | ⟨-, heq⟩ | ⟨rfl, -, heq, _, _, rfl⟩ := heffect.script_after hscript other
  · exact absurd heq hne
  · rw [heq]
  · have hstage := hstaged.negotiating hscript rfl
    have hidle := hstaged.idle (by rw [hstage]; exact nofun)
    rw [heq, script_reader, hidle.reader]
    rfl

/-- **Every move** keeps the account, with the haul that it begins. -/
theorem Hauling.transition (h : Hauling frames c) (hreach : Reachable c) (hsends : c.Sends)
    (huncancelled : c.cancelled = false) (hmove : Transition c move c')
    (hgives : ∀ id, move = .giveUp id → (c.script (.call id)).holdsLock = false) :
    Hauling (frames ++ (((c.haul? past move).map Haul.frames).getD [])) c' := by
  obtain ⟨task, action, rest, c₁, script, rfl, hscript, heffect, rfl⟩ | hact := hmove.act_or
  · have hhaul : ((c.haul? past (.act task)).map Haul.frames).getD [] =
        (c.taking? task).getD [] := by
      simp only [haul?]
      cases c.taking? task <;> rfl
    rw [hhaul]
    exact h.sendStep hreach.locked (heffect.script_self hscript)
      (fun other hne => heffect.feeding?_of_ne hreach.staged hscript hne) (setScript_sent ..)
      (hsends hscript heffect)
  · have hnone : c.haul? past move = none := by
      cases move with
      | act task => exact absurd rfl (hact task)
      | _ => rfl
    rw [hnone, Option.map_none, Option.getD_none, List.append_nil]
    exact h.keep (hmove.feeding?_of_ne_act hact hgives huncancelled)
      (hmove.sent_of_ne_act hact).2.2

/-- In a run in which nobody ends the connection, **every haul is regular**. -/
theorem regular_of_run (hrun : (new role options keys).run moves = some c)
    (hsteady : (new role options keys).steadily moves = true) (hphase : c.phase.isEnding = false)
    (hunbroken : c.transport.broken = false) :
    ∀ haul ∈ (new role options keys).hauls moves, haul.Regular := by
  refine steady_induction (P := fun moves _ => ∀ haul ∈ (new role options keys).hauls moves,
    haul.Regular) (fun _ => nofun) ?_ hrun hsteady hphase hunbroken
  intro before c₁ move c₂ hbefore hsteady₁ _ ih hstep _ _ haul hmem
  rw [hauls_concat hbefore hstep] at hmem
  obtain hmem | hmem := List.mem_append.mp hmem
  · exact ih haul hmem
  · cases move with
    | act task =>
        obtain ⟨frames, htaking, rfl⟩ := Option.map_eq_some_iff.mp (Option.mem_toList.mp hmem)
        obtain hregular | ⟨status, hclosing⟩ := (tied_of_run hbefore).proper
          ((reachable_new role options keys).run hbefore) htaking
        · exact hregular
        · obtain ⟨_, _, hscript, -⟩ := taking?_eq_some htaking
          have hcalm := isClosing_of_run hbefore hsteady₁.phase task
          rw [hscript, (Haul.mk.inj hclosing).1] at hcalm
          cases hcalm
    | _ => cases hmem

/-- **What was handed to the writer is one haul behind the other**, in the order in which the lock
was taken: each is one message, one ping or one pong, and only the last one may not be whole. -/
theorem hauling_of_run (hrun : (new role options keys).run moves = some c)
    (hsteady : (new role options keys).steadily moves = true) (hphase : c.phase.isEnding = false)
    (hunbroken : c.transport.broken = false) :
    (∀ haul ∈ (new role options keys).hauls moves, haul.Regular) ∧
      Hauling (((new role options keys).hauls moves).flatMap Haul.frames) c := by
  refine ⟨regular_of_run hrun hsteady hphase hunbroken, ?_⟩
  refine steady_induction (P := fun moves x =>
    Hauling (((new role options keys).hauls moves).flatMap Haul.frames) x) ?_ ?_ hrun hsteady
      hphase hunbroken
  · refine .of_idle (fun task => ?_) rfl
    cases task <;> rfl
  · intro before c₁ move c₂ hbefore hsteady₁ hintact h hstep hmoves _
    have hreach := (reachable_new role options keys).run hbefore
    have hkept : Hauling (((new role options keys).hauls before).flatMap Haul.frames ++
        ((c₁.haul? before move).map Haul.frames).getD []) c₂ :=
      h.transition hreach (hsteady₁.sends hreach hintact) hsteady₁.uncancelled
        (transition_of_step hstep) (holdsLock_of_isSteady hmoves)
    rw [hauls_concat hbefore hstep, List.flatMap_append, flatMap_toList]
    exact hkept

end Connection

end WebSocket
