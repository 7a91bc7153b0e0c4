import WebSocket.Proofs.Connection.Stages

/-!
# Who holds the writer lock

A task hands frames to the writer only while it holds the lock, and only tasks that ask for the lock
or hold it stand in its queue. So what an action does at the lock is told by what its task was about
to do and by what it is about to do now.

## Main results

* `Connection.Effect.lockChange`: what an action does to the lock.
* `Connection.Reachable.locked`: the queue and the scripts of all tasks agree.
-/

namespace WebSocket

/-! ### What scripts do at the lock -/

/-- The actions that **ask** for the writer lock. -/
def Action.asksLock : Action → Bool
  | .lockWriter .. | .takeWriter => true
  | _ => false

/-- The actions of a task that **holds** the writer lock. -/
def Action.holdsLock : Action → Bool
  | .feed .. | .flush _ => true
  | _ => false

/-- No operation begins at the lock. -/
theorem Action.lockless_of_isOpening {action : Action} (h : action.isOpening = true) :
    action.asksLock = false ∧ action.holdsLock = false := by
  cases action <;> first | exact ⟨rfl, rfl⟩ | cases h

namespace Script

/-- Whether a task asks for the writer lock next. -/
def asksLock : Script → Bool
  | [] => false
  | action :: _ => action.asksLock

/-- Whether a task is at work behind the writer lock. -/
def holdsLock : Script → Bool
  | [] => false
  | action :: _ => action.holdsLock

theorem holdsLock_of_asksLock {script : Script} (h : script.asksLock = true) :
    script.holdsLock = false := by
  cases script with
  | nil => rfl
  | cons action more => cases action <;> first | rfl | cases h

end Script

namespace Connection

variable {c c' c₁ : Connection} {task : TaskId} {action : Action} {rest script : Script}
  {move : Move}

/-- Whoever works behind the lock does so **first of all** that is left to do. -/
theorem Scripted.tail_not_holdsLock (h : c.Scripted) (hscript : c.script task = action :: rest) :
    ∀ b ∈ rest, b.holdsLock = false := by
  cases task with
  | reader => cases h.readerScript hscript <;> simp [Action.holdsLock]
  | call id =>
      obtain ⟨_, claim, -, -, hcall⟩ := h.callScript hscript
      cases hcall with
      | ordinary hordinary => cases hordinary <;> simp [Action.holdsLock]
      | negotiating hnegotiating => cases hnegotiating <;> simp
      | _ => simp

/-- What an action does to the **writer lock**, by whether the task asked for it or held it before
and by whether it holds it afterwards. -/
inductive LockChange (task : TaskId) (l : Lock) (action : Action) (script : Script) : Lock → Prop
  | unconcerned (hasks : action.asksLock = false) (hholds : action.holdsLock = false)
      (hscript : script.holdsLock = false) : LockChange task l action script l
  | queued (hasks : action.asksLock = true) (hheld : (l.acquire task).holder ≠ some task)
      (hscript : script.asksLock = true) : LockChange task l action script (l.acquire task)
  | acquired (hasks : action.asksLock = true) (hheld : (l.acquire task).holder = some task)
      (hscript : script.holdsLock = true) : LockChange task l action script (l.acquire task)
  | passed (hasks : action.asksLock = true) (hheld : (l.acquire task).holder = some task)
      (hscript : script.holdsLock = false) :
      LockChange task l action script (l.acquire task).release
  | kept (hholds : action.holdsLock = true) (hscript : script.holdsLock = true) :
      LockChange task l action script l
  | released (hholds : action.holdsLock = true) (hscript : script.holdsLock = false) :
      LockChange task l action script l.release

theorem holdsLock_of_forall (h : ∀ b ∈ script, b.holdsLock = false) :
    Script.holdsLock script = false := by
  cases script with
  | nil => rfl
  | cons b more => exact h b (List.mem_cons_self ..)

/-- A task that could not write what it had to is done with the lock. -/
theorem holdsLock_recover (hrest : Script.holdsLock rest = false) (recovery : Recovery)
    (e : ConnectionError) : (Script.recover recovery e rest).holdsLock = false := by
  cases recovery with
  | ignore => exact hrest
  | _ => rfl

theorem holdsLock_ofAssembled (assembled : Except Fault (Option Assembled)) (more : Script) :
    Script.holdsLock (Script.ofAssembled assembled ++ more) = false := by
  obtain ⟨action, rest, heq, hreacts⟩ := ofAssembled_head assembled more
  rw [heq]
  cases action <;> first | rfl | cases hreacts

/-- **What an action does** to the writer lock. -/
theorem Effect.lockChange (heffect : Effect c task action rest c₁ script)
    (h : c.Scripted) (hscript : c.script task = action :: rest) :
    LockChange task c.lock action script c₁.lock := by
  have hrest := holdsLock_of_forall (h.tail_not_holdsLock hscript)
  by_cases hnegotiates : action.negotiates = true
  · obtain ⟨_, _, -, -, -, hnegotiating⟩ := h.negotiating hscript hnegotiates
    have hlock : c₁.lock = c.lock := by
      cases heffect <;> first | rfl | cases hnegotiates
    rw [hlock]
    refine .unconcerned ?_ ?_ ?_
    · cases hnegotiating <;> rfl
    · cases hnegotiating <;> rfl
    · obtain hafter | ⟨a, rfl⟩ := hnegotiating.next heffect
      · cases hafter <;> rfl
      · rfl
  · cases heffect with
    | queueUp hheld => exact .queued rfl hheld rfl
    | startWriting hheld => exact .acquired rfl hheld rfl
    | lockInVain hheld => exact .passed rfl hheld (holdsLock_recover hrest _ _)
    | fedAll => exact .kept rfl rfl
    | feedInVain => exact .released rfl (holdsLock_recover hrest _ _)
    | makeRoom => exact .kept rfl rfl
    | failToMakeRoom => exact .released rfl rfl
    | refuseFrame => exact .released rfl (holdsLock_recover hrest _ _)
    | feed => exact .kept rfl rfl
    | flushInVain => exact .released rfl (holdsLock_recover hrest _ _)
    | flush => exact .released rfl hrest
    | failToFlush => exact .released rfl rfl
    | queueUpToTake hheld => exact .queued rfl hheld rfl
    | takeNothing hheld => exact .passed rfl hheld hrest
    | takeWriter hheld => exact .passed rfl hheld rfl
    | readFrame => exact .unconcerned rfl rfl (holdsLock_ofAssembled _ _)
    | _ => first
        | exact .unconcerned rfl rfl hrest
        | exact .unconcerned rfl rfl rfl
        | exact absurd rfl hnegotiates

/-! ### The queue and the scripts -/

/-- The queue at the lock **agrees with the scripts**: whoever stands there asks for the lock or
works behind it, and whoever works behind it holds it. -/
structure Locked (c : Connection) : Prop where
  sound : c.lock.Sound
  queued : ∀ task ∈ c.lock.queue,
    (c.script task).asksLock = true ∨ (c.script task).holdsLock = true
  holds : ∀ {task}, (c.script task).holdsLock = true → c.lock.holder = some task

/-- A task that neither asks for the lock nor works behind it **is not at the lock**. -/
theorem Locked.not_mem (h : c.Locked) (hscript : c.script task = action :: rest)
    (hasks : action.asksLock = false) (hholds : action.holdsLock = false) :
    task ∉ c.lock.queue := by
  intro hmem
  have hqueued := h.queued task hmem
  rw [hscript] at hqueued
  obtain hq | hq := hqueued
  · exact nomatch hasks.symm.trans hq
  · exact nomatch hholds.symm.trans hq

/-- What **a change at the lock** does to the queue: only the task itself comes or goes, and it
stands there afterwards only to ask for the lock or to work behind it. -/
theorem LockChange.queue {l l' : Lock} (hchange : LockChange task l action script l')
    (hsound : l.Sound) (hnot : action.asksLock = false → action.holdsLock = false →
      task ∉ l.queue) (hholds : action.holdsLock = true → l.holder = some task) :
    l'.Sound ∧ (∀ other ∈ l'.queue, other ≠ task → other ∈ l.queue) ∧
      (task ∈ l'.queue → Script.asksLock script = true ∨ Script.holdsLock script = true) := by
  have hacquire : ∀ other ∈ (l.acquire task).queue, other ≠ task → other ∈ l.queue := by
    intro other hmem hne
    by_cases hin : task ∈ l.queue
    · rwa [Lock.acquire_of_mem hsound hin] at hmem
    · rw [Lock.queue_acquire hsound hin] at hmem
      exact (List.mem_append.mp hmem).resolve_right fun h => hne (List.mem_singleton.mp h)
  have hrelease : ∀ {m : Lock}, m.Sound → m.holder = some task →
      m.release.Sound ∧ (∀ other ∈ m.release.queue, other ∈ m.queue) ∧ task ∉ m.release.queue := by
    intro m hm hheld
    refine ⟨hm.release hheld, ?_, ?_⟩
    · rw [Lock.queue_release m hheld]
      exact fun other hmem => List.mem_of_mem_tail hmem
    · have hnodup := hm.nodup
      rw [Lock.queue_of_held hheld] at hnodup
      rw [Lock.queue_release m hheld, Lock.queue_of_held hheld]
      exact (List.nodup_cons.mp hnodup).1
  cases hchange with
  | unconcerned hasks hholds' =>
      exact ⟨hsound, fun _ hmem _ => hmem, fun hmem => absurd hmem (hnot hasks hholds')⟩
  | queued _ _ hscript => exact ⟨hsound.acquire task, hacquire, fun _ => Or.inl hscript⟩
  | acquired _ _ hscript => exact ⟨hsound.acquire task, hacquire, fun _ => Or.inr hscript⟩
  | passed _ hheld =>
      obtain ⟨hs, hmem, hgone⟩ := hrelease (hsound.acquire task) hheld
      exact ⟨hs, fun other ho hne => hacquire other (hmem other ho) hne, fun h => absurd h hgone⟩
  | kept _ hscript => exact ⟨hsound, fun _ hmem _ => hmem, fun _ => Or.inr hscript⟩
  | released hholds' =>
      obtain ⟨hs, hmem, hgone⟩ := hrelease hsound (hholds hholds')
      exact ⟨hs, fun other ho _ => hmem other ho, fun h => absurd h hgone⟩

/-- Who holds the lock and is another task **keeps it**. -/
theorem LockChange.holder {l l' : Lock} (hchange : LockChange task l action script l')
    (hholds : action.holdsLock = true → l.holder = some task) {other : TaskId} (hne : other ≠ task)
    (hheld : l.holder = some other) : l'.holder = some other := by
  have hconflict : ∀ {m : Lock}, m.holder = some other → m.holder ≠ some task := by
    intro m hm htask
    rw [hm] at htask
    exact hne (Option.some.inj htask)
  cases hchange with
  | unconcerned => exact hheld
  | queued => exact Lock.holder_acquire hheld task
  | acquired => exact Lock.holder_acquire hheld task
  | passed _ htask => exact absurd htask (hconflict (Lock.holder_acquire hheld task))
  | kept => exact hheld
  | released h => exact absurd (hholds h) (hconflict hheld)

/-- A change at the lock lets **nobody overtake**: in front of another task stand at most those who
stood there before. -/
theorem LockChange.front {l l' : Lock} (hchange : LockChange task l action script l')
    (hsound : l.Sound) (hholds : action.holdsLock = true → l.holder = some task) {other : TaskId}
    (hne : other ≠ task) {front back : List TaskId} (hqueue : l.queue = front ++ other :: back) :
    ∃ front' back', l'.queue = front' ++ other :: back' ∧ ∀ u ∈ front', u ∈ front := by
  have hacquire : ∃ back', (l.acquire task).queue = front ++ other :: back' := by
    by_cases hin : task ∈ l.queue
    · exact ⟨back, by rw [Lock.acquire_of_mem hsound hin, hqueue]⟩
    · refine ⟨back ++ [task], ?_⟩
      rw [Lock.queue_acquire hsound hin, hqueue, List.append_assoc, List.cons_append]
  have hrelease : ∀ {m : Lock} {back' : List TaskId}, m.holder = some task →
      m.queue = front ++ other :: back' →
        ∃ front' back', m.release.queue = front' ++ other :: back' ∧ ∀ u ∈ front', u ∈ front := by
    intro m back' hheld hm
    rw [Lock.queue_release m hheld, hm]
    cases front with
    | nil =>
        rw [Lock.queue_of_held hheld] at hm
        exact absurd (List.cons.inj hm).1.symm hne
    | cons first front => exact ⟨front, back', rfl, fun u hu => List.mem_cons_of_mem first hu⟩
  cases hchange with
  | unconcerned => exact ⟨front, back, hqueue, fun _ hu => hu⟩
  | queued =>
      obtain ⟨back', h⟩ := hacquire
      exact ⟨front, back', h, fun _ hu => hu⟩
  | acquired =>
      obtain ⟨back', h⟩ := hacquire
      exact ⟨front, back', h, fun _ hu => hu⟩
  | passed _ hheld =>
      obtain ⟨back', h⟩ := hacquire
      exact hrelease hheld h
  | kept => exact ⟨front, back, hqueue, fun _ hu => hu⟩
  | released h => exact hrelease (hholds h) hqueue

/-- Who works behind the lock after an action of its own **holds it**. -/
theorem LockChange.holder_self {l l' : Lock} (hchange : LockChange task l action script l')
    (hholds : action.holdsLock = true → l.holder = some task)
    (hscript : Script.holdsLock script = true) : l'.holder = some task := by
  cases hchange with
  | unconcerned _ _ h => rw [h] at hscript; cases hscript
  | queued _ _ h => rw [Script.holdsLock_of_asksLock h] at hscript; cases hscript
  | acquired _ hheld => exact hheld
  | passed _ _ h => rw [h] at hscript; cases hscript
  | kept h => exact hholds h
  | released _ h => rw [h] at hscript; cases hscript

/-- An action keeps the queue and the scripts in agreement. -/
theorem Locked.effect (hlocked : c.Locked) (h : c.Scripted) (hstaged : c.Staged)
    (hscript : c.script task = action :: rest) (heffect : Effect c task action rest c₁ script) :
    (c₁.setScript task script).Locked := by
  have hself := heffect.script_self hscript
  -- a reader that begins only now is not at the lock, at which nobody stands yet
  have hother : ∀ {other}, other ≠ task →
      (c₁.setScript task script).script other = c.script other ∨
        ((c₁.setScript task script).script other = [.readFrame] ∧ c.lock = {}) := by
    intro other hne
    obtain ⟨heq, -⟩ | ⟨-, heq⟩ | ⟨-, -, heq, _, _, rfl⟩ := heffect.script_after hscript other
    · exact absurd heq hne
    · exact Or.inl heq
    · refine Or.inr ⟨heq, (hstaged.idle ?_).lock⟩
      rw [hstaged.negotiating hscript rfl]
      exact nofun
  have hholds : action.holdsLock = true → c.lock.holder = some task := by
    intro haction
    refine hlocked.holds ?_
    rw [hscript]
    exact haction
  have hchange := heffect.lockChange h hscript
  obtain ⟨hsound, hqueue, htask⟩ := hchange.queue hlocked.sound (hlocked.not_mem hscript) hholds
  refine ⟨?_, ?_, ?_⟩
  · rwa [setScript_lock]
  · intro other hmem
    rw [setScript_lock] at hmem
    by_cases hne : other = task
    · subst hne
      rw [hself]
      exact htask hmem
    · have hbefore := hqueue other hmem hne
      obtain heq | ⟨-, hfree⟩ := hother hne
      · rw [heq]
        exact hlocked.queued other hbefore
      · rw [hfree] at hbefore
        cases hbefore
  · intro other hworks
    rw [setScript_lock]
    by_cases hne : other = task
    · subst hne
      rw [hself] at hworks
      exact hchange.holder_self hholds hworks
    · obtain heq | ⟨heq, -⟩ := hother hne
      · rw [heq] at hworks
        exact hchange.holder hholds hne (hlocked.holds hworks)
      · rw [heq] at hworks
        cases hworks

/-- A task behind the lock went on as before, if a move is no action. -/
theorem Transition.script_of_holdsLock (hmove : Transition c move c')
    (hact : ∀ task, move ≠ .act task) (hworks : (c'.script task).holdsLock = true) :
    c'.script task = c.script task := by
  cases hscript : c'.script task with
  | nil => rw [hscript] at hworks; cases hworks
  | cons action rest =>
      obtain hbefore | hopening := hmove.opening_of_ne_act hact hscript
      · exact hbefore.symm
      · rw [hscript, Script.holdsLock, (Action.lockless_of_isOpening hopening).2] at hworks
        cases hworks

/-- A move that is no action **takes a task away** only when the task has ended, when it is given
up, or when it is the reader and was told to stop. -/
theorem Transition.kept_of_ne_act (hmove : Transition c move c') (hact : ∀ task, move ≠ .act task)
    (hbusy : c.script task ≠ []) : c'.script task = c.script task ∨
      (∃ id a, task = .call id ∧ move = .collect id ∧ c.script task = [.answer a]) ∨
        (∃ id, task = .call id ∧ move = .giveUp id ∧ c.isSuspended (.call id) = true) ∨
          (task = .reader ∧ c.cancelled = true) := by
  cases hmove with
  | act => exact absurd rfl (hact _)
  | @start id operation hfresh =>
      cases task with
      | reader => exact .inl rfl
      | call j =>
          refine .inl ?_
          rw [script_of_append ⟨id, operation.claim, _⟩ rfl (ids_of_isFresh hfresh) j, if_neg]
          rintro rfl
          exact hbusy (script_of_isFresh hfresh)
  | @collect id a hanswer =>
      cases task with
      | reader => exact .inl rfl
      | call j =>
          by_cases heq : j = id
          · exact .inr (.inl ⟨id, a, heq ▸ rfl, rfl, heq ▸ hanswer⟩)
          · exact .inl ((script_of_filter rfl j).trans (if_neg heq))
  | @giveUp id hsuspended =>
      cases task with
      | reader => exact .inl rfl
      | call j =>
          by_cases heq : j = id
          · exact .inr (.inr (.inl ⟨id, heq ▸ rfl, rfl, hsuspended⟩))
          · exact .inl ((script_of_filter rfl j).trans (if_neg heq))
  | stopReader hcancelled =>
      cases task with
      | reader => exact .inr (.inr (.inr ⟨rfl, hcancelled⟩))
      | call j => exact .inl rfl
  | _ => cases task <;> exact .inl rfl

/-- An operation **stands where it stood** while others move. -/
theorem Transition.script_of_others {id : Nat} (hmove : Transition c move c')
    (hact : move ≠ .act (.call id)) (hgiveUp : move ≠ .giveUp id) (hcollect : move ≠ .collect id)
    (hbusy : c.script (.call id) ≠ []) : c'.script (.call id) = c.script (.call id) := by
  obtain ⟨task, _, _, _, _, rfl, hscript, heffect, rfl⟩ | hidle := hmove.act_or
  · obtain ⟨rfl, -⟩ | ⟨-, hsame⟩ | ⟨hreader, -⟩ := heffect.script_after hscript (.call id)
    · exact absurd rfl hact
    · exact hsame
    · cases hreader
  · obtain hkept | ⟨j, _, hj, hmoved, -⟩ | ⟨j, hj, hmoved, -⟩ | ⟨hreader, -⟩ :=
      hmove.kept_of_ne_act hidle hbusy
    · exact hkept
    · cases hj
      exact absurd hmoved hcollect
    · cases hj
      exact absurd hmoved hgiveUp
    · cases hreader

/-- A move that is no action and leaves the lock alone keeps the agreement. -/
theorem Locked.of_lock (hlocked : c.Locked) (hmove : Transition c move c')
    (hact : ∀ task, move ≠ .act task) (hlock : c'.lock = c.lock)
    (hscripts : ∀ task ∈ c.lock.queue, c'.script task = c.script task) : c'.Locked := by
  refine ⟨hlock ▸ hlocked.sound, ?_, ?_⟩
  · intro task hmem
    rw [hlock] at hmem
    rw [hscripts task hmem]
    exact hlocked.queued task hmem
  · intro task hworks
    rw [hmove.script_of_holdsLock hact hworks] at hworks
    rw [hlock]
    exact hlocked.holds hworks

/-- A task that goes away gives up its place, and the agreement is kept. -/
theorem Locked.leave (hlocked : c.Locked) (hmove : Transition c move c')
    (hact : ∀ task, move ≠ .act task) (hlock : c'.lock = c.lock.leave task)
    (hgone : c'.script task = []) (hscripts : ∀ other, other ≠ task →
      c'.script other = c.script other) : c'.Locked := by
  refine ⟨hlock ▸ hlocked.sound.leave task, ?_, ?_⟩
  · intro other hmem
    rw [hlock, Lock.queue_leave hlocked.sound] at hmem
    obtain ⟨hne, hbefore⟩ := hlocked.sound.nodup.mem_erase_iff.mp hmem
    rw [hscripts other hne]
    exact hlocked.queued other hbefore
  · intro other hworks
    have hne : other ≠ task := by
      rintro rfl
      rw [hgone] at hworks
      cases hworks
    rw [hmove.script_of_holdsLock hact hworks] at hworks
    have hheld := hlocked.holds hworks
    rw [hlock, Lock.leave, if_neg fun h => hne (Option.some.inj (hheld.symm.trans h))]
    exact hheld

/-- A move that is no action leaves the lock alone, or lets **a task go away** from it. -/
theorem Transition.lock_of_ne_act (hmove : Transition c move c') (hact : ∀ task, move ≠ .act task) :
    c'.lock = c.lock ∨ ∃ task, c'.script task = [] ∧ c'.lock = c.lock.leave task := by
  cases hmove with
  | act => exact absurd rfl (hact _)
  | @giveUp id hsuspended =>
      refine Or.inr ⟨.call id, ?_, rfl⟩
      rw [script_of_filter rfl id, if_pos rfl]
  | stopReader => exact Or.inr ⟨.reader, rfl, rfl⟩
  | _ => exact Or.inl rfl

/-- A move keeps the queue and the scripts in agreement. -/
theorem Locked.transition (hlocked : c.Locked) (h : c.Scripted) (hstaged : c.Staged)
    (hmove : Transition c move c') : c'.Locked := by
  have hmove' := hmove
  cases hmove with
  | act hscript heffect => exact hlocked.effect h hstaged hscript heffect
  | @start id operation hfresh =>
      refine hlocked.of_lock hmove' (fun _ => nofun) rfl fun task hmem => ?_
      cases task with
      | reader => rfl
      | call j =>
          rw [script_of_append ⟨id, operation.claim, _⟩ rfl (ids_of_isFresh hfresh) j,
            if_neg]
          rintro rfl
          have hqueued := hlocked.queued _ hmem
          rw [script_of_isFresh hfresh] at hqueued
          obtain hq | hq := hqueued <;> cases hq
  | @collect id a hanswer =>
      refine hlocked.of_lock hmove' (fun _ => nofun) rfl fun task hmem => ?_
      cases task with
      | reader => rfl
      | call j =>
          rw [script_of_filter rfl j, if_neg]
          rintro rfl
          exact hlocked.not_mem hanswer rfl rfl hmem
  | @giveUp id hsuspended =>
      refine hlocked.leave hmove' (fun _ => nofun) rfl ?_ ?_
      · rw [script_of_filter rfl id, if_pos rfl]
      · intro other hne
        cases other with
        | reader => rfl
        | call j => rw [script_of_filter rfl j, if_neg fun heq => hne (congrArg _ heq)]
  | stopReader =>
      refine hlocked.leave hmove' (fun _ => nofun) rfl rfl ?_
      intro other hne
      cases other with
      | reader => exact absurd rfl hne
      | call j => rfl
  | _ =>
      refine hlocked.of_lock hmove' (fun _ => nofun) rfl fun task _ => ?_
      cases task <;> rfl

/-- In a connection that a run leads to, the queue at the lock **agrees with the scripts**. -/
theorem Reachable.locked (h : Reachable c) : c.Locked := by
  refine h.invariant ?_ fun hreach hlocked => hlocked.transition hreach.scripted hreach.staged
  intro role options keys
  refine ⟨⟨fun _ => rfl, List.nodup_nil⟩, nofun, ?_⟩
  intro task hworks
  cases task <;> cases hworks

end Connection

end WebSocket
