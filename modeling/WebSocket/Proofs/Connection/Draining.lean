import Mathlib.Data.List.Infix
import WebSocket.Proofs.Connection.Endings
import WebSocket.Proofs.Connection.Quiet
import WebSocket.Proofs.Connection.Settling
import WebSocket.Proofs.Connection.Unhindered

/-!
# Draining

Whoever drains a connection throws its events away until there will be no more, or until the time is
over. How that ends depends only on when the reader ends. When it has ended and the queue is empty,
the answer is the status of the farewell that was thrown away, if there was one and it carried a
status. When the time is over first, the connection is torn down and the answer is a timeout. While
neither is the case, the reader waits for bytes from the peer (`Connection.drained_of_run`).

In all these cases the connection is closed when the answer is there, and where writing does not
block not one byte is written any more.

## Main results

* `Connection.Drained`: **the answers** of a drain, and when each of them is given.
* `Connection.drained_of_run`: what a drain **does and answers**, from its first action on.
-/

namespace WebSocket

namespace Connection

variable {c c' c₀ c₁ : Connection} {task : TaskId} {action : Action} {rest script : Script}
  {move : Move} {moves past before : List Move} {id deadline : Nat} {a : Answer}
  {status : Option Close.Status} {role : Role} {options : Options} {keys : Nat → Mask}

/-! ### Time and the reader -/

/-- Whether time **does not run past** the deadline of a drain in progress: when the time is over,
the drain acts before more time passes. -/
def isTimely (c : Connection) : Move → Bool
  | .tick milliseconds => c.calls.all fun call =>
    match call.script with
    | .drainEvents deadline _ :: _ => decide (c.now + milliseconds ≤ deadline)
    | _ => true
  | _ => true

/-- A drain in progress does not run past its deadline in a timely move. -/
theorem now_le_of_isTimely (hmove : Transition c move c') (htimely : c.isTimely move = true)
    (hscript : c.script (.call id) = .drainEvents deadline status :: rest)
    (hle : c.now ≤ deadline) : c'.now ≤ deadline := by
  cases hmove with
  | act _ heffect => rwa [setScript_now, heffect.now_eq]
  | @tick milliseconds =>
      obtain ⟨call, hcall, heq⟩ := call?_of_script hscript
      rw [isTimely, List.all_eq_true] at htimely
      have hone := htimely call (mem_of_call? hcall)
      rw [heq] at hone
      exact of_decide_eq_true hone
  | _ => exact hle

/-- When a drain that begins now **gives up**. -/
def drainDeadline (c : Connection) : Nat := c.now + c.options.closeTimeout

/-- In the stream of frames a reader that has ended **does not come back**. -/
theorem reader_eq_nil_of_step (hreach : Reachable c) (hrunning : c.stage = .running)
    (hended : c.reader = []) (hmove : Transition c move c') : c'.reader = [] := by
  cases hmove with
  | @act task action rest c₁ script hscript heffect =>
      cases task with
      | reader => exact nomatch hended.symm.trans hscript
      | call id =>
          rw [setScript_reader_of_call]
          obtain heq | ⟨_, _, rfl, -⟩ := heffect.reader_eq
          · exact heq.trans hended
          · exact nomatch hrunning.symm.trans (hreach.staged.negotiating hscript rfl)
  | stopReader => rfl
  | _ => exact hended

/-- The stream of frames **goes on** in a run. -/
theorem running_of_run (hreach : Reachable c) (hrunning : c.stage = .running)
    (hrun : c.run moves = some c') : c'.stage = .running :=
  run_invariant (P := fun x => x.stage = .running)
    (fun hreach hrunning hmove => hreach.staged.running hrunning hmove) hreach hrunning hrun

/-- So it **has not ended before** if it has not ended now. -/
theorem reader_ne_nil_of_run (hreach : Reachable c) (hrunning : c.stage = .running)
    (hrun : c.run moves = some c') (hbusy : c'.reader ≠ []) : c.reader ≠ [] := by
  intro hended
  refine hbusy (run_invariant (P := fun x => x.stage = .running ∧ x.reader = []) ?_ hreach
    ⟨hrunning, hended⟩ hrun).2
  rintro x move x' hreach ⟨hrunning, hended⟩ hmove
  exact ⟨hreach.staged.running hrunning hmove, reader_eq_nil_of_step hreach hrunning hended hmove⟩

/-- Whether the **reader has ended** in the course of some moves, at a time of a kind. -/
def ReaderEnds (c₀ : Connection) (past : List Move) (when : Nat → Prop) : Prop :=
  ∃ earlier y, earlier <+: past ∧ c₀.run earlier = some y ∧ y.reader = [] ∧ when y.now

/-! ### What is thrown away -/

/-- **What a drain has thrown away** since it began: first what waited to be received then, next
what was offered since. The rest is still to be thrown away. -/
def Discarding (c₀ : Connection) (status : Option Close.Status) (c : Connection) : Prop :=
  ∃ new gone, c.offered = new ++ c₀.offered ∧ gone ++ c.events = c₀.events ++ new.reverse ∧
    status = farewellStatus gone

/-- While an operation needs the connection for itself, the others are **aside**: they look after
pings or have ended. -/
theorem Scripted.aside (h : c.Scripted) {call : Call} (hcall : c.call? id = some call)
    (hwhole : call.claim = .whole) {j : Nat} (hne : j ≠ id)
    (hscript : c.script (.call j) = action :: rest) :
    OrdinaryScript .nothing (action :: rest) := by
  obtain ⟨other, claim, hother, rfl, hshape⟩ := h.callScript hscript
  have hnothing : other.claim = .nothing := by
    by_contra hclaim
    exact hne (h.eq_of_whole hcall hother hwhole hclaim).symm
  rw [hnothing] at hshape
  cases hshape with
  | ordinary hordinary => exact hordinary

/-- A drain **needs the connection for itself**. -/
theorem Scripted.whole_of_drain (h : c.Scripted)
    (hscript : c.script (.call id) = .drainEvents deadline status :: rest) :
    ∃ call, c.call? id = some call ∧ call.claim = .whole ∧ rest = [] := by
  obtain ⟨call, claim, hcall, rfl, hshape⟩ := h.callScript hscript
  refine ⟨call, hcall, ?_⟩
  generalize call.claim = claim at hshape
  cases hshape with
  | ordinary hordinary =>
      cases hordinary with
      | sending hw => cases hw
      | pinging _ hw => cases hw
      | closing _ hw => cases hw
      | draining => exact ⟨rfl, rfl⟩
  | negotiating hnegotiating => cases hnegotiating

/-- While somebody drains, **nobody else** takes events: others at most offer one. -/
theorem Discarding.others (h : Discarding c₀ status c) (hreach : Reachable c)
    (hscript : c.script (.call id) = .drainEvents deadline status :: rest)
    (hother : move ≠ .act (.call id)) (hmove : Transition c move c') :
    Discarding c₀ status c' := by
  obtain ⟨new, gone, hoffered, hevents, hstatus⟩ := h
  obtain ⟨call, hcall, hwhole, -⟩ := hreach.scripted.whole_of_drain hscript
  have hkeep : c'.offered = c.offered → c'.events = c.events → Discarding c₀ status c' :=
    fun hoffered' hevents' => ⟨new, gone, hoffered'.trans hoffered, by rw [hevents', hevents],
      hstatus⟩
  obtain ⟨task, action, rest, c₁, script, rfl, hacts, heffect, rfl⟩ | hact := hmove.act_or
  · cases heffect.queueChange with
    | rests hoffered' hevents' =>
        exact hkeep (by rw [setScript_offered, hoffered']) (by rw [setScript_events, hevents'])
    | @offers item _ _ hoffered' hevents' =>
        refine ⟨item :: new, gone, ?_, ?_, hstatus⟩
        · rw [setScript_offered, hoffered', hoffered, List.cons_append]
        · rw [setScript_events, hevents', List.reverse_cons, ← List.append_assoc, hevents,
            List.append_assoc]
    | takes htakes =>
        cases task with
        | reader =>
            cases hreach.scripted.readerScript hacts with
            | ponging _ hw => cases hw <;> cases htakes
            | closing hw => cases hw <;> cases htakes
            | _ => cases htakes
        | call j =>
            have hne : j ≠ id := fun heq => hother (by rw [heq])
            cases hreach.scripted.aside hcall hwhole hne hacts <;> cases htakes
  · cases hmove with
    | act => exact absurd rfl (hact _)
    | _ => exact hkeep rfl rfl

/-- An event that is thrown away **is a further one**. -/
theorem Discarding.discard (h : Discarding c₀ status c) {item : Except ConnectionError Event}
    (hoffered : c'.offered = c.offered) (hevents : c.events = item :: c'.events) :
    Discarding c₀ (farewellOr status item) c' := by
  obtain ⟨new, gone, hnew, hall, hstatus⟩ := h
  refine ⟨new, gone ++ [item], hoffered.trans hnew, ?_, ?_⟩
  · rw [List.append_assoc, List.singleton_append, ← hevents, hall]
  · rw [farewellStatus_concat, hstatus]

/-- When everything was thrown away, the status is **that of the farewell** among what waited when
the drain began and what was offered since. -/
theorem Discarding.status_iff (h : Discarding c₀ status c) (hreach₀ : Reachable c₀)
    (hreach : Reachable c) (hempty : c.events = []) :
    ∃ new, c.offered = new ++ c₀.offered ∧
      ∀ s, status = some s ↔ .ok (.close (some s)) ∈ c₀.events ++ new := by
  obtain ⟨new, gone, hnew, hall, rfl⟩ := h
  refine ⟨new, hnew, fun s => ?_⟩
  rw [hempty, List.append_nil] at hall
  have hsuffix : gone <:+ c.offered.reverse := by
    obtain ⟨taken, hqueued⟩ := hreach₀.concluding.queued
    exact ⟨taken, by rw [hall, ← List.append_assoc, hqueued, hnew, List.reverse_append]⟩
  have hsingle : gone.countP isFarewell ≤ 1 := by
    have hall := hreach.concluding.single
    rw [← List.countP_reverse] at hall
    exact Nat.le_trans hsuffix.sublist.countP_le hall
  rw [farewellStatus_eq_some_iff hsingle, hall, List.mem_append, List.mem_append, List.mem_reverse]

/-- When a drain finds that the reader has ended in a closed connection, nobody is left who writes:
the connection is **mute**. -/
theorem IsMute.of_alone (hreach : Reachable c) (hrunning : c.stage = .running)
    (hphase : c.phase = .closed) (hended : c.reader = [])
    (hscript : c.script (.call id) = .drainEvents deadline status :: rest) : c.IsMute := by
  obtain ⟨call, hcall, hwhole, -⟩ := hreach.scripted.whole_of_drain hscript
  refine ⟨hphase, .inl hrunning, .inr ⟨hended, fun {task action more} hother => ?_⟩⟩
  cases task with
  | reader => exact nomatch hended.symm.trans hother
  | call j =>
      by_cases hne : j = id
      · subst hne
        cases hscript.symm.trans hother
        rfl
      · cases hreach.scripted.aside hcall hwhole hne hother <;> rfl

/-! ### The answers of a drain -/

/-- **The answers of a drain** that begins at a connection, after some moves, and when each of them
is given. -/
inductive Drained (c₀ : Connection) (past : List Move) : Answer → Prop
  /-- The reader has ended and nothing is left to be thrown away: the answer is the status of the
  farewell, if it was still to be received and carried one. -/
  | ended {before : List Move} {x : Connection} {new : List (Except ConnectionError Event)}
      {status : Option Close.Status} (hbefore : before <+: past) (hrun : c₀.run before = some x)
      (hended : x.reader = []) (hempty : x.events = []) (hnew : x.offered = new ++ c₀.offered)
      (hstatus : ∀ s, status = some s ↔ .ok (.close (some s)) ∈ c₀.events ++ new)
      (htimely : c₀.always isTimely before = true → x.now ≤ c₀.drainDeadline) :
      Drained c₀ past (.drained status)
  /-- The time is over, and the reader had not ended in that time. -/
  | late {before : List Move} {x : Connection} (hbefore : before <+: past)
      (hrun : c₀.run before = some x) (hover : c₀.drainDeadline ≤ x.now)
      (hwaited : ¬c₀.ReaderEnds past (· < c₀.drainDeadline))
      (htimely : c₀.always isTimely before = true → x.now = c₀.drainDeadline) :
      Drained c₀ past (.failed .timeout)

/-- The answers stand when **the run goes on** behind them. -/
theorem Drained.concat (h : Drained c₀ past a) (move : Move) :
    Drained c₀ (past ++ [move]) a := by
  cases h with
  | ended hbefore hrun' hended hempty hnew hstatus htimely =>
      exact .ended (hbefore.trans (List.prefix_append _ _)) hrun' hended hempty hnew hstatus htimely
  | @late before x hbefore hrun' hover hwaited htimely =>
      refine .late (hbefore.trans (List.prefix_append _ _)) hrun' hover ?_ htimely
      rintro ⟨earlier, y, hearlier, hy, hended, hearly⟩
      obtain heq | hprefix := List.prefix_concat_iff.mp hearlier
      · obtain ⟨after, rfl⟩ := hbefore
        subst heq
        obtain ⟨x', hx', hafter⟩ := run_append_eq_some.mp hy
        obtain ⟨x'', hx'', hafter'⟩ := run_append_eq_some.mp hx'
        obtain rfl := Option.some.inj (hrun'.symm.trans hx'')
        have hlater := Nat.le_trans (now_le_of_run hafter') (now_le_of_run hafter)
        exact absurd hearly (Nat.not_lt_of_le (Nat.le_trans hover hlater))
      · exact hwaited ⟨earlier, y, hprefix, hy, hended, hearly⟩

/-- **Which answer** is given depends on the reader alone: a status when it ends before the time is
over, and a timeout when it does not end in that time. -/
theorem Drained.answer_of_reader (h : Drained c₀ past a) :
    (c₀.ReaderEnds past (· < c₀.drainDeadline) → ∃ status, a = .drained status) ∧
      (c₀.always isTimely past = true → ¬c₀.ReaderEnds past (· ≤ c₀.drainDeadline) →
        a = .failed .timeout) := by
  cases h with
  | @ended before x _ _ hbefore hrun hended _ _ _ htimely =>
      refine ⟨fun _ => ⟨_, rfl⟩, fun halways hnot => ?_⟩
      obtain ⟨after, rfl⟩ := hbefore
      rw [always_append hrun, Bool.and_eq_true] at halways
      exact absurd ⟨before, x, List.prefix_append _ _, hrun, hended, htimely halways.1⟩ hnot
  | late _ _ _ hwaited => exact ⟨fun hends => absurd hends hwaited, fun _ _ => rfl⟩

/-! ### The course of a drain -/

/-- **Where a drain stands** behind some moves: it throws events away; or the time was over, and it
tears the connection down; or it has an answer. -/
inductive Drains (c₀ : Connection) (past : List Move) (c : Connection) : Script → Prop
  | waiting {status : Option Close.Status} (hrunning : c₀.stage = .running)
      (hdiscarding : Discarding c₀ status c)
      (htimely : c₀.always isTimely past = true → c.now ≤ c₀.drainDeadline) :
      Drains c₀ past c [.drainEvents c₀.drainDeadline status]
  | cancelling (hrunning : c₀.stage = .running) (hlate : Drained c₀ past (.failed .timeout)) :
      Drains c₀ past c [.cancelReader, .markClosed, .takeWriter, .answer (.failed .timeout)]
  | marking (hrunning : c₀.stage = .running) (hlate : Drained c₀ past (.failed .timeout)) :
      Drains c₀ past c [.markClosed, .takeWriter, .answer (.failed .timeout)]
  | taking (hrunning : c₀.stage = .running) (hlate : Drained c₀ past (.failed .timeout)) :
      Drains c₀ past c [.takeWriter, .answer (.failed .timeout)]
  | shutting {held : Bytes} (hrunning : c₀.stage = .running)
      (hlate : Drained c₀ past (.failed .timeout)) (hgone : c.writer = none) :
      Drains c₀ past c [.shutDown held, .answer (.failed .timeout)]
  | answered {a : Answer} (hdrained : Drained c₀ past a) (hphase : c.phase = .closed)
      (hmute : c₀.IsPast → c.IsMute) : Drains c₀ past c [.answer a]

/-- **The first action** of a drain: it begins to throw events away, or, where there is no reader,
has its answer at once. -/
theorem drains_of_start (hreach : Reachable c₀)
    (hscript : c₀.script (.call id) = .beginDraining :: rest)
    (hending : c₀.phase.isEnding = true) (hstep : c₀.step (.act (.call id)) = some c) :
    Drains c₀ [.act (.call id)] c (c.script (.call id)) := by
  have hmove := transition_of_step hstep
  obtain ⟨c₁, script, hperform, rfl, hself⟩ := perform_of_step hstep hscript
  have heffect := effect_of_perform hperform
  rw [hself]
  cases heffect with
  | failToDrain h => obtain h | h := h <;> rw [h] at hending <;> cases hending
  | beginDraining _ hrunning =>
      refine .waiting hrunning ⟨[], [], setScript_offered .., ?_, rfl⟩ fun _ => ?_
      · rw [setScript_events]
        simp
      · rw [setScript_now]
        exact Nat.le_add_right _ _
  | drainNothing _ hstage =>
      have hidle := hreach.staged.idle hstage
      have hphase : c₀.phase = .closed := by
        cases hphase : c₀.phase with
        | closed => rfl
        | closing => exact absurd (hreach.staged.opened (.inr hphase)) hstage
        | connecting | opened => rw [hphase] at hending; cases hending
      have hnew : c₀.offered = [] ++ c₀.offered := rfl
      have hdrained : Drained c₀ [] (.drained none) :=
        .ended List.prefix_rfl rfl hidle.reader hidle.events hnew (by simp [hidle.events])
          fun _ => Nat.le_add_right _ _
      refine .answered (hdrained.concat _) (hmove.closed hphase) fun hpast => ?_
      have hmute : c₀.IsMute := ⟨hphase, hpast, .inl hidle.writer⟩
      exact hmute.transition hreach hmove

section Steps

variable (hreach₀ : Reachable c₀) (hpast : c₀.run past = some c)

include hreach₀ hpast

/-- A reader that has ended has **closed the connection**, while somebody drains it. -/
theorem closed_of_reader (hrunning : c₀.stage = .running) (hended : c.reader = [])
    (hscript : c.script (.call id) = .drainEvents deadline status :: rest) :
    c.phase = .closed := by
  have hreach := hreach₀.run hpast
  obtain hclosed | hcancelled :=
    hreach.woundUp.ended (running_of_run hreach₀ hrunning hpast) hended
  · exact hclosed
  · refine (hreach.woundUp.told hcancelled).resolve_right ?_
    rintro ⟨j, more, hmarks⟩
    obtain ⟨call, hcall, hwhole, -⟩ := hreach.scripted.whole_of_drain hscript
    by_cases hne : j = id
    · subst hne
      cases hscript.symm.trans hmarks
    · cases hreach.scripted.aside hcall hwhole hne hmarks

/-- While a drain waits, its next action throws an event away, or finds that **the reader has
ended**, or that **the time is over**. -/
theorem Drains.act_waiting (hrunning : c₀.stage = .running) (hdiscarding : Discarding c₀ status c)
    (htimely : c₀.always isTimely past = true → c.now ≤ c₀.drainDeadline)
    (hscript : c.script (.call id) = [.drainEvents c₀.drainDeadline status])
    (heffect : Effect c (.call id) (.drainEvents c₀.drainDeadline status) [] c₁ script)
    (hstep : c.step (.act (.call id)) = some (c₁.setScript (.call id) script)) :
    Drains c₀ (past ++ [.act (.call id)]) (c₁.setScript (.call id) script) script := by
  have hreach := hreach₀.run hpast
  have hmove := transition_of_step hstep
  cases heffect with
  | @discard _ _ status' item _ _ hevents hstatus =>
      obtain rfl : status' = farewellOr status item := by
        rw [hstatus]
        match item with
        | .ok (.message _) | .ok (.ping _) | .ok (.pong _) | .ok (.close _) | .error _ => rfl
      refine .waiting hrunning (hdiscarding.discard (setScript_offered ..) ?_) fun h => ?_
      · rw [setScript_events]
        exact hevents
      · rw [always_concat hpast, Bool.and_eq_true] at h
        rw [setScript_now]
        exact htimely h.1
  | drained hempty hend =>
      have hended : c.reader = [] := List.isEmpty_iff.mp hend
      have hphase := closed_of_reader hreach₀ hpast hrunning hended hscript
      obtain ⟨new, hnew, hstatus⟩ := hdiscarding.status_iff hreach₀ hreach hempty
      have hdrained : Drained c₀ past (.drained status) :=
        .ended List.prefix_rfl hpast hended hempty hnew hstatus htimely
      have hmute : c.IsMute :=
        .of_alone hreach (running_of_run hreach₀ hrunning hpast) hphase hended hscript
      exact .answered (hdrained.concat _) (hmove.closed hphase)
        fun _ => hmute.transition hreach hmove
  | drainTimeout hempty hgoesOn hlate =>
      have hbusy : c.reader ≠ [] := fun hnil => by
        rw [readerEnded, hnil] at hgoesOn
        cases hgoesOn
      have hdrained : Drained c₀ past (.failed .timeout) := by
        refine .late List.prefix_rfl hpast hlate ?_ fun h => Nat.le_antisymm (htimely h) hlate
        rintro ⟨earlier, y, ⟨after, rfl⟩, hy, hended, -⟩
        obtain ⟨y', hy', hafter⟩ := run_append_eq_some.mp hpast
        obtain rfl := Option.some.inj (hy.symm.trans hy')
        exact absurd hended (reader_ne_nil_of_run (hreach₀.run hy)
          (running_of_run hreach₀ hrunning hy) hafter hbusy)
      exact .cancelling hrunning (hdrained.concat _)

/-- **An action of the drain** brings it one step further. -/
theorem Drains.act (h : Drains c₀ past c (c.script (.call id)))
    (hstep : c.step (.act (.call id)) = some c') :
    Drains c₀ (past ++ [.act (.call id)]) c' (c'.script (.call id)) := by
  have hreach := hreach₀.run hpast
  have hmove := transition_of_step hstep
  have hover : ∀ {action : Action} {rest : Script}, c.script (.call id) = action :: rest →
      Script.isOver (action :: rest) = true → c'.phase = .closed := fun hscript hparts =>
    hmove.closed (hreach.woundUp.parted hscript hparts)
  have hgone : c₀.stage = .running → c'.phase = .closed → c'.writer = none → c'.IsMute :=
    fun hrunning hphase hwriter =>
      ⟨hphase, .inl (hreach.staged.running (running_of_run hreach₀ hrunning hpast) hmove),
        .inl hwriter⟩
  generalize hscript : c.script (.call id) = s at h
  cases h with
  | waiting hrunning hdiscarding htimely =>
      obtain ⟨c₁, script, hperform, rfl, hself⟩ := perform_of_step hstep hscript
      rw [hself]
      exact act_waiting hreach₀ hpast hrunning hdiscarding htimely hscript
        (effect_of_perform hperform) hstep
  | cancelling hrunning hlate =>
      obtain ⟨c₁, script, hperform, rfl, hself⟩ := perform_of_step hstep hscript
      rw [hself]
      cases effect_of_perform hperform with
      | cancelReader => exact .marking hrunning (hlate.concat _)
  | marking hrunning hlate =>
      obtain ⟨c₁, script, hperform, rfl, hself⟩ := perform_of_step hstep hscript
      rw [hself]
      cases effect_of_perform hperform with
      | markClosed => exact .taking hrunning (hlate.concat _)
  | taking hrunning hlate =>
      have hphase := hover hscript rfl
      obtain ⟨c₁, script, hperform, rfl, hself⟩ := perform_of_step hstep hscript
      rw [hself]
      cases effect_of_perform hperform with
      | queueUpToTake => exact .taking hrunning (hlate.concat _)
      | takeNothing _ hwriter =>
          refine .answered (hlate.concat _) hphase fun _ => hgone hrunning hphase ?_
          rw [setScript_writer]
          exact hwriter
      | takeWriter =>
          refine .shutting hrunning (hlate.concat _) ?_
          rw [setScript_writer]
  | shutting hrunning hlate hwriter =>
      have hphase := hover hscript rfl
      obtain ⟨c₁, script, hperform, rfl, hself⟩ := perform_of_step hstep hscript
      rw [hself]
      cases effect_of_perform hperform with
      | shutBroken | shutDown =>
          refine .answered (hlate.concat _) hphase fun _ => hgone hrunning hphase ?_
          rw [setScript_writer]
          exact hwriter
  | answered =>
      obtain ⟨c₁, script, hperform, -⟩ := perform_of_step hstep hscript
      cases hperform

/-- A move of **anybody else** leaves the drain where it stands. -/
theorem Drains.beside (h : Drains c₀ past c (c.script (.call id))) (hother : move ≠ .act (.call id))
    (hstep : c.step move = some c') (hsame : c'.script (.call id) = c.script (.call id)) :
    Drains c₀ (past ++ [move]) c' (c'.script (.call id)) := by
  have hreach := hreach₀.run hpast
  have hmove := transition_of_step hstep
  rw [hsame]
  generalize hscript : c.script (.call id) = s at h ⊢
  cases h with
  | waiting hrunning hdiscarding htimely =>
      refine .waiting hrunning (hdiscarding.others hreach hscript hother hmove) fun h => ?_
      rw [always_concat hpast, Bool.and_eq_true] at h
      exact now_le_of_isTimely hmove h.2 hscript (htimely h.1)
  | cancelling hrunning hlate => exact .cancelling hrunning (hlate.concat _)
  | marking hrunning hlate => exact .marking hrunning (hlate.concat _)
  | taking hrunning hlate => exact .taking hrunning (hlate.concat _)
  | shutting hrunning hlate hwriter =>
      have hstays : c.IsPast := .inl (running_of_run hreach₀ hrunning hpast)
      exact .shutting hrunning (hlate.concat _)
        (hstays.writer_eq_none hreach.staged hmove hwriter)
  | answered hdrained hphase hmute =>
      exact .answered (hdrained.concat _) (hmove.closed hphase)
        fun h => (hmute h).transition hreach hmove

end Steps

/-- A drain always has something to do, or an answer. -/
theorem Drains.ne_nil (h : Drains c₀ past c script) : script ≠ [] := by
  cases h <;> exact List.cons_ne_nil _ _

/-- **The course of a drain** from its first action on, as long as nobody gives it up or takes its
answer. -/
theorem drains_of_run (hreach : Reachable c₀)
    (hscript : c₀.script (.call id) = .beginDraining :: rest)
    (hending : c₀.phase.isEnding = true) (hrun : c₀.run (.act (.call id) :: moves) = some c)
    (hkept : ∀ m ∈ moves, m ≠ .giveUp id ∧ m ≠ .collect id) :
    Drains c₀ (.act (.call id) :: moves) c (c.script (.call id)) := by
  obtain ⟨c₁, hfirst, hmoves⟩ := run_cons_eq_some.mp hrun
  refine kept_induction (P := fun moves x =>
    Drains c₀ (.act (.call id) :: moves) x (x.script (.call id)))
      (drains_of_start hreach hscript hending hfirst) ?_ hmoves hkept
  intro before x move x' hbefore hdrains hgiveUp hcollect hstep
  have hpast : c₀.run (.act (.call id) :: before) = some x :=
    run_cons_eq_some.mpr ⟨c₁, hfirst, hbefore⟩
  by_cases hown : move = .act (.call id)
  · subst hown
    exact hdrains.act hreach hpast hstep
  · exact hdrains.beside hreach hpast hown hstep
      ((transition_of_step hstep).script_of_others hown hgiveUp hcollect hdrains.ne_nil)

/-! ### What a drain does and answers -/

/-- Where everybody has to wait although the transport takes bytes, a drain that has no answer waits
for **a reader that waits for the peer**, and the time is not over. -/
theorem Drains.waits (h : Drains c₀ past c (c.script (.call id))) (hreach : Reachable c)
    (hunanswered : c.answer? id = none) (hquiet : c.isQuiet = true)
    (hstalled : c.transport.stalled = false) :
    c.now < c₀.drainDeadline ∧ c.reader = [.readFrame] ∧
      c.codec.decode c.buffer = .incomplete ∧ c.transport.ending = none := by
  have hact := (act_of_quiet hquiet).2
  rw [answer?] at hunanswered
  generalize hscript : c.script (.call id) = s at h hunanswered
  cases h with
  | waiting =>
      have hnone := perform_of_act (hact (.call id)) hscript
      simp only [perform, discardEvent, ending] at hnone
      split at hnone
      · cases hnone
      · rename_i hempty
        split at hnone
        · cases hnone
        · rename_i hbusy
          split at hnone
          · cases hnone
          · rename_i hearly
            refine ⟨Nat.lt_of_not_le hearly, ?_⟩
            obtain hnil | ⟨item, more, -, hfull⟩ | hreads :=
              reader_of_quiet hreach.locked hreach.scripted hquiet hstalled
            · exact absurd (by rw [readerEnded, hnil]; rfl) hbusy
            · exact absurd hempty hfull
            · exact hreads
  | cancelling => cases perform_of_act (hact (.call id)) hscript
  | marking => cases perform_of_act (hact (.call id)) hscript
  | taking => cases (not_asksLock_of_quiet hreach.locked hact hstalled hscript).1
  | shutting =>
      have hnone := perform_of_act (hact (.call id)) hscript
      simp only [perform, shutTransport] at hnone
      split at hnone
      · exact absurd ‹_› (Transport.write_ne_stalled hstalled)
      · cases hnone
      · cases hnone
  | answered => cases hunanswered

/-- A drain that is **under way**: left to itself the connection comes to rest, and then the time is
not over and the reader waits for the peer. -/
structure DrainPending (c₀ c : Connection) : Prop where
  waits : c.isQuiet = true → c.transport.stalled = false →
    c.now < c₀.drainDeadline ∧ c.reader = [.readFrame] ∧
      c.codec.decode c.buffer = .incomplete ∧ c.transport.ending = none
  bounded : ∃ bound, ∀ moves c', (∀ m ∈ moves, m.isOwn = true) → c.run moves = some c' →
    moves.length ≤ bound

theorem Drains.pending (h : Drains c₀ past c (c.script (.call id))) (hreach : Reachable c)
    (hunanswered : c.answer? id = none) : DrainPending c₀ c := by
  refine ⟨h.waits hreach hunanswered, c.stepsLeft, fun moves c' hown hrun => ?_⟩
  have := length_le_stepsLeft hreach hown hrun
  omega

/-- An answer **stays** until it is taken. -/
theorem script_of_answered (hrun : c.run moves = some c')
    (hkept : ∀ m ∈ moves, m ≠ .giveUp id ∧ m ≠ .collect id)
    (hanswer : c.script (.call id) = [.answer a]) : c'.script (.call id) = [.answer a] := by
  refine kept_induction (P := fun _ x => x.script (.call id) = [.answer a]) hanswer ?_ hrun hkept
  intro before x move x' _ hscript hgiveUp hcollect hstep
  refine ((transition_of_step hstep).script_of_others ?_ hgiveUp hcollect ?_).trans hscript
  · rintro rfl
    obtain ⟨c₁, script, hperform, -⟩ := perform_of_step hstep hscript
    cases hperform
  · rw [hscript]
    exact List.cons_ne_nil _ _

/-- **What a drain does and answers**, from its first action on, in every run in which nobody gives
it up. While the connection is `connecting` or `opened`, its first action fails and changes nothing
else. Otherwise it has one of the answers of `Drained`: the peer's status, or none, when the reader
ends in time, and a timeout when it does not. When the answer is there the connection is closed, and
if the handshake was over and writing does not block, nothing is written any more. While there is no
answer and nobody can go on, the time is not over and the reader waits for the peer. -/
theorem drained_of_run (hrun : (new role options keys).run before = some c₀)
    (hscript : c₀.script (.call id) = .beginDraining :: rest)
    (hmoves : c₀.run (.act (.call id) :: moves) = some c)
    (hkept : ∀ m ∈ moves, m ≠ .giveUp id ∧ m ≠ .collect id) :
    (c₀.phase.isEnding = false →
      c₀.step (.act (.call id)) =
          some (c₀.setScript (.call id) [.answer (.failed (.invalidState c₀.phase))]) ∧
        c.answer? id = some (.failed (.invalidState c₀.phase))) ∧
    (c₀.phase.isEnding = true →
      (∀ a, c.answer? id = some a →
        Drained c₀ (.act (.call id) :: moves) a ∧
        (c₀.ReaderEnds (.act (.call id) :: moves) (· < c₀.drainDeadline) →
          ∃ status, a = .drained status) ∧
        (c₀.always isTimely (.act (.call id) :: moves) = true →
          ¬c₀.ReaderEnds (.act (.call id) :: moves) (· ≤ c₀.drainDeadline) →
            a = .failed .timeout) ∧
        c.phase = .closed ∧
        (c₀.IsPast →
          (new role options keys).always isUnhindered (before ++ .act (.call id) :: moves) = true →
            ∀ {more c'}, c.run more = some c' → c.always isUnhindered more = true →
              c'.sent = c.sent ∧ c'.transport.outgoing <:+ c.transport.outgoing)) ∧
      (c.answer? id = none → DrainPending c₀ c)) := by
  have hreach₀ := (reachable_new role options keys).run hrun
  have hreach := hreach₀.run hmoves
  refine ⟨fun hgoing => ?_, fun hending => ?_⟩
  · obtain ⟨c₁, hfirst, hrest⟩ := run_cons_eq_some.mp hmoves
    obtain ⟨c₂, script, hperform, rfl, hself⟩ := perform_of_step hfirst hscript
    cases effect_of_perform hperform with
    | failToDrain =>
        refine ⟨hfirst, ?_⟩
        rw [answer?, script_of_answered hrest hkept hself]
    | beginDraining h | drainNothing h => obtain h | h := h <;> rw [h] at hgoing <;> cases hgoing
  · have hdrains := drains_of_run hreach₀ hscript hending hmoves hkept
    refine ⟨fun a hanswer => ?_, hdrains.pending hreach⟩
    rw [script_of_answer? hanswer] at hdrains
    cases hdrains with
    | answered hdrained hphase hmute =>
        obtain ⟨hintime, hlate⟩ := hdrained.answer_of_reader
        refine ⟨hdrained, hintime, hlate, hphase, fun hpast hunhindered more c' hmore halways => ?_⟩
        have htidy : c.Tidy := tidy_of_run (run_append_eq_some.mpr ⟨c₀, hrun, hmoves⟩) hunhindered
        exact (hmute hpast).silent_of_run hreach htidy hmore halways

/-- The moves by which a server whose queue has room for one event only gets a text and a close
frame with a status. Its reader answers the close frame and waits for room in the queue; somebody
begins to drain. -/
def crowdingMoves : List Move :=
  openingMoves ++
    [.collect 0,
      .peerSend [0x81, 0x81, 0, 0, 0, 0, 0x61, 0x88, 0x82, 0, 0, 0, 0, 0x03, 0xE8], .read 15] ++
    List.replicate 9 (.act .reader) ++ [.start 1 .drain]

/-- The drain goes on, and so does the reader, until the drain has an answer. -/
def drainingMoves : List Move :=
  [.act (.call 1), .tick 5, .act .reader, .act .reader, .act .reader, .act .reader,
    .act (.call 1), .act (.call 1)]

/-- Somebody tears the drained connection down once more. -/
def tearingMoves : List Move :=
  .collect 1 :: .start 2 .abort :: List.replicate 3 (.act (.call 2))

/-- A server whose queue has room for one event only. -/
def crowded : Connection := new .server { eventBuffer := 1 } fun _ => Mask.zero

theorem facts_of_crowdingMoves :
    (crowded.run crowdingMoves).map (fun c₀ =>
      (c₀.phase, c₀.stage, c₀.script (.call 1) matches [.beginDraining], c₀.events.length)) =
      some (.closing, .running, true, 1) := by
  decide +kernel

theorem facts_of_drainingMoves :
    (crowded.run (crowdingMoves ++ .act (.call 1) :: drainingMoves)).map (fun c =>
      (c.answer? 1, (c.run tearingMoves).isSome, c.always isUnhindered tearingMoves)) =
      some (some (.drained (some ⟨.normalClosure, ""⟩)), true, true) := by
  decide +kernel

theorem unhindered_of_drainingMoves :
    crowded.always isUnhindered (crowdingMoves ++ .act (.call 1) :: drainingMoves) = true := by
  decide +kernel

/-- Although the queue is full, the drain gets the status of the peer's farewell, the connection is
closed, and tearing it down once more writes nothing. -/
theorem drained_of_run_of_crowdingMoves : ∃ c₀ c c',
    crowded.run crowdingMoves = some c₀ ∧ c₀.phase = .closing ∧ c₀.events.length = 1 ∧
    c₀.run (.act (.call 1) :: drainingMoves) = some c ∧
    c.answer? 1 = some (.drained (some ⟨.normalClosure, ""⟩)) ∧
    Drained c₀ (.act (.call 1) :: drainingMoves) (.drained (some ⟨.normalClosure, ""⟩)) ∧
    c.phase = .closed ∧ c.run tearingMoves = some c' ∧ c'.sent = c.sent := by
  obtain ⟨c₀, hrun, hfacts₀⟩ := Option.map_eq_some_iff.mp facts_of_crowdingMoves
  simp only [Prod.mk.injEq] at hfacts₀
  obtain ⟨hphase, hstage, hmatches, hlength⟩ := hfacts₀
  have hscript : c₀.script (.call 1) = [.beginDraining] := by
    split at hmatches
    · assumption
    · cases hmatches
  obtain ⟨c, hall, hfacts⟩ := Option.map_eq_some_iff.mp facts_of_drainingMoves
  simp only [Prod.mk.injEq] at hfacts
  obtain ⟨hanswer, hmore, halways⟩ := hfacts
  obtain ⟨x, hx, hmoves⟩ := run_append_eq_some.mp hall
  obtain rfl := Option.some.inj (hrun.symm.trans hx)
  obtain ⟨c', hmore⟩ := Option.isSome_iff_exists.mp hmore
  have hkept : ∀ m ∈ drainingMoves, m ≠ .giveUp 1 ∧ m ≠ .collect 1 := by
    simp [drainingMoves]
  obtain ⟨hdrained, -, -, hclosed, hsilent⟩ :=
    ((drained_of_run hrun hscript hmoves hkept).2 (by rw [hphase]; rfl)).1 _ hanswer
  have hpast : c₀.IsPast := .inl hstage
  exact ⟨c₀, c, c', hrun, hphase, hlength, hmoves, hanswer, hdrained, hclosed, hmore,
    (hsilent hpast unhindered_of_drainingMoves hmore halways).1⟩

/-- The moves by which a server closes; then somebody begins to drain it. -/
def closedMoves : List Move :=
  openingMoves ++ [.collect 0, .start 1 (.close .normalClosure "")] ++
    List.replicate 6 (.act (.call 1)) ++ [.collect 1, .start 2 .drain]

/-- The drain waits from its first action on. Long after its deadline the peer's stream ends and so
does the reader, and only then the drain acts again. -/
def oversleptMoves : List Move :=
  [.tick 31000, .peerEnd .ended] ++ List.replicate 4 (.act .reader) ++ [.act (.call 2)]

theorem facts_of_closedMoves :
    ((new .server {} fun _ => Mask.zero).run closedMoves).map (fun c₀ =>
      (c₀.phase, c₀.drainDeadline, c₀.script (.call 2) matches [.beginDraining])) =
      some (.closing, 5000, true) := by
  decide +kernel

/-- In that run the reader **ends after the deadline** only. -/
theorem facts_of_oversleptMoves :
    ((new .server {} fun _ => Mask.zero).run closedMoves).bind (fun c₀ =>
      (c₀.run (.act (.call 2) :: oversleptMoves)).map fun c =>
        (c.answer? 2, (.act (.call 2) :: oversleptMoves).inits.all fun earlier =>
          (c₀.run earlier).all fun y => !(y.readerEnded && decide (y.now ≤ 5000)))) =
      some (some (.drained none), true) := by
  decide +kernel

/-- A drain that acts late enough **tells no timeout**, although its time was over long before the
reader ended. -/
theorem not_timeout_of_late :
    ¬ ∀ (role : Role) (options : Options) (keys : Nat → Mask) (before moves : List Move)
        (c₀ c : Connection) (id : Nat) (a : Answer),
        (new role options keys).run before = some c₀ → c₀.script (.call id) = [.beginDraining] →
        c₀.run (.act (.call id) :: moves) = some c →
        (∀ m ∈ moves, m ≠ .giveUp id ∧ m ≠ .collect id) → c₀.phase.isEnding = true →
        c.answer? id = some a →
        ¬c₀.ReaderEnds (.act (.call id) :: moves) (· ≤ c₀.drainDeadline) →
        a = .failed .timeout := by
  intro h
  obtain ⟨c₀, hrun, hfacts₀⟩ := Option.map_eq_some_iff.mp facts_of_closedMoves
  obtain ⟨x, hx, hfacts⟩ := Option.bind_eq_some_iff.mp facts_of_oversleptMoves
  obtain rfl := Option.some.inj (hrun.symm.trans hx)
  obtain ⟨c, hmoves, hfacts⟩ := Option.map_eq_some_iff.mp hfacts
  simp only [Prod.mk.injEq] at hfacts₀ hfacts
  obtain ⟨hphase, hdeadline, hmatches⟩ := hfacts₀
  obtain ⟨hanswer, hlate⟩ := hfacts
  have hscript : c₀.script (.call 2) = [.beginDraining] := by
    split at hmatches
    · assumption
    · cases hmatches
  have hwaited : ¬c₀.ReaderEnds (.act (.call 2) :: oversleptMoves) (· ≤ c₀.drainDeadline) := by
    rintro ⟨earlier, y, hearlier, hy, hended, hintime⟩
    have hall := List.all_eq_true.mp hlate earlier ((List.mem_inits _ _).mpr hearlier)
    rw [hy, Option.all_some, readerEnded, hended, decide_eq_true (hdeadline ▸ hintime)] at hall
    cases hall
  cases h .server {} (fun _ => Mask.zero) closedMoves oversleptMoves c₀ c 2 _ hrun hscript hmoves
    (by simp [oversleptMoves]) (by rw [hphase]; rfl) hanswer hwaited

end Connection

end WebSocket
