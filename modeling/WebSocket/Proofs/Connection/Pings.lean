import WebSocket.Proofs.Connection.Stages

/-!
# Pings in the queue and their waiters

A ping stands in the queue exactly as long as its waiter is pending. A ping that nobody waits for
any more may stay there for a while, until the next ping is put into the queue; it does no harm,
since its number is not used again before it has gone. So a pong acknowledges the waiters of the
pings up to the first one that it echoes, and no others.

## Main results

* `Ping.acknowledge_cases`: what a pong takes from the queue.
* `Connection.Transition.pingChange`: **whatever a move does** to the pings is one of the listed
  changes.
* `Connection.Reachable.matched`: the queue and the waiters **agree** in every connection.
* `Connection.acknowledges_of_ponging`: a pong acknowledges **exactly** the pings up to the first
  one that it echoes.
* `Connection.pings_sublist`: the queue is in the order in which the pings were put into it.
* `Connection.pong_of_acknowledged`: a ping is acknowledged by a pong **and by nothing else**.
-/

namespace WebSocket

namespace Ping

/-- **What a pong takes from the queue**: nothing if it echoes no ping in it, and otherwise the
first ping that it echoes and all in front of it. -/
theorem acknowledge_cases (payload : Bytes) (queue : List Ping) :
    ((∀ p ∈ queue, p.payload ≠ payload) ∧ acknowledge payload queue = ([], queue)) ∨
      ∃ front p back, queue = front ++ p :: back ∧ p.payload = payload ∧
        (∀ q ∈ front, q.payload ≠ payload) ∧
        acknowledge payload queue = (front ++ [p], back) := by
  unfold acknowledge
  cases hfound : queue.findIdx? fun p => p.payload == payload with
  | none =>
      refine .inl ⟨fun p hp heq => ?_, rfl⟩
      have hnone := List.findIdx?_eq_none_iff.mp hfound p hp
      simp [heq] at hnone
  | some i =>
      obtain ⟨hi, hecho, hfirst⟩ := List.findIdx?_eq_some_iff_getElem.mp hfound
      refine .inr ⟨queue.take i, queue[i], queue.drop (i + 1), ?_, by simpa using hecho, ?_, ?_⟩
      · rw [← List.drop_eq_getElem_cons hi, List.take_append_drop]
      · intro q hq
        obtain ⟨j, hj, rfl⟩ := List.mem_take_iff_getElem.mp hq
        simpa using hfirst j (by omega)
      · simp only [List.take_succ_eq_append_getElem hi]

end Ping

namespace Waiter

variable {fate : PingFate} {pings : List Ping} {ws : List Waiter} {w : Waiter}

/-- To settle fates **changes fates only**. -/
@[simp] theorem map_id_settle : (settle fate pings ws).map Waiter.id = ws.map Waiter.id := by
  rw [settle, List.map_map]
  refine List.map_congr_left fun w _ => ?_
  simp only [Function.comp_apply]
  split <;> rfl

/-- Whoever is there afterwards **was there before**, and is settled if its ping is in the list. -/
theorem mem_settle : w ∈ settle fate pings ws ↔ ((∀ p ∈ pings, p.id ≠ w.id) ∧ w ∈ ws) ∨
    ∃ old ∈ ws, (∃ p ∈ pings, p.id = old.id) ∧ w = { old with fate := fate } := by
  simp only [settle, List.mem_map, List.any_eq_true, beq_iff_eq]
  constructor
  · rintro ⟨old, hold, rfl⟩
    split
    · rename_i hqueued
      exact .inr ⟨old, hold, hqueued, rfl⟩
    · rename_i hnot
      exact .inl ⟨fun p hp heq => hnot ⟨p, hp, heq⟩, hold⟩
  · rintro (⟨hnot, hw⟩ | ⟨old, hold, hqueued, rfl⟩)
    · exact ⟨w, hw, if_neg fun ⟨p, hp, heq⟩ => hnot p hp heq⟩
    · exact ⟨old, hold, if_pos hqueued⟩

end Waiter

/-- The payload of the ping that a script **puts into the queue next**. -/
def Script.enlisting? : Script → Option Bytes
  | .enlist payload :: _ => some payload
  | _ => none

/-- Whether a script **will put a ping into the queue**. -/
def Script.enlists (script : Script) : Bool :=
  script.any fun
    | .enlist _ => true
    | _ => false

namespace Connection

variable {c c' c₁ : Connection} {task : TaskId} {action : Action} {rest script : Script}
  {move : Move} {moves before : List Move} {role : Role} {options : Options} {keys : Nat → Mask}

/-! ### What a move does to the pings -/

/-- **What a move does** to the pings in the queue and to their waiters. -/
inductive PingChange (c : Connection) (move : Move) (c' : Connection) : Prop
  | keeps (hpings : c'.pings = c.pings) (hwaiters : c'.waiters = c.waiters)
      (hphase : c'.phase = .closed → c.phase = .closed)
  /-- The time begins in which the pong has to come. -/
  | waits {id deadline : Nat} (hpings : c'.pings = c.pings)
      (hwaiters : c'.waiters = c.waiters.map fun w =>
        if w.id == id then { w with deadline := some deadline } else w)
      (hphase : c'.phase = c.phase) (hmove : move = .act (.call id))
      (hscript : ∃ rest, c.script (.call id) = .startWaiting :: rest)
      (hdeadline : deadline = c.now + c.options.pingTimeout)
  /-- Nobody waits for the pong any more. -/
  | forgets {id : Nat} (hpings : c'.pings = c.pings)
      (hwaiters : c'.waiters = c.waiters.filter fun w => w.id != id)
      (hphase : c'.phase = c.phase)
  /-- A ping is put into the queue. -/
  | enlists {id : Nat} {payload : Bytes} {rest : Script} (hmove : move = .act (.call id))
      (hscript : c.script (.call id) = .enlist payload :: rest)
      (hpings : c'.pings = Ping.awaited c.waiters c.pings ++ [⟨payload, id⟩])
      (hwaiters : c'.waiters = c.waiters ++ [⟨id, c.now, none, .pending⟩])
      (hphase : c'.phase = c.phase)
  /-- A pong is looked at. -/
  | resolves {task : TaskId} {payload : Bytes} {rest : Script} (hmove : move = .act task)
      (hscript : c.script task = .resolvePings payload :: rest)
      (hpings : c'.pings = (Ping.acknowledge payload c.pings).2)
      (hwaiters : c'.waiters =
        Waiter.settle (.acknowledged c.now) (Ping.acknowledge payload c.pings).1 c.waiters)
      (hphase : c'.phase = c.phase)
  /-- The connection closes. -/
  | closes (hpings : c'.pings = []) (hwaiters : c'.waiters = Waiter.settle .lost c.pings c.waiters)
      (hphase : c'.phase = .closed)

/-- What an action does to the pings. -/
theorem Effect.pingChange (heffect : Effect c task action rest c₁ script)
    (hscript : c.script task = action :: rest) :
    PingChange c (.act task) (c₁.setScript task script) := by
  have hkeeps : c₁.pings = c.pings → c₁.waiters = c.waiters →
      (c₁.phase = .closed → c.phase = .closed) →
        PingChange c (.act task) (c₁.setScript task script) := by
    intro hpings hwaiters hphase
    exact .keeps ((setScript_pings ..).trans hpings) ((setScript_waiters ..).trans hwaiters)
      (by rwa [setScript_phase])
  cases heffect with
  | beginClosing => exact hkeeps rfl rfl nofun
  | followClosing => exact hkeeps rfl rfl nofun
  | establish =>
      refine hkeeps rfl rfl fun hclosed => ?_
      by_cases hconnecting : c.phase = .connecting
      · simp [hconnecting] at hclosed
      · simpa [hconnecting] using hclosed
  | startWaiting htask =>
      subst htask
      exact .waits (setScript_pings ..) (setScript_waiters ..) (setScript_phase ..) rfl
        ⟨_, hscript⟩ rfl
  | abandon => exact .forgets (setScript_pings ..) (setScript_waiters ..) (setScript_phase ..)
  | awaitOutcome => exact .forgets (setScript_pings ..) (setScript_waiters ..) (setScript_phase ..)
  | enlist htask =>
      subst htask
      exact .enlists rfl hscript (setScript_pings ..) (setScript_waiters ..) (setScript_phase ..)
  | resolvePings =>
      exact .resolves rfl hscript (setScript_pings ..) (setScript_waiters ..) (setScript_phase ..)
  | markClosed => exact .closes (setScript_pings ..) (setScript_waiters ..) (setScript_phase ..)
  | failHandshake => exact .closes (setScript_pings ..) (setScript_waiters ..) (setScript_phase ..)
  | _ => exact hkeeps rfl rfl id

/-- **Whatever a move does** to the pings is one of these. -/
theorem Transition.pingChange (hmove : Transition c move c') : PingChange c move c' := by
  cases hmove with
  | act hscript heffect => exact heffect.pingChange hscript
  | giveUp => exact .forgets rfl rfl rfl
  | forget => exact .forgets rfl rfl rfl
  | _ => exact .keeps rfl rfl id

/-! ### Who will put a ping into the queue -/

theorem Negotiating.enlists_eq_false (h : Negotiating script) : script.enlists = false := by
  cases h <;> rfl

/-- A ping comes up only **behind a look at the phase**. -/
theorem Scripted.enlists_tail (h : c.Scripted) (hscript : c.script task = action :: rest)
    (hrest : rest.enlists = true) : action = .ensureOpen := by
  cases task with
  | reader => cases h.readerScript hscript <;> cases hrest
  | call id =>
      obtain ⟨_, claim, -, -, hcall⟩ := h.callScript hscript
      cases hcall with
      | ordinary hordinary =>
          cases hordinary with
          | ping => rfl
          | _ => cases hrest
      | negotiating hnegotiating => cases hnegotiating <;> cases hrest
      | _ => cases hrest

/-- An action leaves an operation a ping to put into the queue only if it **looks at the phase**. -/
theorem Effect.enlists {id : Nat} (heffect : Effect c (.call id) action rest c₁ script)
    (h : c.Scripted) (hscript : c.script (.call id) = action :: rest)
    (henlists : script.enlists = true) :
    action = .ensureOpen ∧ c.phase = .opened ∧ c₁ = c ∧ script = rest := by
  have htail : rest.enlists = true → action = .ensureOpen := h.enlists_tail hscript
  have hrecover : ∀ {recovery : Recovery} {e : ConnectionError},
      (Script.recover recovery e rest).enlists = true → action = .ensureOpen := by
    intro recovery e hrest
    cases recovery with
    | ignore => exact htail hrest
    | _ => cases hrest
  have hnot := h.not_reacts hscript
  by_cases hnegotiates : action.negotiates = true
  · obtain ⟨_, _, -, -, -, hnegotiating⟩ := h.negotiating hscript hnegotiates
    obtain hafter | ⟨a, rfl⟩ := hnegotiating.next heffect
    · exact nomatch hafter.enlists_eq_false.symm.trans henlists
    · cases henlists
  · cases heffect with
    | passOpen hopen => exact ⟨rfl, hopen, rfl, rfl⟩
    | lockInVain => cases hrecover henlists
    | feedInVain => cases hrecover henlists
    | failToMakeRoom => cases hrecover henlists
    | refuseFrame => cases hrecover henlists
    | flushInVain => cases hrecover henlists
    | failToFlush => cases hrecover henlists
    | queueUp => cases htail henlists
    | startWriting => cases htail henlists
    | _ => first
      | exact absurd rfl hnegotiates
      | cases htail henlists
      | cases henlists
      | cases hnot

/-- Whoever will put a ping into the queue **was to do so before**, and has not done it just now, or
begins under a number that was not in use. -/
theorem Transition.enlists {id : Nat} (hmove : Transition c move c') (h : c.Scripted)
    (henlists : (c'.script (.call id)).enlists = true) :
    ((c.script (.call id)).enlists = true ∧ ∀ payload rest, move = .act (.call id) →
      c.script (.call id) ≠ .enlist payload :: rest) ∨
      ∃ operation, move = .start id operation ∧ c.isFresh id = true := by
  obtain ⟨task, action, rest, c₁, script, rfl, hscript, heffect, rfl⟩ | hact := hmove.act_or
  · left
    obtain ⟨rfl, heq⟩ | ⟨hne, heq⟩ | ⟨hreader, -⟩ := heffect.script_after hscript (.call id)
    · rw [heq] at henlists
      obtain ⟨rfl, -, -, rfl⟩ := heffect.enlists h hscript henlists
      rw [hscript]
      exact ⟨henlists, fun _ _ _ => nofun⟩
    · rw [heq] at henlists
      exact ⟨henlists, fun _ _ hmoved => absurd (Move.act.inj hmoved).symm hne⟩
    · cases hreader
  · obtain heq | heq | ⟨_, _, rfl, hid, -, -⟩ := hmove.script_of_ne_act hact (.call id)
    · exact .inl ⟨heq ▸ henlists, fun _ _ hmoved => absurd hmoved (hact _)⟩
    · rw [heq] at henlists
      cases henlists
    · obtain rfl := TaskId.call.inj hid
      cases hmove with
      | start hfresh => exact .inr ⟨_, rfl, hfresh⟩

/-! ### The queue and the waiters -/

/-- The queue of pings and the waiters **agree**: no two pings and no two waiters have the same
number, a waiter is pending exactly as long as its ping is in the queue, and a number is not in use
before its ping is put into the queue. -/
structure Matched (c : Connection) : Prop where
  pings : (c.pings.map Ping.id).Nodup
  waiters : (c.waiters.map Waiter.id).Nodup
  pending : ∀ w ∈ c.waiters, w.fate = .pending ↔ ∃ p ∈ c.pings, p.id = w.id
  unused : ∀ id, (c.script (.call id)).enlists = true →
    (∀ p ∈ c.pings, p.id ≠ id) ∧ ∀ w ∈ c.waiters, w.id ≠ id

/-- Where no new number comes up, a number that was not in use **is not in use** now. -/
theorem Matched.unused_of_subset (h : c.Matched) (hscripted : c.Scripted)
    (hmove : Transition c move c') (hpings : ∀ p ∈ c'.pings, ∃ q ∈ c.pings, q.id = p.id)
    (hwaiters : ∀ w ∈ c'.waiters, ∃ v ∈ c.waiters, v.id = w.id) (id : Nat)
    (henlists : (c'.script (.call id)).enlists = true) :
    (∀ p ∈ c'.pings, p.id ≠ id) ∧ ∀ w ∈ c'.waiters, w.id ≠ id := by
  have hbefore : (∀ p ∈ c.pings, p.id ≠ id) ∧ ∀ w ∈ c.waiters, w.id ≠ id := by
    obtain ⟨hbefore, -⟩ | ⟨_, -, hfresh⟩ := hmove.enlists hscripted henlists
    · exact h.unused id hbefore
    · simp only [isFresh, Bool.and_eq_true, List.all_eq_true, bne_iff_ne] at hfresh
      exact ⟨hfresh.2, hfresh.1.2⟩
  constructor
  · intro p hp
    obtain ⟨q, hq, heq⟩ := hpings p hp
    exact heq ▸ hbefore.1 q hq
  · intro w hw
    obtain ⟨v, hv, heq⟩ := hwaiters w hw
    exact heq ▸ hbefore.2 v hv

/-- A new ping and its waiter **agree** with those before. -/
theorem Matched.enlist (h : c.Matched) (hscripted : c.Scripted) {id : Nat} {payload : Bytes}
    (hmove : Transition c (.act (.call id)) c')
    (hscript : c.script (.call id) = .enlist payload :: rest)
    (hpings : c'.pings = Ping.awaited c.waiters c.pings ++ [⟨payload, id⟩])
    (hwaiters : c'.waiters = c.waiters ++ [⟨id, c.now, none, .pending⟩]) : c'.Matched := by
  obtain ⟨hping, hwaiter⟩ := h.unused id (by rw [hscript]; rfl)
  have hold : ∀ p, p ∈ Ping.awaited c.waiters c.pings ↔
      p ∈ c.pings ∧ ∃ w ∈ c.waiters, w.id = p.id := by
    simp [Ping.awaited]
  refine ⟨?_, ?_, ?_, ?_⟩
  · rw [hpings, List.map_append, List.nodup_append]
    refine ⟨h.pings.sublist (List.filter_sublist.map _), List.nodup_singleton _, ?_⟩
    rintro _ hfirst _ hlast rfl
    obtain ⟨p, hp, heq⟩ := List.mem_map.mp hfirst
    exact hping p ((hold p).mp hp).1 (heq.trans (List.mem_singleton.mp hlast))
  · rw [hwaiters, List.map_append, List.nodup_append]
    refine ⟨h.waiters, List.nodup_singleton _, ?_⟩
    rintro _ hfirst _ hlast rfl
    obtain ⟨w, hw, heq⟩ := List.mem_map.mp hfirst
    exact hwaiter w hw (heq.trans (List.mem_singleton.mp hlast))
  · intro w hw
    rw [hwaiters, List.mem_append, List.mem_singleton] at hw
    simp only [hpings, List.mem_append, List.mem_singleton]
    obtain hw | rfl := hw
    · rw [h.pending w hw]
      constructor
      · rintro ⟨p, hp, heq⟩
        exact ⟨p, .inl ((hold p).mpr ⟨hp, w, hw, heq.symm⟩), heq⟩
      · rintro ⟨p, hp | rfl, heq⟩
        · exact ⟨p, ((hold p).mp hp).1, heq⟩
        · exact absurd heq.symm (hwaiter w hw)
    · exact iff_of_true rfl ⟨_, .inr rfl, rfl⟩
  · intro other henlists
    obtain ⟨hbefore, hnot⟩ | ⟨_, hstart, -⟩ := hmove.enlists hscripted henlists
    · have hne : id ≠ other := by
        rintro rfl
        exact hnot payload rest rfl hscript
      obtain ⟨hp, hw⟩ := h.unused other hbefore
      simp only [hpings, hwaiters, List.mem_append, List.mem_singleton]
      constructor
      · rintro p (hmem | rfl)
        · exact hp p ((hold p).mp hmem).1
        · exact hne
      · rintro w (hmem | rfl)
        · exact hw w hmem
        · exact hne
    · cases hstart

/-- When the pings at the front of the queue are **settled**, queue and waiters still agree. -/
theorem Matched.settle (h : c.Matched) (hscripted : c.Scripted) (hmove : Transition c move c')
    {front back : List Ping} {fate : PingFate} (hfate : fate ≠ .pending)
    (hqueue : c.pings = front ++ back) (hpings : c'.pings = back)
    (hwaiters : c'.waiters = Waiter.settle fate front c.waiters) : c'.Matched := by
  have hnodup := h.pings
  rw [hqueue, List.map_append] at hnodup
  refine ⟨?_, ?_, ?_, ?_⟩
  · rw [hpings]
    exact (List.nodup_append.mp hnodup).2.1
  · rw [hwaiters, Waiter.map_id_settle]
    exact h.waiters
  · intro w hw
    rw [hwaiters, Waiter.mem_settle] at hw
    rw [hpings]
    obtain ⟨hnot, hw⟩ | ⟨old, -, ⟨p, hp, heq⟩, rfl⟩ := hw
    · rw [h.pending w hw, hqueue]
      constructor
      · rintro ⟨p, hp, heq⟩
        exact ⟨p, (List.mem_append.mp hp).resolve_left fun hfront => hnot p hfront heq, heq⟩
      · rintro ⟨p, hp, heq⟩
        exact ⟨p, List.mem_append_right _ hp, heq⟩
    · refine iff_of_false hfate ?_
      rintro ⟨q, hq, heq'⟩
      exact (List.nodup_append.mp hnodup).2.2 _ (List.mem_map_of_mem hp) _
        (List.mem_map_of_mem hq) (heq.trans heq'.symm)
  · refine h.unused_of_subset hscripted hmove (fun p hp => ?_) fun w hw => ?_
    · rw [hpings] at hp
      exact ⟨p, hqueue ▸ List.mem_append_right _ hp, rfl⟩
    · rw [hwaiters, Waiter.mem_settle] at hw
      obtain ⟨-, hw⟩ | ⟨old, hold, -, rfl⟩ := hw
      · exact ⟨w, hw, rfl⟩
      · exact ⟨old, hold, rfl⟩

/-- **Every move** keeps the queue and the waiters in agreement. -/
theorem Matched.transition (h : c.Matched) (hscripted : c.Scripted) (hmove : Transition c move c') :
    c'.Matched := by
  cases hmove.pingChange with
  | keeps hpings hwaiters =>
      refine ⟨hpings ▸ h.pings, hwaiters ▸ h.waiters, ?_, ?_⟩
      · rw [hpings, hwaiters]
        exact h.pending
      · exact h.unused_of_subset hscripted hmove (fun p hp => ⟨p, hpings ▸ hp, rfl⟩)
          fun w hw => ⟨w, hwaiters ▸ hw, rfl⟩
  | @waits id deadline hpings hwaiters =>
      have hold : ∀ w ∈ c'.waiters, ∃ v ∈ c.waiters, v.id = w.id ∧ v.fate = w.fate := by
        intro w hw
        rw [hwaiters] at hw
        obtain ⟨v, hv, rfl⟩ := List.mem_map.mp hw
        refine ⟨v, hv, ?_⟩
        split <;> exact ⟨rfl, rfl⟩
      refine ⟨hpings ▸ h.pings, ?_, ?_, ?_⟩
      · have hids : c'.waiters.map Waiter.id = c.waiters.map Waiter.id := by
          rw [hwaiters, List.map_map]
          refine List.map_congr_left fun w _ => ?_
          simp only [Function.comp_apply]
          split <;> rfl
        exact hids ▸ h.waiters
      · intro w hw
        obtain ⟨v, hv, hid, hfate⟩ := hold w hw
        rw [← hid, ← hfate, hpings]
        exact h.pending v hv
      · refine h.unused_of_subset hscripted hmove (fun p hp => ⟨p, hpings ▸ hp, rfl⟩) fun w hw => ?_
        obtain ⟨v, hv, hid, -⟩ := hold w hw
        exact ⟨v, hv, hid⟩
  | forgets hpings hwaiters =>
      have hsub : c'.waiters.Sublist c.waiters := hwaiters ▸ List.filter_sublist
      refine ⟨hpings ▸ h.pings, h.waiters.sublist (hsub.map _), ?_, ?_⟩
      · intro w hw
        rw [hpings]
        exact h.pending w (hsub.subset hw)
      · exact h.unused_of_subset hscripted hmove (fun p hp => ⟨p, hpings ▸ hp, rfl⟩)
          fun w hw => ⟨w, hsub.subset hw, rfl⟩
  | enlists hmoved hscript hpings hwaiters =>
      subst hmoved
      exact h.enlist hscripted hmove hscript hpings hwaiters
  | @resolves _ payload _ _ _ hpings hwaiters =>
      have hfate : PingFate.acknowledged c.now ≠ .pending := nofun
      refine h.settle hscripted hmove hfate ?_ hpings hwaiters
      obtain ⟨-, heq⟩ | ⟨front, p, back, hqueue, -, -, heq⟩ :=
        Ping.acknowledge_cases payload c.pings
      · rw [heq, List.nil_append]
      · rw [heq, hqueue, List.append_assoc, List.singleton_append]
  | closes hpings hwaiters =>
      have hfate : PingFate.lost ≠ .pending := nofun
      exact h.settle hscripted hmove hfate (List.append_nil _).symm hpings hwaiters

/-- In every connection the queue of pings and the waiters **agree**. -/
theorem Reachable.matched (h : Reachable c) : c.Matched := by
  refine h.invariant ?_ fun hreach hmatched => hmatched.transition hreach.scripted
  intro role options keys
  exact ⟨List.nodup_nil, List.nodup_nil, nofun, nofun⟩

/-! ### What a pong acknowledges -/

/-- The payload of the pong that a move **looks at**. -/
def ponging? (c : Connection) : Move → Option Bytes
  | .act task =>
    match c.script task with
    | .resolvePings payload :: _ => some payload
    | _ => none
  | _ => none

/-- **What a pong with a payload acknowledges**: if it echoes pings in the queue, the first of them
and all in front of it, and otherwise none. -/
inductive Acknowledges (payload : Bytes) (c c' : Connection) : Prop
  | echo {front : List Ping} {p : Ping} {back : List Ping} (hqueue : c.pings = front ++ p :: back)
      (hecho : p.payload = payload) (hfirst : ∀ q ∈ front, q.payload ≠ payload)
      (hleft : c'.pings = back)
      (hacknowledged : ∀ q ∈ front ++ [p], ∀ w, c.waiter? q.id = some w →
        w.fate = .pending ∧ c'.waiter? q.id = some { w with fate := .acknowledged c.now })
      (hbehind : ∀ q ∈ back, c'.waiter? q.id = c.waiter? q.id)
      (hothers : ∀ id, (∀ q ∈ front ++ [p], q.id ≠ id) → c'.waiter? id = c.waiter? id)
  | stray (hnone : ∀ p ∈ c.pings, p.payload ≠ payload) (hpings : c'.pings = c.pings)
      (hwaiters : c'.waiters = c.waiters)

/-- The waiter of a number, **settled if its ping is in the list**. -/
theorem waiter?_settle {fate : PingFate} {pings : List Ping}
    (h : c'.waiters = Waiter.settle fate pings c.waiters) (id : Nat) :
    c'.waiter? id = if ∃ p ∈ pings, p.id = id then
        (c.waiter? id).map fun w => { w with fate := fate } else c.waiter? id := by
  have hpred : ((fun w : Waiter => w.id == id) ∘ fun w =>
      if pings.any fun p => p.id == w.id then { w with fate := fate } else w) =
        fun w => w.id == id := by
    funext w
    simp only [Function.comp_apply]
    split <;> rfl
  rw [waiter?, h, Waiter.settle, List.find?_map, hpred, ← waiter?]
  cases hw : c.waiter? id with
  | none => split <;> rfl
  | some w =>
      obtain rfl : w.id = id := by simpa using List.find?_some hw
      simp only [Option.map_some, List.any_eq_true, beq_iff_eq]
      split <;> rfl

theorem ponging?_eq_some {payload : Bytes} (h : c.ponging? move = some payload) :
    ∃ task rest, move = .act task ∧ c.script task = .resolvePings payload :: rest := by
  unfold ponging? at h
  split at h
  · split at h
    · rename_i hscript
      obtain rfl := Option.some.inj h
      exact ⟨_, _, rfl, hscript⟩
    · cases h
  · cases h

/-- What becomes of the queue and of the waiters **when a pong is looked at**. -/
theorem Transition.ponging {payload : Bytes} (hmove : Transition c move c')
    (hpong : c.ponging? move = some payload) :
    c'.pings = (Ping.acknowledge payload c.pings).2 ∧ c'.waiters =
      Waiter.settle (.acknowledged c.now) (Ping.acknowledge payload c.pings).1 c.waiters := by
  obtain ⟨task, rest, rfl, hscript⟩ := ponging?_eq_some hpong
  cases hmove with
  | act hacts heffect =>
      rw [hscript] at hacts
      cases hacts
      cases heffect with
      | resolvePings => exact ⟨setScript_pings .., setScript_waiters ..⟩

/-- **A pong acknowledges exactly the pings** up to the first one that it echoes. -/
theorem acknowledges_of_ponging {payload : Bytes} (hreach : Reachable c)
    (hstep : c.step move = some c') (hpong : c.ponging? move = some payload) :
    Acknowledges payload c c' := by
  obtain ⟨hpings, hwaiters⟩ := (transition_of_step hstep).ponging hpong
  have hmatched := hreach.matched
  obtain ⟨hnone, heq⟩ | ⟨front, p, back, hqueue, hecho, hfirst, heq⟩ :=
    Ping.acknowledge_cases payload c.pings
  · refine .stray hnone ?_ ?_
    · rw [hpings, heq]
    · rw [hwaiters, heq]
      simp [Waiter.settle]
  · rw [heq] at hpings hwaiters
    have hsettled := waiter?_settle hwaiters
    have hnodup := hmatched.pings
    rw [hqueue, ← List.singleton_append, ← List.append_assoc, List.map_append] at hnodup
    refine .echo hqueue hecho hfirst hpings ?_ ?_ ?_
    · intro q hq w hw
      have hid : w.id = q.id := by simpa using List.find?_some hw
      have hmem : q ∈ c.pings := by
        rw [hqueue, ← List.singleton_append, ← List.append_assoc]
        exact List.mem_append_left _ hq
      refine ⟨(hmatched.pending w (List.mem_of_find?_eq_some hw)).mpr ⟨q, hmem, hid.symm⟩, ?_⟩
      rw [hsettled, if_pos ⟨q, hq, rfl⟩, hw]
      rfl
    · intro q hq
      rw [hsettled, if_neg]
      rintro ⟨r, hr, heq⟩
      exact (List.nodup_append.mp hnodup).2.2 _ (List.mem_map_of_mem hr) _
        (List.mem_map_of_mem hq) heq
    · intro id hid
      rw [hsettled, if_neg]
      rintro ⟨q, hq, heq⟩
      exact hid q hq heq

/-- A pong is looked at **when its frame has been read**, with the payload of the frame. -/
theorem resolves_of_reading {f : Frame} {buffer : Bytes}
    (hscript : c.script .reader = .readFrame :: rest)
    (hd : c.codec.decode c.buffer = .found f buffer) (hpong : f.opcode = .pong)
    (hstep : c.step (.act .reader) = some c') :
    c'.ponging? (.act .reader) = some f.payload := by
  obtain ⟨c₁, script, hperform, rfl, hafter⟩ := perform_of_step hstep hscript
  have hcontrol : f.opcode.isControl = true := by
    rw [hpong]
    rfl
  simp only [perform, readNext, hd, Assembly.feed_control _ hcontrol, Option.some.injEq,
    Prod.mk.injEq] at hperform
  obtain ⟨-, rfl⟩ := hperform
  rw [ponging?, hafter]
  simp only [Script.ofAssembled, Script.ofControl, hpong, List.cons_append]

/-! ### The order of the queue -/

/-- The ping that a move **puts into the queue**. -/
def enlisting? (c : Connection) : Move → Option Ping
  | .act (.call id) => (c.script (.call id)).enlisting?.map fun payload => ⟨payload, id⟩
  | _ => none

/-- **The pings of a run**, in the order in which they were put into the queue. -/
def enlisted (c : Connection) (moves : List Move) : List Ping := c.trace enlisting? moves

theorem enlisted_concat (hrun : c.run before = some c₁) (hstep : c₁.step move = some c') :
    c.enlisted (before ++ [move]) = c.enlisted before ++ (c₁.enlisting? move).toList := by
  rw [enlisted, trace_append hrun, trace_singleton hstep]
  rfl

/-- The pings of a run come **in front of all later ones**. -/
theorem enlisted_isPrefix {after : List Move} (hrun : c.run before = some c₁) :
    c.enlisted before <+: c.enlisted (before ++ after) := by
  rw [enlisted, enlisted, trace_append hrun]
  exact List.prefix_append _ _

theorem awaited_sublist (ws : List Waiter) (queue : List Ping) :
    (Ping.awaited ws queue).Sublist queue :=
  List.filter_sublist

/-- A pong takes pings **from the front** of the queue. -/
theorem acknowledge_sublist (payload : Bytes) (queue : List Ping) :
    (Ping.acknowledge payload queue).2.Sublist queue := by
  unfold Ping.acknowledge
  split
  · exact List.Sublist.refl _
  · exact List.drop_sublist _ _

/-- The pings in the queue stand there **in the order in which they were put into it**. -/
theorem pings_sublist (hrun : (new role options keys).run moves = some c) :
    c.pings.Sublist ((new role options keys).enlisted moves) := by
  refine run_induction
    (P := fun moves x => x.pings.Sublist ((new role options keys).enlisted moves))
    (List.nil_sublist _) ?_ hrun
  intro before c₁ move c₂ hbefore ih hstep
  rw [enlisted_concat hbefore hstep]
  have hkept : ∀ {l : List Ping}, l.Sublist c₁.pings →
      l.Sublist ((new role options keys).enlisted before ++ (c₁.enlisting? move).toList) :=
    fun h => (h.trans ih).trans (List.sublist_append_left _ _)
  cases (transition_of_step hstep).pingChange with
  | keeps hpings => exact hkept (hpings ▸ List.Sublist.refl _)
  | waits hpings => exact hkept (hpings ▸ List.Sublist.refl _)
  | forgets hpings => exact hkept (hpings ▸ List.Sublist.refl _)
  | resolves _ _ hpings => exact hkept (hpings ▸ acknowledge_sublist _ _)
  | closes hpings => exact hkept (hpings ▸ List.nil_sublist _)
  | enlists hmoved hscript hpings =>
      subst hmoved
      rw [hpings, enlisting?, hscript]
      exact ((awaited_sublist _ _).trans ih).append (List.Sublist.refl _)

/-! ### Who acknowledges -/

/-- A ping that is acknowledged after a move was so before, or the move **looks at a pong** that
acknowledges it. -/
theorem Transition.acknowledged (hmove : Transition c move c') {w : Waiter} (hw : w ∈ c'.waiters)
    {time : Nat} (hfate : w.fate = .acknowledged time) :
    (∃ old ∈ c.waiters, old.id = w.id ∧ old.fate = .acknowledged time) ∨
      ∃ payload, c.ponging? move = some payload ∧ time = c.now ∧
        ∃ p ∈ (Ping.acknowledge payload c.pings).1, p.id = w.id := by
  cases hmove.pingChange with
  | keeps _ hwaiters => exact .inl ⟨w, hwaiters ▸ hw, rfl, hfate⟩
  | waits _ hwaiters =>
      rw [hwaiters] at hw
      obtain ⟨old, hold, rfl⟩ := List.mem_map.mp hw
      refine .inl ⟨old, hold, ?_⟩
      split at hfate
      · rename_i hid
        rw [if_pos hid]
        exact ⟨rfl, hfate⟩
      · rename_i hid
        rw [if_neg hid]
        exact ⟨rfl, hfate⟩
  | forgets _ hwaiters =>
      rw [hwaiters] at hw
      exact .inl ⟨w, (List.mem_filter.mp hw).1, rfl, hfate⟩
  | enlists _ _ _ hwaiters =>
      rw [hwaiters, List.mem_append, List.mem_singleton] at hw
      obtain hw | rfl := hw
      · exact .inl ⟨w, hw, rfl, hfate⟩
      · cases hfate
  | resolves hmoved hscript _ hwaiters =>
      subst hmoved
      rw [hwaiters, Waiter.mem_settle] at hw
      obtain ⟨-, hw⟩ | ⟨old, -, ⟨p, hp, heq⟩, rfl⟩ := hw
      · exact .inl ⟨w, hw, rfl, hfate⟩
      · refine .inr ⟨_, ?_, (PingFate.acknowledged.inj hfate).symm, p, hp, heq⟩
        rw [ponging?, hscript]
  | closes _ hwaiters =>
      rw [hwaiters, Waiter.mem_settle] at hw
      obtain ⟨-, hw⟩ | ⟨old, -, -, rfl⟩ := hw
      · exact .inl ⟨w, hw, rfl, hfate⟩
      · cases hfate

/-- In the course of a run a pong with a payload **acknowledged a ping**, at a given time. -/
inductive Acknowledged (start : Connection) (moves : List Move) (payload : Bytes) (p : Ping)
    (time : Nat) : Prop
  | during {before after : List Move} {move : Move} {b : Connection}
      (hmoves : moves = before ++ move :: after) (hrun : start.run before = some b)
      (hpong : b.ponging? move = some payload) (htime : time = b.now)
      (hp : p ∈ (Ping.acknowledge payload b.pings).1)

/-- **A ping is acknowledged by a pong**, at the time at which the pong is looked at, and by nothing
else. -/
theorem pong_of_acknowledged (hrun : (new role options keys).run moves = some c) {w : Waiter}
    (hw : w ∈ c.waiters) {time : Nat} (hfate : w.fate = .acknowledged time) :
    ∃ payload p, Acknowledged (new role options keys) moves payload p time ∧ p.id = w.id := by
  refine run_induction (P := fun moves x => ∀ w ∈ x.waiters, w.fate = .acknowledged time →
    ∃ payload p, Acknowledged (new role options keys) moves payload p time ∧ p.id = w.id)
    (fun _ hw => absurd hw List.not_mem_nil) ?_ hrun w hw hfate
  intro past c₁ move c₂ hpast ih hstep w hw hfate
  obtain ⟨old, hold, hid, hfate⟩ | ⟨payload, hpong, htime, p, hp, hid⟩ :=
    (transition_of_step hstep).acknowledged hw hfate
  · obtain ⟨payload, p, @⟨before, after, first, b, rfl, hbefore, hpong, htime, hp⟩, hp'⟩ :=
      ih old hold hfate
    have hmoves := List.append_assoc before (first :: after) [move]
    exact ⟨payload, p, .during hmoves hbefore hpong htime hp, hp'.trans hid⟩
  · exact ⟨payload, p, .during rfl hpast hpong htime hp, hid⟩

end Connection

end WebSocket
