import WebSocket.Proofs.Connection.PingOrder

/-!
# What becomes of pings

In a run in which tasks take turns and no ping is given up before its call has ended, pings are
written in the order of the queue, and a pong acknowledges the pings up to the first one that it
echoes. If all pings have payloads of their own, nobody is therefore told of the pong of an earlier
ping. A closed connection has no pings in its queue, and whoever looks at a waiter then is told at
once.

## Main results

* `Connection.emptied_of_run`: a **closed connection has no pings** in its queue.
* `Connection.tells_of_poll`: what a waiter tells **when it is looked at**.
* `Connection.pingLedger_of_run`: **what becomes of the pings** of a punctual run.
-/

namespace WebSocket

/-- What comes before an element of a list without duplicates **stands in front of it**. -/
theorem mem_front_of_sublist {α : Type} {front back : List α} {a b : α}
    (hnodup : (front ++ b :: back).Nodup) (hsub : [a, b].Sublist (front ++ b :: back)) :
    a ∈ front := by
  obtain ⟨first, last, heq, hfirst, hlast⟩ := List.sublist_append_iff.mp hsub
  cases first with
  | nil =>
      obtain rfl : [a, b] = last := by simpa using heq
      have hb : b ∈ back := by
        obtain hback | ⟨-, hback⟩ := List.cons_sublist_cons'.mp hlast
        · exact hback.subset (by simp)
        · exact List.singleton_sublist.mp hback
      exact absurd hb (List.nodup_cons.mp (List.nodup_append.mp hnodup).2.1).1
  | cons x first =>
      obtain ⟨rfl, -⟩ := List.cons.inj heq
      exact hfirst.subset List.mem_cons_self

namespace Connection

variable {c c' c₁ : Connection} {task : TaskId} {action : Action} {rest script : Script}
  {move : Move} {moves before : List Move} {role : Role} {options : Options} {keys : Nat → Mask}

/-! ### Closed connections -/

/-- **A closed connection has no pings** in its queue, and nobody is about to put one into it. -/
structure Emptied (c : Connection) : Prop where
  empty : c.phase = .closed → c.pings = []
  opened : ∀ {id payload rest}, c.script (.call id) = .enlist payload :: rest → c.phase = .opened

/-- Who is about to put a ping into the queue after a move **has just seen** that the connection is
opened. -/
theorem Emptied.opened_transition (h : c.Emptied) (hreach : Reachable c)
    (hmove : Transition c move c')
    (hturn : ∀ task, move = .act task → c.othersPause task = true) {id : Nat}
    {payload : Bytes} (hscript' : c'.script (.call id) = .enlist payload :: rest) :
    c'.phase = .opened := by
  obtain ⟨task, action, more, c₁, script, rfl, hscript, heffect, rfl⟩ | hact := hmove.act_or
  · rw [setScript_phase]
    obtain ⟨rfl, heq⟩ | ⟨hne, heq⟩ | ⟨hreader, -⟩ := heffect.script_after hscript (.call id)
    · obtain ⟨-, hopen, rfl, -⟩ := heffect.enlists hreach.scripted hscript (by
        rw [← heq, hscript']
        rfl)
      exact hopen
    · have hpauses := pauses_of_othersPause (hturn task rfl) hne
      rw [pauses, ← heq, hscript'] at hpauses
      cases hpauses
    · cases hreader
  · obtain heq | hopening := hmove.opening_of_ne_act hact hscript'
    · rw [(hmove.sent_of_ne_act hact).1]
      exact h.opened heq
    · cases hopening

/-- A move of tasks that take turns leaves **no ping in a closed connection**. -/
theorem Emptied.transition (h : c.Emptied) (hreach : Reachable c) (hmove : Transition c move c')
    (hturn : ∀ task, move = .act task → c.othersPause task = true) : c'.Emptied := by
  refine ⟨fun hclosed => ?_, h.opened_transition hreach hmove hturn⟩
  cases hmove.pingChange with
  | keeps hpings _ hphase => rw [hpings, h.empty (hphase hclosed)]
  | waits hpings _ hphase => rw [hpings, h.empty (hphase ▸ hclosed)]
  | forgets hpings _ hphase => rw [hpings, h.empty (hphase ▸ hclosed)]
  | enlists _ hscript _ _ hphase =>
      rw [hphase, h.opened hscript] at hclosed
      cases hclosed
  | resolves _ _ hpings _ hphase =>
      rw [hpings, h.empty (hphase ▸ hclosed)]
      rfl
  | closes hpings => exact hpings

/-- Where tasks take turns, a closed connection **has no pings** in its queue. -/
theorem emptied_of_always {allowed : Connection → Move → Bool}
    (hturns : ∀ {x task}, allowed x (.act task) = true → x.othersPause task = true)
    (hrun : (new role options keys).run moves = some c)
    (h : (new role options keys).always allowed moves = true) : c.Emptied := by
  refine always_induction (P := fun _ x => x.Emptied) ⟨fun _ => rfl, fun h => by cases h⟩
    ?_ hrun h
  intro before c₁ move c₂ hbefore ih hallowed hstep
  refine ih.transition ((reachable_new role options keys).run hbefore) (transition_of_step hstep) ?_
  rintro task rfl
  exact hturns hallowed

/-- In a punctual run a closed connection **has no pings** in its queue. -/
theorem emptied_of_run (hrun : (new role options keys).run moves = some c)
    (h : (new role options keys).punctually moves = true) : c.Emptied :=
  emptied_of_always id hrun h

/-- Where there is no ping in the queue, **no waiter is pending**. -/
theorem Matched.not_pending (h : c.Matched) (hempty : c.pings = []) {w : Waiter}
    (hw : w ∈ c.waiters) : w.fate ≠ .pending := by
  intro hpending
  obtain ⟨p, hp, -⟩ := (h.pending w hw).mp hpending
  rw [hempty] at hp
  cases hp

/-! ### What waiters tell -/

/-- **What the waiter** of a ping tells when it is looked at. -/
inductive Tells (c : Connection) (ping : Nat) : Answer → Prop
  | pong {w : Waiter} {time : Nat} (hw : c.waiter? ping = some w)
      (hfate : w.fate = .acknowledged time) : Tells c ping (.pong (time - w.sentAt))
  | late {w : Waiter} (hw : c.waiter? ping = some w) (hfate : w.fate = .pending) :
      Tells c ping (.failed .timeout)
  | lost (hlost : ∀ w, c.waiter? ping = some w → w.fate = .lost) :
      Tells c ping (.failed .connectionClosed)

/-- Whoever looks at a waiter **is told** what has become of the ping. -/
theorem tells_of_poll {id ping : Nat} (hscript : c.script (.call id) = .awaitPong ping :: rest)
    (hstep : c.step (.act (.call id)) = some c') :
    ∃ a, c'.answer? id = some a ∧ c.Tells ping a := by
  obtain ⟨c₁, script, hperform, rfl, hafter⟩ := perform_of_step hstep hscript
  have hanswer : ∀ {a : Answer}, script = [.answer a] →
      (c₁.setScript (.call id) script).answer? id = some a := by
    rintro a rfl
    rw [answer?, hafter]
  cases effect_of_perform hperform with
  | awaitNothing hnone =>
      refine ⟨_, hanswer rfl, .lost fun w hw => ?_⟩
      rw [hnone] at hw
      cases hw
  | @awaitOutcome _ _ w outcome hw houtcome =>
      refine ⟨_, hanswer rfl, ?_⟩
      unfold Waiter.outcome? at houtcome
      split at houtcome
      · obtain rfl := Option.some.inj houtcome
        exact .pong hw ‹_›
      · obtain rfl := Option.some.inj houtcome
        exact .lost fun v hv => Option.some.inj (hw.symm.trans hv) ▸ ‹_›
      · rename_i hpending
        split at houtcome
        · cases houtcome
        · split at houtcome
          · obtain rfl := Option.some.inj houtcome
            exact .late hw hpending
          · cases houtcome

/-- Where no waiter is pending, whoever looks at one **goes on at once**. -/
theorem poll_isSome {id ping : Nat} (hscript : c.script (.call id) = .awaitPong ping :: rest)
    (hsettled : ∀ w ∈ c.waiters, w.fate ≠ .pending) :
    ∃ c', c.step (.act (.call id)) = some c' := by
  have hperform : ∃ c₁ script, c.perform (.call id) (.awaitPong ping) rest = some (c₁, script) := by
    rw [perform]
    cases hw : c.waiter? ping with
    | none => exact ⟨_, _, rfl⟩
    | some w =>
        have hfate := hsettled w (List.mem_of_find?_eq_some hw)
        simp only [Waiter.outcome?]
        cases hcase : w.fate with
        | pending => exact absurd hcase hfate
        | acknowledged => exact ⟨_, _, rfl⟩
        | lost => exact ⟨_, _, rfl⟩
  obtain ⟨c₁, script, hperform⟩ := hperform
  exact ⟨c₁.setScript (.call id) script, by simp only [step, act, hscript, hperform]⟩

/-! ### Pings with payloads of their own -/

/-- If all pings of a run have payloads of their own, a pong acknowledges a ping only if the ping
that it echoes **was not written before**. -/
theorem written_of_acknowledged {payload : Bytes} {p q : Ping} {time : Nat}
    (hdistinct : (((new role options keys).enlisted moves).map Ping.payload).Nodup)
    (hwritten : c.writtenPings <+: (new role options keys).enlisted moves)
    (h : Acknowledged (new role options keys) moves payload p time) {front back : List Ping}
    (hq : c.writtenPings = front ++ q :: back) (hecho : q.payload = payload) :
    p ∈ front ++ [q] := by
  obtain @⟨past, after, move, b, rfl, hrun, -, -, hacknowledged⟩ := h
  obtain ⟨more, hmore⟩ := hwritten
  have hpast : (new role options keys).enlisted past <+:
      (new role options keys).enlisted (past ++ move :: after) := enlisted_isPrefix hrun
  have hqueue := (pings_sublist hrun).trans hpast.sublist
  rw [← hmore, hq, List.append_assoc, List.cons_append] at hqueue hdistinct
  obtain ⟨-, heq⟩ | ⟨earlier, x, later, hpings, hx, -, heq⟩ :=
    Ping.acknowledge_cases payload b.pings
  · rw [heq] at hacknowledged
    cases hacknowledged
  · rw [heq, List.mem_append, List.mem_singleton] at hacknowledged
    rw [hpings] at hqueue
    -- the ping that the pong echoes is the only one with its payload
    obtain rfl : x = q := List.inj_on_of_nodup_map hdistinct (hqueue.subset (by simp))
      (by simp) (hx.trans hecho.symm)
    rw [List.mem_append, List.mem_singleton]
    refine hacknowledged.imp_left fun hearlier => ?_
    refine mem_front_of_sublist hdistinct.of_map (List.Sublist.trans ?_ hqueue)
    exact (List.singleton_sublist.mpr hearlier).append
      (List.singleton_sublist.mpr List.mem_cons_self)

/-! ### Punctual runs -/

/-- **What becomes of the pings** of a run that begins at `start` and leads to a connection. -/
structure PingLedger (start : Connection) (moves : List Move) (c : Connection) : Prop where
  /-- The pings in the queue stand there in the order in which they were put into it. -/
  queued : c.pings.Sublist (start.enlisted moves)
  /-- A ping is in the queue as long as its waiter is pending. -/
  pending : ∀ w ∈ c.waiters, w.fate = .pending ↔ ∃ p ∈ c.pings, p.id = w.id
  /-- Pings are written in the same order, and none is left out. -/
  written : c.writtenPings <+: start.enlisted moves
  /-- The reader looks at every pong that it has read. -/
  heard : ∀ {rest f buffer c'}, c.script .reader = .readFrame :: rest →
    c.codec.decode c.buffer = .found f buffer → f.opcode = .pong →
      c.step (.act .reader) = some c' → c'.ponging? (.act .reader) = some f.payload
  /-- A pong acknowledges the first ping that it echoes and all pings in front of it. -/
  acknowledges : ∀ {move c' payload}, c.step move = some c' → c.ponging? move = some payload →
    Acknowledges payload c c'
  /-- Who is told of a pong is told of one that was looked at. If all pings have payloads of their
  own, a ping that the pong echoes was not written before the ping that is waited for. -/
  told : ∀ {id ping rest c' latency}, c.script (.call id) = .awaitPong ping :: rest →
    c.step (.act (.call id)) = some c' → c'.answer? id = some (.pong latency) →
      ∃ payload p time, Acknowledged start moves payload p time ∧ p.id = ping ∧
        (((start.enlisted moves).map Ping.payload).Nodup →
          ∀ {front q back}, c.writtenPings = front ++ q :: back → q.payload = payload →
            p ∈ front ++ [q])
  /-- A closed connection has no pings in its queue. -/
  empty : c.phase = .closed → c.pings = []
  /-- On a closed connection nobody waits for a pong, and who was not told of one before learns that
  the connection is closed. -/
  settled : c.phase = .closed → ∀ {id ping rest}, c.script (.call id) = .awaitPong ping :: rest →
    ∃ c' a, c.step (.act (.call id)) = some c' ∧ c'.answer? id = some a ∧
      (a = .failed .connectionClosed ∨ ∃ w time, c.waiter? ping = some w ∧
        w.fate = .acknowledged time ∧ a = .pong (time - w.sentAt))

/-- **What becomes of the pings** of a run in which tasks take turns and no ping is given up before
its call has ended. -/
theorem pingLedger_of_run (hrun : (new role options keys).run moves = some c)
    (h : (new role options keys).punctually moves = true) :
    PingLedger (new role options keys) moves c := by
  have hreach := (reachable_new role options keys).run hrun
  have hwritten := (lined_of_run hrun h).written
  have hempty := (emptied_of_run hrun h).empty
  refine
    { queued := pings_sublist hrun
      pending := hreach.matched.pending
      written := hwritten
      heard := resolves_of_reading
      acknowledges := acknowledges_of_ponging hreach
      told := ?_
      empty := hempty
      settled := ?_ }
  · intro id ping rest c' latency hscript hstep hanswer
    obtain ⟨a, ha, htells⟩ := tells_of_poll hscript hstep
    obtain rfl := Option.some.inj (ha.symm.trans hanswer)
    cases htells with
    | @pong w time hw hfate =>
        have hid : w.id = ping := by simpa using List.find?_some hw
        obtain ⟨payload, p, hacknowledged, hp⟩ :=
          pong_of_acknowledged hrun (List.mem_of_find?_eq_some hw) hfate
        exact ⟨payload, p, time, hacknowledged, hp.trans hid, fun hdistinct =>
          written_of_acknowledged hdistinct hwritten hacknowledged⟩
  · intro hclosed id ping rest hscript
    have hsettled : ∀ w ∈ c.waiters, w.fate ≠ .pending := fun w =>
      hreach.matched.not_pending (hempty hclosed)
    obtain ⟨c', hstep⟩ := poll_isSome hscript hsettled
    obtain ⟨a, ha, htells⟩ := tells_of_poll hscript hstep
    refine ⟨c', a, hstep, ha, ?_⟩
    cases htells with
    | pong hw hfate => exact .inr ⟨_, _, hw, hfate, rfl⟩
    | late hw hpending => exact absurd hpending (hsettled _ (List.mem_of_find?_eq_some hw))
    | lost => exact .inl rfl

/-- A run with **two pings at a time**: the second one waits for the lock while the first one is
written. A pong echoes the first one, and then the peer's stream ends. -/
def pingingMoves : List Move :=
  openingMoves ++
    [.collect 0, .start 1 (.ping [1]), .start 2 (.ping [2]), .act (.call 1), .act (.call 1),
      .act (.call 1), .act (.call 2), .act (.call 2), .act (.call 2), .act (.call 1),
      .act (.call 1), .act (.call 1), .act (.call 1), .act (.call 2), .act (.call 2),
      .act (.call 2), .act (.call 2), .act (.call 2), .peerSend [0x8A, 0x81, 0, 0, 0, 0, 1],
      .read 7, .act .reader, .act .reader, .act .reader, .peerEnd .ended, .act .reader,
      .act .reader]

/-- In that run tasks take turns, both pings are written, and the connection closes. -/
theorem ending_of_pingingMoves :
    (new .server {} fun _ => Mask.zero).punctually pingingMoves = true ∧
      ((new .server {} fun _ => Mask.zero).run pingingMoves).map
        (fun c => (c.phase, c.writtenPings)) = some (.closed, [⟨[1], 1⟩, ⟨[2], 2⟩]) := by
  decide +kernel

theorem pingLedger_of_pingingMoves :
    ∃ c, (new .server {} fun _ => Mask.zero).run pingingMoves = some c ∧ c.phase = .closed ∧
      c.writtenPings = [⟨[1], 1⟩, ⟨[2], 2⟩] ∧
        PingLedger (new .server {} fun _ => Mask.zero) pingingMoves c := by
  obtain ⟨hpunctual, hending⟩ := ending_of_pingingMoves
  obtain ⟨c, hrun, hc⟩ := Option.map_eq_some_iff.mp hending
  obtain ⟨hphase, hwritten⟩ := Prod.mk.inj hc
  exact ⟨c, hrun, hphase, hwritten, pingLedger_of_run hrun hpunctual⟩

end Connection

end WebSocket
