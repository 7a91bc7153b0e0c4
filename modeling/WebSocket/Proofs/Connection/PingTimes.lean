import WebSocket.Proofs.Connection.Opening
import WebSocket.Proofs.Connection.PingLedger

/-!
# When pongs come

The waiter of a ping knows when the ping was sent, when the time is over, and what has become of the
ping. That is settled by a pong that acknowledges the ping or by the end of the connection,
whichever comes first (`Connection.firstEnd?`), and **also when the time is over already**: of a
timeout is told only who looks at the waiter in between. So a waiter may tell of a pong that took
longer than the timeout, and what it tells may depend on when it is looked at. Whoever looks at it
no later than when the time is over is told what is true.

Here tasks take turns, and time does not pass while a ping is being written.

## Main results

* `Connection.waiter_of_step`: how a waiter **comes out of a move**.
* `Connection.followed_of_run`: what a waiter knows is **what has happened since the ping was
  sent**.
* `Connection.hearing_of_run`: **what a waiter tells**, and exactly when that is true.
-/

namespace WebSocket

/-- **What ends the wait** for a pong, and when: a pong that acknowledges the ping is looked at, or
the connection closes. -/
inductive WaitEnd where
  | pong (time : Nat)
  | close (time : Nat)
  deriving DecidableEq, Repr

namespace WaitEnd

variable {sentAt timeout latency : Nat} {first : Option WaitEnd} {e : WaitEnd}

def time : WaitEnd → Nat
  | pong time | close time => time

/-- What has become of a ping, by what came first. -/
def fate : Option WaitEnd → PingFate
  | none => .pending
  | some (.pong time) => .acknowledged time
  | some (.close _) => .lost

/-- What a waiter that does not wait any more **tells**, by what came first. -/
def told (sentAt : Nat) : Option WaitEnd → Answer
  | none => .failed .timeout
  | some (.pong time) => .pong (time - sentAt)
  | some (.close _) => .failed .connectionClosed

/-- What **is true** of a ping: what came first counts only if it came in time. -/
def verdict (sentAt timeout : Nat) (first : Option WaitEnd) : Answer :=
  told sentAt (first.filter fun e => e.time ≤ sentAt + timeout)

theorem fate_eq_pending : fate first = .pending ↔ first = none := by
  cases first with
  | none => simp [fate]
  | some e => cases e <;> simp [fate]

/-- What is told is true **exactly if** what came first came in time. -/
theorem told_eq_verdict_iff :
    told sentAt first = verdict sentAt timeout first ↔ ∀ e ∈ first, e.time ≤ sentAt + timeout := by
  cases first with
  | none => simp [verdict]
  | some e =>
      rw [verdict, Option.filter_some]
      by_cases hintime : e.time ≤ sentAt + timeout
      · simp [hintime]
      · cases e <;> simp [hintime, told]

/-- A latency **above the timeout** is told of a pong that came when the time was over. -/
theorem lt_of_told (htold : told sentAt first = .pong latency) (hover : timeout < latency) :
    ∃ time, first = some (.pong time) ∧ sentAt + timeout < time := by
  cases first with
  | none => cases htold
  | some e =>
      cases e with
      | close => cases htold
      | pong time =>
          obtain rfl := Answer.pong.inj htold
          exact ⟨time, rfl, by omega⟩

end WaitEnd

/-- Whether a script **will settle** what the waiter of its ping is to know: it lets the time begin,
or forgets the ping. -/
def Script.isSettling (script : Script) : Bool :=
  script.any fun
    | .startWaiting | .abandon => true
    | _ => false

namespace Connection

variable {c c' c₁ : Connection} {task : TaskId} {action : Action} {rest script : Script}
  {move : Move} {moves before : List Move} {role : Role} {options : Options} {keys : Nat → Mask}
  {p q : Ping} {w w' : Waiter} {sentAt : Nat} {first : Option WaitEnd}

/-! ### What ends the wait -/

/-- Whether a move **closes** the connection. -/
def closes (c : Connection) (move : Move) : Bool :=
  c.phase != .closed && (c.step move).any fun c' => c'.phase == .closed

/-- What a move does that **ends the wait** for the pong of a ping. -/
def waitEnd? (p : Ping) (c : Connection) (move : Move) : Option WaitEnd :=
  if (c.ponging? move).any fun payload => decide (p ∈ (Ping.acknowledge payload c.pings).1) then
    some (.pong c.now)
  else if c.closes move then some (.close c.now)
  else none

/-- What **came first** in the course of a run. -/
def firstEnd? (c : Connection) (p : Ping) (moves : List Move) : Option WaitEnd :=
  (c.trace (waitEnd? p) moves).head?

theorem closes_iff (hstep : c.step move = some c') :
    c.closes move = true ↔ c.phase ≠ .closed ∧ c'.phase = .closed := by
  simp [closes, hstep]

theorem waitEnd?_of_ponging {payload : Bytes} (hpong : c.ponging? move = some payload)
    (hp : p ∈ (Ping.acknowledge payload c.pings).1) : c.waitEnd? p move = some (.pong c.now) := by
  rw [waitEnd?, hpong, if_pos (by simpa using hp)]

/-- A move that neither looks at a pong of the ping nor closes the connection **ends no wait**. -/
theorem waitEnd?_eq_none (hstep : c.step move = some c')
    (hpong : ∀ payload, c.ponging? move = some payload →
      p ∉ (Ping.acknowledge payload c.pings).1)
    (hphase : c'.phase = .closed → c.phase = .closed) : c.waitEnd? p move = none := by
  rw [waitEnd?, if_neg, if_neg]
  · rw [closes_iff hstep]
    exact fun ⟨hopen, hclosed⟩ => hopen (hphase hclosed)
  · rw [Option.any_eq_true]
    rintro ⟨payload, hpayload, hp⟩
    exact hpong payload hpayload (of_decide_eq_true hp)

theorem waitEnd?_of_closing (hstep : c.step move = some c') (hpong : c.ponging? move = none)
    (hopen : c.phase ≠ .closed) (hclosed : c'.phase = .closed) :
    c.waitEnd? p move = some (.close c.now) := by
  rw [waitEnd?, hpong, Option.any_none, if_neg Bool.false_ne_true,
    if_pos ((closes_iff hstep).mpr ⟨hopen, hclosed⟩)]

/-- Whatever ends a wait **happens now**. -/
theorem time_of_waitEnd? {e : WaitEnd} (h : c.waitEnd? p move = some e) : e.time = c.now := by
  unfold waitEnd? at h
  split at h
  · cases h
    rfl
  · split at h
    · cases h
      rfl
    · cases h

theorem firstEnd?_concat (hrun : c.run before = some c₁) (hstep : c₁.step move = some c') :
    c.firstEnd? p (before ++ [move]) = (c.firstEnd? p before).or (c₁.waitEnd? p move) := by
  rw [firstEnd?, firstEnd?, trace_append hrun, trace_singleton hstep, List.head?_append]
  cases c₁.waitEnd? p move <;> rfl

/-! ### How a waiter comes out of a move -/

/-- No two pings have the same number. -/
theorem Matched.ping_eq (h : c.Matched) (hp : p ∈ c.pings) (hq : q ∈ c.pings)
    (hid : p.id = q.id) : p = q :=
  List.inj_on_of_nodup_map h.pings hp hq hid

/-- To look at a pong leaves the phase as it is. -/
theorem Transition.phase_of_ponging {payload : Bytes} (hmove : Transition c move c')
    (hpong : c.ponging? move = some payload) : c'.phase = c.phase := by
  obtain ⟨task, rest, rfl, hscript⟩ := ponging?_eq_some hpong
  cases hmove with
  | act hacts heffect =>
      rw [hscript] at hacts
      cases hacts
      cases heffect with
      | resolvePings => exact setScript_phase ..

/-- **How a waiter comes out of a move**: what settles its fate is what ends the wait for its ping,
unless the fate was settled before. -/
structure Waits (c : Connection) (move : Move) (w w' : Waiter) : Prop where
  id : w'.id = w.id
  sentAt : w'.sentAt = w.sentAt
  deadline : w'.deadline = w.deadline ∨ (c.script (.call w.id)).isPinging = true ∧
    w'.deadline = some (c.now + c.options.pingTimeout)
  settled : w.fate ≠ .pending → w'.fate = w.fate
  fate : ∀ p ∈ c.pings, p.id = w.id → w'.fate = WaitEnd.fate (c.waitEnd? p move)

/-- A move that ends no wait leaves a waiter **as it is**. -/
theorem Waits.refl (h : c.Matched) (hw : w ∈ c.waiters)
    (hnone : ∀ p ∈ c.pings, p.id = w.id → c.waitEnd? p move = none) : Waits c move w w where
  id := rfl
  sentAt := rfl
  deadline := .inl rfl
  settled := fun _ => rfl
  fate := fun p hp hid => by
    rw [hnone p hp hid, (h.pending w hw).mpr ⟨p, hp, hid⟩]
    rfl

/-- A pong takes pings **from the queue** only. -/
theorem mem_pings_of_acknowledge {payload : Bytes}
    (hq : q ∈ (Ping.acknowledge payload c.pings).1) : q ∈ c.pings := by
  obtain ⟨-, heq⟩ | ⟨front, x, back, hqueue, -, -, heq⟩ := Ping.acknowledge_cases payload c.pings
  · rw [heq] at hq
    cases hq
  · rw [heq] at hq
    rw [hqueue, ← List.singleton_append, ← List.append_assoc]
    exact List.mem_append_left _ hq

/-- A waiter whose ping **is settled by a move** was pending before. -/
theorem Waits.settle (h : c.Matched) (hw : w ∈ c.waiters) (hq : q ∈ c.pings) (hid : q.id = w.id)
    {fate : PingFate} (hfate : fate = WaitEnd.fate (c.waitEnd? q move)) :
    Waits c move w { w with fate := fate } where
  id := rfl
  sentAt := rfl
  deadline := .inl rfl
  settled := fun hsettled => absurd ((h.pending w hw).mpr ⟨q, hq, hid⟩) hsettled
  fate := fun p hp hid' => by
    obtain rfl := h.ping_eq hp hq (hid'.trans hid.symm)
    exact hfate

/-- Whoever waits **after a pong was looked at** waited before. -/
theorem waiter_of_ponging {payload : Bytes} (h : c.Matched) (hstep : c.step move = some c')
    (hpong : c.ponging? move = some payload) (hw' : w' ∈ c'.waiters) :
    ∃ w ∈ c.waiters, Waits c move w w' := by
  have hmove := transition_of_step hstep
  rw [(hmove.ponging hpong).2, Waiter.mem_settle] at hw'
  obtain ⟨hnot, hw⟩ | ⟨w, hw, ⟨q, hq, hid⟩, rfl⟩ := hw'
  · refine ⟨w', hw, .refl h hw fun p _ hid => waitEnd?_eq_none hstep (fun payload' heq hp => ?_) ?_⟩
    · obtain rfl := Option.some.inj (hpong.symm.trans heq)
      exact hnot p hp hid
    · rw [hmove.phase_of_ponging hpong]
      exact id
  · refine ⟨w, hw, .settle h hw (mem_pings_of_acknowledge hq) hid ?_⟩
    rw [waitEnd?_of_ponging hpong hq]
    rfl

/-- **Whoever waits after a move** waited before and comes out of it like this, or has just sent a
ping. -/
theorem waiter_of_step (hreach : Reachable c) (hempty : c.phase = .closed → c.pings = [])
    (hstep : c.step move = some c') (hw' : w' ∈ c'.waiters) :
    (∃ w ∈ c.waiters, Waits c move w w') ∨
      (∃ payload, c.enlisting? move = some ⟨payload, w'.id⟩) ∧
        w' = ⟨w'.id, c.now, none, .pending⟩ := by
  have hmatched := hreach.matched
  cases hpong : c.ponging? move with
  | some payload => exact .inl (waiter_of_ponging hmatched hstep hpong hw')
  | none =>
      -- a move that keeps the phase now settles the fate of no ping
      have hkept : (c'.phase = .closed → c.phase = .closed) → ∀ {w}, w ∈ c.waiters →
          Waits c move w w := by
        intro hphase w hw
        refine .refl hmatched hw fun p _ _ => waitEnd?_eq_none hstep (fun payload heq => ?_) hphase
        rw [hpong] at heq
        cases heq
      cases (transition_of_step hstep).pingChange with
      | keeps _ hwaiters hphase =>
          rw [hwaiters] at hw'
          exact .inl ⟨w', hw', hkept hphase hw'⟩
      | @waits id deadline _ hwaiters hphase _ hscript hdeadline =>
          obtain ⟨_, hscript⟩ := hscript
          rw [hwaiters] at hw'
          obtain ⟨w, hw, rfl⟩ := List.mem_map.mp hw'
          have hsame := hkept (by simp [hphase]) hw
          refine .inl ⟨w, hw, ?_⟩
          split
          · rename_i hid
            obtain rfl : w.id = id := by simpa using hid
            refine { hsame with deadline := .inr ⟨?_, hdeadline ▸ rfl⟩ }
            rw [hscript]
            rfl
          · exact hsame
      | forgets _ hwaiters hphase =>
          rw [hwaiters] at hw'
          have hw := List.mem_of_mem_filter hw'
          exact .inl ⟨w', hw, hkept (by simp [hphase]) hw⟩
      | @enlists id payload _ hmoved hscript _ hwaiters hphase =>
          subst hmoved
          rw [hwaiters, List.mem_append, List.mem_singleton] at hw'
          obtain hw | rfl := hw'
          · exact .inl ⟨w', hw, hkept (by simp [hphase]) hw⟩
          · refine .inr ⟨⟨payload, ?_⟩, rfl⟩
            rw [enlisting?, hscript]
            rfl
      | resolves hmoved hscript =>
          subst hmoved
          rw [ponging?, hscript] at hpong
          cases hpong
      | closes _ hwaiters hclosed =>
          rw [hwaiters, Waiter.mem_settle] at hw'
          obtain ⟨hnot, hw⟩ | ⟨w, hw, ⟨q, hq, hid⟩, rfl⟩ := hw'
          · exact .inl ⟨w', hw, .refl hmatched hw fun p hp hid => absurd hid (hnot p hp)⟩
          · have hopen : c.phase ≠ .closed := fun hover => by
              rw [hempty hover] at hq
              cases hq
            refine .inl ⟨w, hw, .settle hmatched hw hq hid ?_⟩
            rw [waitEnd?_of_closing hstep hpong hopen hclosed]
            rfl

/-! ### What the script of a ping still does -/

/-- An operation that **has a ping under way** after an action had it before. -/
theorem Effect.isPinging {id : Nat} (heffect : Effect c (.call id) action rest c₁ script)
    (h : c.Scripted) (hscript : c.script (.call id) = action :: rest)
    (hpinging : script.isPinging = true) : (c.script (.call id)).isPinging = true := by
  obtain ⟨_, claim, -, -, hcall⟩ := h.callScript hscript
  rw [hscript]
  have hwriting : ∀ {frames action'}, Writes frames .report action' →
      action = action' → rest = [.answer .done] → Script.isPinging (action :: rest) = true := by
    rintro frames _ hw rfl rfl
    obtain ⟨a, ha, rfl⟩ | rfl | ⟨e, rfl⟩ | ⟨e, rfl⟩ := hw.next heffect
    · cases ha <;> cases hpinging
    · cases hpinging
    · cases hpinging
    · cases hpinging
  cases hcall with
  | ordinary hordinary =>
      cases hordinary with
      | ping => rfl
      | enlisting => rfl
      | pinging _ hw => cases hw <;> rfl
      | pinged => rfl
      | sending hw => exact hwriting hw rfl rfl
      | closing _ hw => exact hwriting hw rfl rfl
      | _ => cases heffect <;> cases hpinging
  | connect => cases heffect <;> cases hpinging
  | accept => cases heffect <;> cases hpinging
  | negotiating hnegotiating =>
      obtain hafter | ⟨a, rfl⟩ := hnegotiating.next heffect
      · cases hafter <;> cases hpinging
      · cases hpinging

/-- An operation that has a ping under way after a move **had it before**, or begins under a number
that was not in use. -/
theorem Transition.isPinging {id : Nat} (hmove : Transition c move c') (h : c.Scripted)
    (hpinging : (c'.script (.call id)).isPinging = true) :
    (c.script (.call id)).isPinging = true ∨ c.isFresh id = true := by
  obtain ⟨task, action, rest, c₁, script, rfl, hscript, heffect, rfl⟩ | hact := hmove.act_or
  · obtain ⟨rfl, heq⟩ | ⟨-, heq⟩ | ⟨hreader, -⟩ := heffect.script_after hscript (.call id)
    · exact .inl (heffect.isPinging h hscript (heq ▸ hpinging))
    · exact .inl (heq ▸ hpinging)
    · cases hreader
  · obtain heq | heq | ⟨_, _, rfl, hid, -, -⟩ := hmove.script_of_ne_act hact (.call id)
    · exact .inl (heq ▸ hpinging)
    · rw [heq] at hpinging
      cases hpinging
    · obtain rfl := TaskId.call.inj hid
      cases hmove with
      | start hfresh => exact .inr hfresh

/-- The operation of a ping that has a waiter **goes on** until it lets the time begin or forgets
the ping. -/
theorem Effect.isSettling {id : Nat} (heffect : Effect c (.call id) action rest c₁ script)
    (h : c.Scripted) (hscript : c.script (.call id) = action :: rest)
    (hsettling : Script.isSettling (action :: rest) = true)
    (hwaiting : Script.enlists (action :: rest) = false) :
    Script.isSettling script = true ∨ ∀ w ∈ c₁.waiters, w.id = id → w.deadline ≠ none := by
  obtain ⟨_, claim, -, -, hcall⟩ := h.callScript hscript
  cases hcall with
  | ordinary hordinary =>
      cases hordinary with
      | ping => cases hwaiting
      | enlisting => cases hwaiting
      | pinging _ hw =>
          obtain ⟨a, ha, rfl⟩ | rfl | ⟨e, rfl⟩ | ⟨e, rfl⟩ := hw.next heffect
          · cases ha <;> exact .inl rfl
          · exact .inl rfl
          · exact .inl rfl
          · exact .inl rfl
      | pinged =>
          cases heffect with
          | startWaiting htask =>
              obtain rfl := TaskId.call.inj htask
              right
              intro w hw hid
              obtain ⟨v, -, rfl⟩ := List.mem_map.mp hw
              split
              · exact Option.some_ne_none _
              · rename_i hne
                rw [if_neg hne] at hid
                exact absurd (by simpa using hid) hne
          | startWaitingReader htask => cases htask
      | broken =>
          cases heffect with
          | markClosed => exact .inl rfl
      | failing =>
          cases heffect with
          | abandon htask =>
              obtain rfl := TaskId.call.inj htask
              right
              intro w hw hid
              simpa [hid] using (List.mem_filter.mp hw).2
          | abandonReader htask => cases htask
      | sending hw => cases hw <;> cases hsettling
      | closing _ hw => cases hw <;> cases hsettling
      | _ => cases hsettling
  | connect => cases hsettling
  | accept => cases hsettling
  | negotiating hnegotiating => cases hnegotiating <;> cases hsettling

/-- **No move stops** the operation of a ping that has a waiter before it lets the time begin or
forgets the ping. -/
theorem Transition.isSettling {id : Nat} (hmove : Transition c move c') (hreach : Reachable c)
    (hsettling : (c.script (.call id)).isSettling = true)
    (hwaiting : ∃ w ∈ c.waiters, w.id = id) :
    (c'.script (.call id)).isSettling = true ∨ ∀ w ∈ c'.waiters, w.id = id → w.deadline ≠ none := by
  have hbusy : c.script (.call id) ≠ [] := by
    intro hnil
    rw [hnil] at hsettling
    cases hsettling
  have henlisted : (c.script (.call id)).enlists = false := by
    obtain ⟨w, hw, hid⟩ := hwaiting
    exact Bool.eq_false_iff.mpr fun henlists => (hreach.matched.unused id henlists).2 w hw hid
  obtain ⟨task, action, rest, c₁, script, rfl, hscript, heffect, rfl⟩ | hact := hmove.act_or
  · obtain ⟨rfl, heq⟩ | ⟨-, heq⟩ | ⟨hreader, -⟩ := heffect.script_after hscript (.call id)
    · rw [heq, setScript_waiters]
      rw [hscript] at hsettling henlisted
      exact heffect.isSettling hreach.scripted hscript hsettling henlisted
    · exact .inl (heq ▸ hsettling)
    · cases hreader
  · obtain hkept | ⟨_, a, -, -, hended⟩ | ⟨_, hid, rfl, -⟩ | ⟨hreader, -⟩ :=
      hmove.kept_of_ne_act hact hbusy
    · exact .inl (hkept ▸ hsettling)
    · rw [hended] at hsettling
      cases hsettling
    · obtain rfl := TaskId.call.inj hid
      cases hmove with
      | giveUp =>
          right
          intro w hw hid
          simpa [hid] using (List.mem_filter.mp hw).2
    · cases hreader

/-! ### Runs in which writing takes no time -/

/-- The moves of tasks that **take turns**, where time passes only while no ping is being written.
-/
def isPrompt (c : Connection) : Move → Bool
  | .act task => c.othersPause task
  | .tick _ => c.calls.all fun call => !call.script.isPinging
  | _ => true

/-- The runs of which all moves are so. -/
def promptly (c : Connection) (moves : List Move) : Bool := c.always isPrompt moves

/-- Time does not pass while a ping is being written. -/
theorem now_of_isPinging {id : Nat} (hmove : Transition c move c')
    (hprompt : c.isPrompt move = true) (hpinging : (c.script (.call id)).isPinging = true) :
    c'.now = c.now := by
  cases hmove with
  | act _ heffect => rw [setScript_now, heffect.now_eq]
  | tick =>
      rw [isPrompt, List.all_eq_true] at hprompt
      rw [script_call] at hpinging
      cases hcall : c.call? id with
      | none =>
          rw [hcall] at hpinging
          cases hpinging
      | some call =>
          have hnot := hprompt call (mem_of_call? hcall)
          rw [hcall, Option.map_some, Option.getD_some] at hpinging
          rw [hpinging] at hnot
          cases hnot
  | _ => rfl

/-- The pings in the queue after a move were there before, or one has **just been put there**. -/
theorem Transition.mem_pings (hmove : Transition c move c') (hq : q ∈ c'.pings) :
    q ∈ c.pings ∨ c.enlisting? move = some q := by
  cases hmove.pingChange with
  | keeps hpings => exact .inl (hpings ▸ hq)
  | waits hpings => exact .inl (hpings ▸ hq)
  | forgets hpings => exact .inl (hpings ▸ hq)
  | resolves _ _ hpings => exact .inl ((acknowledge_sublist _ _).subset (hpings ▸ hq))
  | closes hpings =>
      rw [hpings] at hq
      cases hq
  | enlists hmoved hscript hpings =>
      subst hmoved
      rw [hpings, List.mem_append, List.mem_singleton] at hq
      obtain hq | rfl := hq
      · exact .inl ((awaited_sublist _ _).subset hq)
      · right
        rw [enlisting?, hscript]
        rfl

/-- A ping is put into the queue under **a number that nobody waits under**. -/
theorem Matched.id_ne_of_enlisting (h : c.Matched) (hw : w ∈ c.waiters)
    (hq : c.enlisting? move = some q) : q.id ≠ w.id := by
  obtain ⟨rest, -, hscript⟩ := enlisting?_eq_some hq
  exact fun hid => (h.unused q.id (by rw [hscript]; rfl)).2 w hw hid.symm

/-- In the course of a run **a ping was sent** at a given time, and none under its number later.
Behind that there came first what is given. -/
inductive SentAt (start : Connection) (moves : List Move) (p : Ping) (sentAt : Nat)
    (first : Option WaitEnd) : Prop
  | during {before after : List Move} {move : Move} {b b' : Connection}
      (hmoves : moves = before ++ move :: after) (hrun : start.run before = some b)
      (hsent : b.enlisting? move = some p) (htime : sentAt = b.now)
      (hstep : b.step move = some b') (hlast : ∀ q ∈ b'.enlisted after, q.id ≠ p.id)
      (hfirst : first = b'.firstEnd? p after)

/-- **What a waiter knows** of its ping: when it was sent, and what came first since then. While it
does not know when the time is over, the ping is still being written, or is about to be forgotten.
-/
structure Followed (c : Connection) (w : Waiter) (p : Ping) (began : Nat) (first : Option WaitEnd) :
    Prop where
  id : p.id = w.id
  alone : ∀ q ∈ c.pings, q.id = p.id → q = p
  sentAt : w.sentAt = began
  fate : w.fate = WaitEnd.fate first
  deadline : ∀ deadline ∈ w.deadline, deadline = began + c.options.pingTimeout
  settling : w.deadline = none → (c.script (.call w.id)).isSettling = true
  clock : (c.script (.call w.id)).isPinging = true → c.now = began
  past : began ≤ c.now ∧ ∀ e ∈ first, began ≤ e.time ∧ e.time ≤ c.now

/-- A waiter goes on to know what has happened. -/
theorem Followed.step (h : c.Followed w p sentAt first) (hreach : Reachable c)
    (hprompt : c.isPrompt move = true) (hstep : c.step move = some c') (hw : w ∈ c.waiters)
    (hw' : w' ∈ c'.waiters) (hwaits : Waits c move w w') :
    c'.Followed w' p sentAt (first.or (c.waitEnd? p move)) := by
  have hmove := transition_of_step hstep
  have hmatched := hreach.matched
  have hlater := hmove.now_le
  refine ⟨h.id.trans hwaits.id.symm, ?_, hwaits.sentAt.trans h.sentAt, ?_, ?_, ?_, ?_, ?_⟩
  · intro q hq hid
    obtain hq | hnew := hmove.mem_pings hq
    · exact h.alone q hq hid
    · exact absurd (hid.trans h.id) (hmatched.id_ne_of_enlisting hw hnew)
  · cases first with
    | none =>
        have hpending : w.fate = .pending := h.fate
        obtain ⟨q, hq, hid⟩ := (hmatched.pending w hw).mp hpending
        obtain rfl := h.alone q hq (hid.trans h.id.symm)
        rw [hwaits.fate q hq hid, Option.none_or]
    | some e =>
        rw [Option.some_or, ← h.fate]
        refine hwaits.settled fun hpending => ?_
        rw [h.fate, WaitEnd.fate_eq_pending] at hpending
        cases hpending
  · intro deadline hdeadline
    rw [hmove.settings.2]
    obtain hsame | ⟨hpinging, hnew⟩ := hwaits.deadline
    · exact h.deadline deadline (hsame ▸ hdeadline)
    · rw [hnew, Option.mem_some_iff] at hdeadline
      rw [← hdeadline, h.clock hpinging]
  · intro hnone
    have hbefore : w.deadline = none := by
      obtain hsame | ⟨-, hnew⟩ := hwaits.deadline
      · exact hsame.symm.trans hnone
      · rw [hnew] at hnone
        cases hnone
    obtain hafter | hnot := hmove.isSettling hreach (h.settling hbefore) ⟨w, hw, rfl⟩
    · rwa [hwaits.id]
    · exact absurd hnone (hnot w' hw' hwaits.id)
  · intro hpinging
    rw [hwaits.id] at hpinging
    obtain hbefore | hfresh := hmove.isPinging hreach.scripted hpinging
    · rw [now_of_isPinging hmove hprompt hbefore, h.clock hbefore]
    · simp only [isFresh, Bool.and_eq_true, List.all_eq_true, bne_iff_ne] at hfresh
      exact absurd rfl (hfresh.1.2 w hw)
  · refine ⟨Nat.le_trans h.past.1 hlater, fun e he => ?_⟩
    obtain he | ⟨-, he⟩ := Option.or_eq_some_iff.mp he
    · obtain ⟨hafter, hbefore⟩ := h.past.2 e he
      exact ⟨hafter, Nat.le_trans hbefore hlater⟩
    · rw [time_of_waitEnd? he]
      exact ⟨h.past.1, hlater⟩

/-- A ping that was sent **stays the last one under its number** while no other one is sent. -/
theorem SentAt.concat {start : Connection} (h : SentAt start before p sentAt first)
    (hrun : start.run before = some c) (hstep : c.step move = some c')
    (hother : ∀ q, c.enlisting? move = some q → q.id ≠ p.id) :
    SentAt start (before ++ [move]) p sentAt (first.or (c.waitEnd? p move)) := by
  obtain @⟨past, after, sending, b, b', rfl, hpast, hsent, htime, hsending, hlast, rfl⟩ := h
  have hafter : b'.run after = some c := by
    obtain ⟨x, hx, hrest⟩ := run_append_eq_some.mp hrun
    obtain rfl := Option.some.inj (hpast.symm.trans hx)
    obtain ⟨y, hy, hrest⟩ := run_cons_eq_some.mp hrest
    obtain rfl := Option.some.inj (hsending.symm.trans hy)
    exact hrest
  have hmoves : (past ++ sending :: after) ++ [move] = past ++ sending :: (after ++ [move]) := by
    simp
  refine .during hmoves hpast hsent htime hsending ?_ (firstEnd?_concat hafter hstep).symm
  intro q hq
  rw [enlisted_concat hafter hstep, List.mem_append, Option.mem_toList] at hq
  exact hq.elim (hlast q) (hother q)

/-- Behind a ping that is put into the queue its operation **goes on to write it**. -/
theorem isSettling_of_enlisting (hreach : Reachable c) (hp : c.enlisting? move = some p)
    (hstep : c.step move = some c') : (c'.script (.call p.id)).isSettling = true := by
  obtain ⟨rest, rfl, hscript⟩ := enlisting?_eq_some hp
  obtain ⟨c₁, script, hperform, rfl, hafter⟩ := perform_of_step hstep hscript
  obtain ⟨_, claim, -, -, hcall⟩ := hreach.scripted.callScript hscript
  rw [hafter]
  cases hcall with
  | ordinary hordinary =>
      cases hordinary with
      | enlisting =>
          cases effect_of_perform hperform with
          | enlist => rfl
          | enlistReader htask => cases htask
      | sending hw => cases hw
      | pinging _ hw => cases hw
      | closing _ hw => cases hw
  | negotiating hnegotiating => cases hnegotiating

/-- Who has **just sent a ping** knows that nothing has come yet. -/
theorem followed_of_enlisting (hreach : Reachable c) (hp : c.enlisting? move = some p)
    (hstep : c.step move = some c') : c'.Followed ⟨p.id, c.now, none, .pending⟩ p c.now none := by
  have hmove := transition_of_step hstep
  have hnow : c'.now = c.now := by
    obtain ⟨_, rfl, -⟩ := enlisting?_eq_some hp
    cases hmove with
    | act _ heffect => rw [setScript_now, heffect.now_eq]
  have hqueued : p ∈ c'.pings := by
    obtain ⟨_, rfl, hscript⟩ := enlisting?_eq_some hp
    cases hmove with
    | act hacts heffect =>
        rw [hscript] at hacts
        cases hacts
        cases heffect with
        | enlist htask =>
            obtain rfl := TaskId.call.inj htask
            rw [setScript_pings]
            exact List.mem_append_right _ (List.mem_singleton_self _)
        | enlistReader htask => cases htask
  exact
    { id := rfl
      alone := fun q hq hid => (hreach.step hstep).matched.ping_eq hq hqueued hid
      sentAt := rfl
      fate := rfl
      deadline := nofun
      settling := fun _ => isSettling_of_enlisting hreach hp hstep
      clock := fun _ => hnow
      past := ⟨Nat.le_of_eq hnow.symm, nofun⟩ }

/-- In a run in which writing takes no time, every waiter **knows what has happened** to its ping.
-/
theorem followed_of_run (hrun : (new role options keys).run moves = some c)
    (h : (new role options keys).promptly moves = true) (hw : w ∈ c.waiters) :
    ∃ p began first, SentAt (new role options keys) moves p began first ∧
      c.Followed w p began first := by
  refine (always_induction (P := fun moves x => x.Emptied ∧ ∀ w ∈ x.waiters, ∃ p began first,
    SentAt (new role options keys) moves p began first ∧ x.Followed w p began first)
    ⟨⟨fun _ => rfl, fun h => by cases h⟩, fun _ hw => absurd hw List.not_mem_nil⟩ ?_ hrun h).2 w hw
  intro before c₁ move c₂ hbefore ⟨hemptied, ih⟩ hprompt hstep
  have hreach := (reachable_new role options keys).run hbefore
  refine ⟨hemptied.transition hreach (transition_of_step hstep) ?_, fun w' hw' => ?_⟩
  · rintro task rfl
    exact hprompt
  · obtain ⟨w, hw, hwaits⟩ | ⟨⟨payload, hnew⟩, heq⟩ :=
      waiter_of_step hreach hemptied.empty hstep hw'
    · obtain ⟨p, began, first, hsent, hfollowed⟩ := ih w hw
      refine ⟨p, began, _, hsent.concat hbefore hstep fun q hq => ?_,
        hfollowed.step hreach hprompt hstep hw hw' hwaits⟩
      rw [hfollowed.id]
      exact hreach.matched.id_ne_of_enlisting hw hq
    · refine ⟨_, _, none, .during rfl hbefore hnew rfl hstep nofun rfl, ?_⟩
      rw [heq]
      exact followed_of_enlisting hreach hnew hstep

/-! ### What is told -/

/-- Whoever looks at the waiter of a ping is told what the waiter **says at this time**, or has to
wait. -/
theorem step_of_awaiting {id ping : Nat} (hscript : c.script (.call id) = .awaitPong ping :: rest)
    (hw : c.waiter? ping = some w) :
    c.step (.act (.call id)) = (w.outcome? c.now).map fun outcome =>
      (c.forget ping).setScript (.call id) [.answer (match outcome with
        | .ok latency => .pong latency
        | .error e => .failed e)] := by
  simp only [step, act, hscript, perform, hw]
  cases w.outcome? c.now with
  | none => rfl
  | some outcome => cases outcome <;> rfl

/-- **What the waiter of a ping tells** that was sent at a given time and waits for as long as
given, by what has come first until now. -/
structure Hearing (c : Connection) (ping began timeout : Nat) (first : Option WaitEnd) : Prop where
  /-- Whoever looks at it is told what has come first, or that the time is over. -/
  told : ∀ {id rest c'}, c.script (.call id) = .awaitPong ping :: rest →
    c.step (.act (.call id)) = some c' → c'.answer? id = some (WaitEnd.told began first)
  /-- To wait has only who looks while nothing has come and the time is not over. -/
  waits : ∀ {id rest}, c.script (.call id) = .awaitPong ping :: rest →
    (c.step (.act (.call id)) = none ↔ first = none ∧ c.now < began + timeout)
  /-- What is told is true exactly if what came first came in time. -/
  truly : WaitEnd.told began first = WaitEnd.verdict began timeout first ↔
    ∀ e ∈ first, e.time ≤ began + timeout
  /-- Whoever looks before the time is over is told what is true. -/
  early : c.now ≤ began + timeout →
    WaitEnd.told began first = WaitEnd.verdict began timeout first
  /-- A latency above the timeout is told of nothing but a pong that came when the time was over. -/
  above : ∀ {latency}, WaitEnd.told began first = .pong latency → timeout < latency →
    ∃ time, first = some (.pong time) ∧ began + timeout < time ∧ time ≤ c.now

/-- Who waits in front of a waiter that knows what has happened is told **what came first**. -/
theorem Followed.told (h : c.Followed w p sentAt first) (hw : c.waiter? p.id = some w) {id : Nat}
    (hscript : c.script (.call id) = .awaitPong p.id :: rest)
    (hstep : c.step (.act (.call id)) = some c') :
    c'.answer? id = some (WaitEnd.told sentAt first) := by
  obtain ⟨a, ha, htells⟩ := tells_of_poll hscript hstep
  have hfate := h.fate
  rw [ha]
  cases htells with
  | pong hw' hpong =>
      obtain rfl := Option.some.inj (hw.symm.trans hw')
      rw [hpong] at hfate
      rw [h.sentAt]
      cases first with
      | none => cases hfate
      | some e =>
          cases e with
          | pong => rw [PingFate.acknowledged.inj hfate]; rfl
          | close => cases hfate
  | late hw' hpending =>
      obtain rfl := Option.some.inj (hw.symm.trans hw')
      rw [WaitEnd.fate_eq_pending.mp (hfate.symm.trans hpending)]
      rfl
  | lost hlost =>
      rw [hlost w hw] at hfate
      cases first with
      | none => cases hfate
      | some e =>
          cases e with
          | pong => cases hfate
          | close => rfl

/-- What a waiter tells once its ping **has been written**. -/
theorem Followed.hearing (h : c.Followed w p sentAt first) (hw : c.waiter? p.id = some w)
    (hover : (c.script (.call p.id)).isSettling = false) :
    c.Hearing p.id sentAt c.options.pingTimeout first where
  told := h.told hw
  waits := fun {id rest} hscript => by
    have hdeadline : w.deadline = some (sentAt + c.options.pingTimeout) := by
      cases hd : w.deadline with
      | none =>
          have hsettling := h.settling hd
          rw [← h.id, hover] at hsettling
          cases hsettling
      | some deadline => rw [h.deadline deadline hd]
    rw [step_of_awaiting hscript hw, Option.map_eq_none_iff, Waiter.outcome?, h.fate, hdeadline]
    cases first with
    | none => simp [WaitEnd.fate]
    | some e => cases e <;> simp [WaitEnd.fate]
  truly := WaitEnd.told_eq_verdict_iff
  early := fun hearly =>
    WaitEnd.told_eq_verdict_iff.mpr fun e he => Nat.le_trans (h.past.2 e he).2 hearly
  above := fun htold habove => by
    obtain ⟨time, rfl, hlate⟩ := WaitEnd.lt_of_told htold habove
    exact ⟨time, rfl, hlate, (h.past.2 _ rfl).2⟩

/-- **What a waiter tells.** In a run in which tasks take turns and writing takes no time, every
waiter that somebody has whose ping was written is that of a ping of the run, and what it tells is
what came first since the ping was sent, in time or not. -/
theorem hearing_of_run (hrun : (new role options keys).run moves = some c)
    (h : (new role options keys).promptly moves = true) {ping : Nat}
    (hwaiter : (c.waiter? ping).isSome = true) (hover : c.call? ping = none) :
    ∃ p began first, p.id = ping ∧ SentAt (new role options keys) moves p began first ∧
      c.Hearing ping began options.pingTimeout first := by
  obtain ⟨w, hw⟩ := Option.isSome_iff_exists.mp hwaiter
  obtain ⟨p, began, first, hsent, hfollowed⟩ :=
    followed_of_run hrun h (List.mem_of_find?_eq_some hw)
  have hid : p.id = ping := hfollowed.id.trans (by simpa using List.find?_some hw)
  subst hid
  have hsettled : (c.script (.call p.id)).isSettling = false := by
    rw [script_call, hover]
    rfl
  have hoptions : c.options = options := (settings_of_run (reachable_new role options keys) hrun).2
  exact ⟨p, began, first, rfl, hsent, hoptions ▸ hfollowed.hearing hw hsettled⟩

/-- A run in which a pong comes **after the time is over**, and before anybody has looked at the
waiter. -/
def lateMoves : List Move :=
  openingMoves ++
    [.collect 0, .start 1 (.ping [1]), .act (.call 1), .act (.call 1), .act (.call 1),
      .act (.call 1), .act (.call 1), .act (.call 1), .act (.call 1), .collect 1, .tick 30000,
      .peerSend [0x8A, 0x81, 0, 0, 0, 0, 1], .read 7, .act .reader, .act .reader, .act .reader,
      .start 2 (.awaitPong 1)]

/-- Who looks at the waiter then is told of the pong. -/
theorem answer_of_lateMoves :
    (new .server {} fun _ => Mask.zero).promptly (lateMoves ++ [.act (.call 2)]) = true ∧
      ((new .server {} fun _ => Mask.zero).run (lateMoves ++ [.act (.call 2)])).map
        (fun c => c.answer? 2) = some (some (.pong 30000)) := by
  decide +kernel

/-- So a waiter may tell of a pong that took **longer than the timeout**. -/
theorem not_within_timeout :
    ¬ ∀ (role : Role) (options : Options) (keys : Nat → Mask) (moves : List Move) (c : Connection)
      (id latency : Nat), (new role options keys).run moves = some c →
        (new role options keys).promptly moves = true → c.answer? id = some (.pong latency) →
          latency ≤ options.pingTimeout := by
  intro h
  obtain ⟨hprompt, hanswer⟩ := answer_of_lateMoves
  obtain ⟨c, hrun, hc⟩ := Option.map_eq_some_iff.mp hanswer
  exact absurd (h _ _ _ _ c 2 30000 hrun hprompt hc) (by decide)

/-- In that run the ping was written, and somebody has its waiter. -/
theorem waiter_of_lateMoves :
    (new .server {} fun _ => Mask.zero).promptly lateMoves = true ∧
      ((new .server {} fun _ => Mask.zero).run lateMoves).map
        (fun c => ((c.waiter? 1).isSome, (c.call? 1).isNone)) = some (true, true) := by
  decide +kernel

theorem hearing_of_lateMoves :
    ∃ c, (new .server {} fun _ => Mask.zero).run lateMoves = some c ∧
      ∃ p began first, p.id = 1 ∧
        SentAt (new .server {} fun _ => Mask.zero) lateMoves p began first ∧
          c.Hearing 1 began 20000 first := by
  obtain ⟨hprompt, hending⟩ := waiter_of_lateMoves
  obtain ⟨c, hrun, hc⟩ := Option.map_eq_some_iff.mp hending
  obtain ⟨hwaiter, hover⟩ := Prod.mk.inj hc
  exact ⟨c, hrun, hearing_of_run hrun hprompt hwaiter (Option.isNone_iff_eq_none.mp hover)⟩

end Connection

end WebSocket
