import WebSocket.Proofs.Close.Payload
import WebSocket.Proofs.Connection.Closers
import WebSocket.Proofs.Connection.Deliveries
import WebSocket.Proofs.Connection.Greetings
import WebSocket.Proofs.Connection.Lifecycle
import WebSocket.Proofs.Connection.Steady

/-!
# The course of a connection

A connection that was opened, that nobody tears down and whose tasks take turns is followed here
from its beginning to any later moment (`Connection.Course`). What it has handed to its writer are
messages, pings and pongs, and behind them perhaps one close frame. With the close frame everything
is said: nobody has more to write, and once all bytes have gone out, no more will come.

## Main results

* `Connection.Course.signs`: the close frame is the **last frame**, behind whole messages, pings and
  pongs.
* `Connection.Course.stopped_iff`: the frames of a connection **tell of its end** exactly when the
  close frame is among them.
* `Connection.Course.spent_step`: a connection that has sent everything **stays silent**.
-/

namespace WebSocket

/-! ### Hauls and close frames -/

/-- Whoever takes the lock takes it with **a frame at least**. -/
theorem Haul.Regular.frames_ne_nil {haul : Haul} (h : haul.Regular) : haul.frames ≠ [] := by
  cases h with
  | @message m size =>
      obtain ⟨first, parts, -, heq, -⟩ := m.fragments_eq size
      rw [heq]
      exact List.cons_ne_nil _ _
  | ping | pong => exact List.cons_ne_nil _ _

/-- Frames in front of any close frame come from **regular hauls**. -/
theorem Haul.exists_regular {hauls : List Haul} (h : ∀ haul ∈ hauls, haul.Proper)
    {frames : List Frame} (hfront : frames <+: hauls.flatMap Haul.frames)
    (hnot : ∀ f ∈ frames, f.isClose = false) :
    ∃ earlier, earlier <+: hauls ∧ (∀ haul ∈ earlier, haul.Regular) ∧
      frames <+: earlier.flatMap Haul.frames := by
  induction hauls generalizing frames with
  | nil => exact ⟨[], List.nil_prefix, nofun, hfront⟩
  | cons haul more ih =>
      by_cases hempty : frames = []
      · exact ⟨[], List.nil_prefix, nofun, hempty ▸ List.nil_prefix⟩
      rw [List.flatMap_cons] at hfront
      obtain hregular | ⟨status, rfl⟩ := h haul (List.mem_cons_self ..)
      · obtain hwithin | ⟨rest, rfl⟩ :=
          List.prefix_or_prefix_of_prefix hfront (List.prefix_append haul.frames _)
        · refine ⟨[haul], List.prefix_append [haul] more, ?_, ?_⟩
          · exact fun x hx => List.mem_singleton.mp hx ▸ hregular
          · rw [List.flatMap_singleton]
            exact hwithin
        · obtain ⟨earlier, hearlier, hall, hin⟩ :=
            ih (fun x hx => h x (List.mem_cons_of_mem _ hx))
              ((List.prefix_append_right_inj _).mp hfront)
              fun f hf => hnot f (List.mem_append_right _ hf)
          refine ⟨haul :: earlier, List.cons_prefix_cons.mpr ⟨rfl, hearlier⟩, ?_, ?_⟩
          · exact List.forall_mem_cons.mpr ⟨hregular, hall⟩
          · rw [List.flatMap_cons]
            exact (List.prefix_append_right_inj _).mpr hin
      · cases frames with
        | nil => exact absurd rfl hempty
        | cons f frames =>
            obtain ⟨rfl, -⟩ := List.cons_prefix_cons.mp hfront
            exact nomatch (hnot (Frame.close status) (List.mem_cons_self ..)).symm.trans rfl

/-- The close frame comes **behind whole hauls**, all of them regular, and is the last frame. -/
theorem Haul.split_of_isClose {hauls : List Haul} (h : ∀ haul ∈ hauls, haul.Proper)
    {front : List Frame} {f : Frame} (hframes : hauls.flatMap Haul.frames = front ++ [f])
    (hclose : f.isClose = true) (hnot : ∀ x ∈ front, x.isClose = false) :
    ∃ earlier : List Haul, (∀ haul ∈ earlier, haul.Regular) ∧
      earlier.flatMap Haul.frames = front ∧
        earlier.filterMap Haul.message? = hauls.filterMap Haul.message? := by
  obtain ⟨earlier, ⟨more, rfl⟩, hregular, hin⟩ :=
    exists_regular h (hframes ▸ List.prefix_append front [f]) hnot
  have hfront : earlier.flatMap Haul.frames = front := by
    have hle : earlier.flatMap Haul.frames <+: front ++ [f] := by
      rw [← hframes, List.flatMap_append]
      exact List.prefix_append _ _
    obtain hall | hle := List.prefix_concat_iff.mp hle
    · obtain ⟨haul, hhaul, hf⟩ := List.mem_flatMap.mp (hall ▸ List.mem_concat_self)
      exact nomatch hclose.symm.trans ((hregular haul hhaul).isClose_eq_false hf)
    · exact hle.eq_of_length_le hin.length_le
  refine ⟨earlier, hregular, hfront, ?_⟩
  rw [List.flatMap_append, hfront] at hframes
  have hmore : more.flatMap Haul.frames = [f] := List.append_cancel_left hframes
  have hquiet : more.filterMap Haul.message? = [] := by
    refine List.filterMap_eq_nil_iff.mpr fun haul hhaul => ?_
    obtain hlast | ⟨status, rfl⟩ := h haul (List.mem_append_right _ hhaul)
    · obtain ⟨g, hg⟩ := List.exists_mem_of_ne_nil _ hlast.frames_ne_nil
      have hmem : g ∈ more.flatMap Haul.frames := List.mem_flatMap.mpr ⟨haul, hhaul, hg⟩
      rw [hmore, List.mem_singleton] at hmem
      subst hmem
      exact nomatch hclose.symm.trans (hlast.isClose_eq_false hg)
    · rfl
  rw [List.filterMap_append, hquiet, List.append_nil]

/-- No event of a regular haul is **the end** of the connection. -/
theorem Haul.Regular.event?_ne_close {haul : Haul} (h : haul.Regular)
    (status : Option Close.Status) :    haul.event? ≠ some (.close status) := by
  cases h with
  | message | ping | pong => exact fun heq => nomatch Option.some.inj heq

/-- What a task still has to hand over are **all frames** that it will write. -/
theorem Script.cargo_of_feeding? {script : Script} {frames : List Frame}
    (h : script.feeding? = some frames) : script.cargo = frames := by
  match script with
  | .feed _ _ :: _ => exact Option.some.inj h

namespace Outlook

/-- What ends in front of the end of all **ends there**. -/
theorem stopped_andThen (o : Outlook) {next : Outlook} (h : next.stopped = true) :
    (o.andThen next).stopped = true := by
  unfold andThen
  split
  · assumption
  · exact h

/-- A close frame tells **what arrives** of its status, and stops the stream. -/
theorem ofFrames_close (a : Assembly) (status : Option Close.Status) :
    ofFrames a [Frame.close status] none =
      last (.ok (.close (status.map Close.Status.received))) := by
  rw [ofFrames, a.feed_control rfl]
  cases status with
  | none => rfl
  | some s =>
      have hparse : Close.parse (Frame.close (some s)).payload = .ok (.status s.received) :=
        Close.parse_payload s
      rw [ofAssembled, ofControl, hparse]
      rfl

end Outlook

namespace Connection

variable {c c' c₁ : Connection} {task : TaskId} {action : Action} {rest script : Script}
  {move : Move} {moves : List Move} {role : Role} {options : Options} {keys : Nat → Mask}

/-- A reader that winds up has **nothing more to tell**, and nothing more to look at. -/
theorem ReaderScript.outlook_of_isOver {script : Script} (h : ReaderScript script)
    (hover : script.isOver = true) : script.outlook = ⟨[], true⟩ ∧ script.ahead = [] := by
  cases h with
  | ended | releasing | shutting => exact ⟨rfl, rfl⟩
  | ponging _ hw => cases hw <;> cases hover
  | closing hw => cases hw <;> cases hover
  | _ => cases hover

/-- A reader that sets about the end **does not read on**. -/
theorem ReaderScript.stopped_of_closes (h : ReaderScript (action :: rest))
    (haction : action = .beginClosing ∨ action = .followClosing) :
    (Script.outlook (action :: rest)).stopped = true := by
  cases h with
  | following => rfl
  | ponging _ hw => cases hw <;> simp at haction
  | closing hw => cases hw <;> simp at haction
  | _ => simp at haction

/-- Nobody who has told a reader to stop **takes it back**. -/
theorem uncancelled_of_run (hrun : c.run moves = some c') (h : c'.cancelled = false) :
    c.cancelled = false := by
  refine run_induction (P := fun _ x => x.cancelled = false → c.cancelled = false) id ?_ hrun h
  intro before c₁ move c₂ _ ih hstep h
  exact ih ((transition_of_step hstep).uncancelled h)

/-- A connection that lives and stays has **not been left**. -/
theorem Living.not_left (h : c.Living) (hreach : Reachable c) (hparting : c.Parting)
    (hstay : c.Staying) : c.transport.shut = false ∧ c.released = false := by
  have hphase : c.phase ≠ .closed := fun hclosed => by
    have hending := hstay.phase
    rw [hclosed] at hending
    cases hending
  refine ⟨Bool.eq_false_iff.mpr fun hshut => hphase (hparting.shut (.inl hshut)).2, ?_⟩
  cases hstage : c.stage with
  | handshake | negotiating => rw [released, hstage]
  | done => exact absurd hstage hstay.stage
  | running =>
      refine Bool.eq_false_iff.mpr fun hleft => hphase ?_
      rw [released, hstage] at hleft
      simp only [Bool.and_eq_true] at hleft
      exact h.closed_of_ended (hreach.staged.begun hstage) (List.isEmpty_iff.mp hleft.1.1)

/-- **The course of a connection**: a run in which it was opened, the peer is there to be written
to, nobody tells the reader to stop, and tasks take turns. -/
structure Course (role : Role) (options : Options) (keys : Nat → Mask) (moves : List Move)
    (c : Connection) : Prop where
  run : (new role options keys).run moves = some c
  opened : ∃ before after c₀, moves = before ++ after ∧
    (new role options keys).run before = some c₀ ∧ c₀.phase = .opened
  courteous : (new role options keys).courteously moves = true
  greetsOnce : ∀ move ∈ moves, move.greetsOnce options = true
  unbroken : c.transport.broken = false
  uncancelled : c.cancelled = false

/-- A connection that **has sent its close frame**. -/
def Signed (c : Connection) : Prop := ∃ status, Frame.close status ∈ c.sentFrames

/-- The bytes that are **still to go out**. -/
def pending (c : Connection) : Bytes := c.transport.outgoing ++ c.held

/-- A connection that **has sent everything**, its close frame included. -/
def Spent (c : Connection) : Prop := c.Signed ∧ c.pending = []

/-- A frame that a task has handed over is one of **the frames of the connection**. -/
theorem mem_sentFrames_of_sentBy {f : Frame} (h : f ∈ c.sentBy task) : f ∈ c.sentFrames := by
  rw [sentBy, List.mem_reverse] at h
  obtain ⟨s, hs, rfl⟩ := List.mem_map.mp h
  exact List.mem_reverse.mpr (List.mem_map_of_mem (List.mem_filter.mp hs).1)

namespace Course

theorem reach (h : Course role options keys moves c) : Reachable c :=
  (reachable_new role options keys).run h.run

theorem settings (h : Course role options keys moves c) : c.role = role ∧ c.options = options :=
  settings_of_run (reachable_new role options keys) h.run

theorem openedFirst (h : Course role options keys moves c) :
    OpenedFirst (new role options keys) moves c :=
  fun _ => h.opened

theorem living (h : Course role options keys moves c) : c.Living :=
  living_of_run h.run h.openedFirst h.unbroken h.uncancelled

theorem outgoing (h : Course role options keys moves c) :
    Outgoing (new role options keys) moves c :=
  outgoing_of_run h.run h.courteous h.openedFirst h.unbroken h.uncancelled

theorem endedBy (h : Course role options keys moves c) :
    EndedBy moves ((new role options keys).closers moves) c :=
  endedBy_of_run h.run h.courteous h.openedFirst h.unbroken h.uncancelled

theorem orderly (h : Course role options keys moves c) : c.Orderly fun _ => False :=
  orderly_of_courteously h.run h.courteous

/-- All accounts of the reader are kept. -/
theorem accounts (h : Course role options keys moves c) :
    c.Intact ∧ (∃ head stream, Handshake.headProgress options.maxHandshakeSize
      (peerBytes moves) = .done head stream ∧ Telling stream c) ∧
        (∃ (start : Connection) (own : List Move), start.run own = some c ∧
          Replying (start.looks own) c) ∧ c.Releasing := by
  obtain ⟨before, after, c₀, rfl, hbefore, hopen⟩ := h.opened
  exact accounts_of_opened h.run hbefore hopen h.unbroken h.uncancelled

theorem begun (h : Course role options keys moves c) : c.phase ≠ .connecting :=
  h.reach.staged.begun h.accounts.1.running

/-- What was written in the handshake is **one head**. -/
theorem isHead (h : Course role options keys moves c) :
    Handshake.IsHead ((new role options keys).greetings moves) :=
  (greeting_of_run h.run h.greetsOnce).running h.accounts.1.running

/-! ### Behind the close frame -/

/-- The close frame is the **last frame** of a connection, behind whole hauls, and nobody has more
to write. -/
theorem signs (h : Course role options keys moves c) {status : Option Close.Status}
    (hmem : Frame.close status ∈ c.sentFrames) : (∀ task, (c.script task).cargo = []) ∧
      ∃ earlier : List Haul, (∀ haul ∈ earlier, haul.Regular) ∧
        earlier.filterMap Haul.message? = (new role options keys).sends moves ∧
          c.sentFrames = earlier.flatMap Haul.frames ++ [Frame.close status] := by
  obtain ⟨s, hs, heq⟩ := List.mem_map.mp (List.mem_reverse.mp hmem)
  have hclose : s.frame.isClose = true := by rw [heq]; rfl
  obtain ⟨⟨older, hsent, hnot⟩, hidle⟩ := h.orderly.last hs hclose
  have hframes : c.sentFrames = (older.map Sent.frame).reverse ++ [Frame.close status] := by
    rw [sentFrames, hsent, List.map_cons, List.reverse_cons, heq]
  have hall : ((new role options keys).hauls moves).flatMap Haul.frames = c.sentFrames := by
    have hhauling := h.outgoing.hauling
    by_cases hbusy : ∃ task more, (c.script task).feeding? = some more
    · obtain ⟨task, more, hfeeding⟩ := hbusy
      have hcargo := Script.cargo_of_feeding? hfeeding
      rw [hidle task] at hcargo
      rw [← hhauling.busy hfeeding, ← hcargo, List.append_nil]
    · refine (hhauling.idle fun task => ?_).symm
      exact Option.eq_none_iff_forall_ne_some.mpr fun more heq => hbusy ⟨task, more, heq⟩
  obtain ⟨earlier, hregular, hfront, hmessages⟩ :=
    Haul.split_of_isClose (proper_of_run h.run) (hall.trans hframes) rfl fun x hx => by
      obtain ⟨y, hy, rfl⟩ := List.mem_map.mp (List.mem_reverse.mp hx)
      exact hnot y hy
  exact ⟨hidle, earlier, hregular, hmessages, by rw [hfront, hframes]⟩

/-- No frame but **the close frame of a status** closes. -/
theorem signed_of_isClose (h : Course role options keys moves c) {f : Frame}
    (hf : f ∈ c.sentFrames) (hclose : f.isClose = true) : c.Signed := by
  obtain ⟨haul, hhaul, hin⟩ := List.mem_flatMap.mp (h.outgoing.hauling.isPrefix.subset hf)
  obtain hregular | ⟨status, rfl⟩ := proper_of_run h.run haul hhaul
  · exact nomatch hclose.symm.trans (hregular.isClose_eq_false hin)
  · exact ⟨status, List.mem_singleton.mp hin ▸ hf⟩

/-- The frames in front of a close frame **do not stop** the stream. -/
theorem not_stopped (h : Course role options keys moves c) {limit : Option Nat}
    (hadmitted : ∀ m ∈ (new role options keys).sends moves, m.Admitted limit)
    {frames : List Frame} (hfront : frames <+: c.sentFrames)
    (hnot : ∀ f ∈ frames, f.isClose = false) :
    (Outlook.ofFrames (.fresh limit) frames none).stopped = false := by
  obtain ⟨earlier, hearlier, hregular, later, hin⟩ := Haul.exists_regular (proper_of_run h.run)
    (hfront.trans h.outgoing.hauling.isPrefix) hnot
  have htells := Outlook.ofFrames_hauls hregular fun m hm =>
    hadmitted m ((hearlier.filterMap _).subset hm)
  rw [← hin, Outlook.ofFrames_append] at htells
  exact (Outlook.stopped_of_andThen (congrArg Outlook.stopped htells)).1

/-- The frames of a connection **tell of its end** exactly when the close frame is among them. -/
theorem stopped_iff (h : Course role options keys moves c) {limit : Option Nat}
    (hadmitted : ∀ m ∈ (new role options keys).sends moves, m.Admitted limit) :
    (Outlook.ofFrames (.fresh limit) c.sentFrames none).stopped = true ↔ c.Signed := by
  constructor
  · intro hstop
    by_contra hnot
    have hgoing := h.not_stopped hadmitted (List.prefix_refl _) fun f hf =>
      Bool.eq_false_iff.mpr fun hclose => hnot (h.signed_of_isClose hf hclose)
    exact nomatch hstop.symm.trans hgoing
  · rintro ⟨status, hmem⟩
    obtain ⟨-, earlier, -, -, hframes⟩ := h.signs hmem
    rw [hframes, Outlook.ofFrames_append, Outlook.ofFrames_close]
    exact Outlook.stopped_andThen _ rfl

/-- With a close frame they tell **the events of the hauls** in front of it, and what arrives of the
status. -/
theorem tells (h : Course role options keys moves c) {limit : Option Nat}
    (hadmitted : ∀ m ∈ (new role options keys).sends moves, m.Admitted limit)
    {status : Option Close.Status} (hsent : Frame.close status ∈ c.sentFrames) :
    ∃ events : List Event, (∀ s, .close s ∉ events) ∧
      events.filterMap Event.message? = (new role options keys).sends moves ∧
        Outlook.ofFrames (.fresh limit) c.sentFrames none =
          ⟨events.map .ok ++ [.ok (.close (status.map Close.Status.received))], true⟩ := by
  obtain ⟨-, earlier, hregular, hmessages, hframes⟩ := h.signs hsent
  refine ⟨earlier.filterMap Haul.event?, fun s hs => ?_, ?_, ?_⟩
  · obtain ⟨haul, hhaul, hevent⟩ := List.mem_filterMap.mp hs
    exact (hregular haul hhaul).event?_ne_close s hevent
  · rw [Haul.filterMap_message?, hmessages]
  · rw [hframes, Outlook.ofFrames_append, Outlook.ofFrames_close,
      Outlook.ofFrames_hauls hregular (hmessages ▸ hadmitted)]
    rfl

/-- The close frame is **the closer's own**. -/
theorem signer (h : Course role options keys moves c) (hsigned : c.Signed) :
    ∃ task status, (new role options keys).closers moves = [task] ∧
      Frame.close status ∈ c.sentBy task ∧ Asked moves (Frame.close status) task := by
  obtain ⟨status, hmem⟩ := hsigned
  have hidle := (h.signs hmem).1
  have hclaimed : c.closeSent = true := by
    by_contra hnot
    obtain ⟨s, hs, heq⟩ := List.mem_map.mp (List.mem_reverse.mp hmem)
    have hnone := (h.orderly.unclaimed (Bool.eq_false_iff.mpr hnot)).2 s hs
    rw [heq] at hnone
    cases hnone
  cases h.endedBy with
  | nobody _ hnone => exact nomatch hclaimed.symm.trans hnone
  | @closer task hclosers _ hsets =>
      cases hsets with
      | claiming hnone => exact nomatch hclaimed.symm.trans hnone
      | @writing status' _ hframe hasked =>
          rw [hidle, List.append_nil] at hframe
          exact ⟨task, status', hclosers, hframe, hasked⟩

/-- A close frame that a task has handed over is the **last frame** of all, and the only one of its
kind. -/
theorem sent_of_sentBy (h : Course role options keys moves c) {status : Option Close.Status}
    (hmem : Frame.close status ∈ c.sentBy task) :
    ∃ earlier, c.sent = ⟨task, Frame.close status⟩ :: earlier ∧
      ∀ x ∈ earlier, x.frame.isClose = false := by
  obtain ⟨s, hs, heq⟩ := List.mem_map.mp (List.mem_reverse.mp hmem)
  obtain ⟨hsent, htask⟩ := List.mem_filter.mp hs
  obtain ⟨⟨earlier, hlast, hnot⟩, -⟩ := h.orderly.last hsent (by rw [heq]; rfl)
  obtain ⟨t, f⟩ := s
  obtain rfl : t = task := of_decide_eq_true htask
  obtain rfl : f = Frame.close status := heq
  exact ⟨earlier, hlast, hnot⟩

/-- With a close frame and nothing left to go out, a connection **stays silent**. -/
theorem spent_step (h : Course role options keys moves c) (hspent : c.Spent)
    (hstep : c.step move = some c') : c'.Spent := by
  obtain ⟨⟨status, hmem⟩, hpending⟩ := hspent
  obtain ⟨hidle, -⟩ := h.signs hmem
  have hmove := transition_of_step hstep
  have hrun : c.run [move] = some c' := run_cons_eq_some.mpr ⟨c', hstep, rfl⟩
  refine ⟨⟨status, (sentFrames_isPrefix h.reach hrun).subset hmem⟩, ?_⟩
  obtain ⟨task, action, rest, c₁, script, rfl, hscript, heffect, rfl⟩ | hact := hmove.act_or
  · have hafter : (c₁.setScript task script).pending = c₁.pending := by
      cases task <;> rfl
    rw [hafter]
    cases h.living.sends h.reach h.outgoing.parting h.outgoing.flushed hscript heffect with
    | rests _ _ _ _ _ hbytes => exact hbytes.trans hpending
    | greets _ _ _ _ hnone =>
        rw [sentFrames, hnone] at hmem
        cases hmem
    | takes _ _ _ _ _ _ hbytes => exact hbytes.trans hpending
    | feeds _ _ hfeeding =>
        have hcargo := Script.cargo_of_feeding? hfeeding
        rw [hidle task] at hcargo
        cases hcargo
    | finishes _ _ _ _ _ _ hbytes => exact hbytes.trans hpending
  · cases hmove with
    | act => exact absurd rfl (hact _)
    | peerTake =>
        obtain ⟨hout, hheld⟩ := List.append_eq_nil_iff.mp hpending
        exact List.append_eq_nil_iff.mpr ⟨by rw [hout, List.drop_nil], hheld⟩
    | _ => exact hpending

end Course

/-! ### When everybody has to wait -/

/-- In a quiet connection **nobody has frames to write**. -/
theorem cargo_of_quiet (hreach : Reachable c) (hquiet : c.isQuiet = true)
    (hstalled : c.transport.stalled = false) (task : TaskId) : (c.script task).cargo = [] := by
  obtain ⟨-, hact⟩ := act_of_quiet hquiet
  cases hscript : c.script task with
  | nil => rfl
  | cons action rest =>
      obtain ⟨hasks, hholds⟩ := not_asksLock_of_quiet hreach.locked hact hstalled hscript
      have hnone := perform_of_act (hact task) hscript
      cases action with
      | enlist => cases task <;> cases hnone
      | lockWriter => cases hasks
      | feed => cases hholds
      | _ => rfl

namespace Course

/-- So the writer **holds nothing**. -/
theorem held_of_quiet (h : Course role options keys moves c) (hquiet : c.isQuiet = true)
    (hstalled : c.transport.stalled = false) : c.held = [] := by
  obtain ⟨-, hact⟩ := act_of_quiet hquiet
  refine h.outgoing.flushed.idle fun task => ?_
  cases hscript : c.script task with
  | nil => rfl
  | cons action rest =>
      exact (not_asksLock_of_quiet h.reach.locked hact hstalled hscript).2

/-- A quiet connection that is closing has **sent the close frame**. -/
theorem signed_of_quiet (h : Course role options keys moves c) (hquiet : c.isQuiet = true)
    (hstalled : c.transport.stalled = false) (hclosing : c.phase = .closing) : c.Signed := by
  cases h.endedBy with
  | nobody _ _ hphase => exact absurd hclosing hphase
  | @closer task _ _ hsets =>
      cases hsets with
      | claiming hclaim hscript =>
          have hnone := perform_of_act ((act_of_quiet hquiet).2 task) hscript
          simp [perform, claimCloseFrame, hclaim] at hnone
      | @writing status _ hframe =>
          rw [cargo_of_quiet h.reach hquiet hstalled, List.append_nil] at hframe
          exact ⟨status, mem_sentFrames_of_sentBy hframe⟩

end Course

/-! ### Whoever sets about closing -/

/-- Whoever was **begun in order to close** a connection is about to do so, or its end has begun. -/
theorem closes_of_start {c₀ : Connection} (hbegun : c₀.phase ≠ .connecting)
    (hrun : c₀.run moves = some c) {id : Nat} {code : Close.Code} {reason : String}
    (hcode : code.isReserved = false) (hmem : .start id (.close code reason) ∈ moves) :
    c.phase.isEnding = true ∨ ∃ rest, c.script (.call id) = .beginClosing :: rest := by
  refine (run_induction (P := fun moves x => x.phase ≠ .connecting ∧
    (.start id (.close code reason) ∈ moves → x.phase.isEnding = true ∨
      ∃ rest, x.script (.call id) = .beginClosing :: rest)) ⟨hbegun, nofun⟩ ?_ hrun).2 hmem
  intro before c₁ move c₂ hbefore ⟨hbegun, ih⟩ hstep
  have hmove := transition_of_step hstep
  refine ⟨hmove.begun hbegun, fun hmem => ?_⟩
  obtain hmem | hmem := List.mem_append.mp hmem
  · obtain hending | ⟨rest, hscript⟩ := ih hmem
    · exact .inl (hmove.stays_ending hending)
    · obtain ⟨task, action, more, c₃, script, rfl, hacts, heffect, rfl⟩ | hact := hmove.act_or
      · obtain ⟨rfl, -⟩ | ⟨-, hother⟩ | ⟨hreader, -⟩ := heffect.script_after hacts (.call id)
        · obtain ⟨rfl, rfl⟩ := List.cons.inj (hacts.symm.trans hscript)
          rw [setScript_phase]
          cases heffect with
          | beginClosing => exact .inl rfl
          | failClosing hnot => exact .inl (isEnding_of_ne hbegun hnot)
        · exact .inr ⟨rest, hother.trans hscript⟩
        · cases hreader
      · obtain hkept | ⟨-, a, -, -, hanswer⟩ | ⟨_, hid, rfl, hsuspended⟩ | ⟨hreader, -⟩ :=
          hmove.kept_of_ne_act hact (by rw [hscript]; exact List.cons_ne_nil _ _)
        · exact .inr ⟨rest, hkept.trans hscript⟩
        · exact nomatch hscript.symm.trans hanswer
        · obtain rfl := TaskId.call.inj hid
          rw [isSuspended, hscript] at hsuspended
          cases hsuspended
        · cases hreader
  · obtain rfl := List.mem_singleton.mp hmem
    cases hmove with
    | start hfresh =>
        refine .inr ⟨[.claimClose (some ⟨code, reason⟩) .report, .answer .done], ?_⟩
        rw [script_of_append ⟨id, _, _⟩ rfl (ids_of_isFresh hfresh) id, if_pos rfl]
        simp only [Script.ofOperation, hcode, Bool.false_eq_true, if_false]

end Connection

end WebSocket
