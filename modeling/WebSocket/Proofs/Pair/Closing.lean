import WebSocket.Proofs.Connection.Mending
import WebSocket.Proofs.Pair.Conversation
import WebSocket.Proofs.Pair.Farewell

/-!
# The closing of a pair

A client and a server have opened, and at one end or at both somebody sets about closing: at any
time, in any order relative to the other end, and beside messages and pings. Each end is followed as
one whose peer stays there to be written to (`Connection.Softened`), since an end is left only when
it has nothing more to write. So the two face each other from their opening to the last moment
(`Pair.Closing`).

## Main results

* `Pair.Closing.step`: **every move** keeps the two ends face to face.
-/

namespace WebSocket

namespace Pair

open Connection

variable {p p' p₀ : Pair} {end_ : Role} {move : Move} {moves before after : List Move}
  {options : Role → Options} {keys : Role → Nat → Mask}

/-- A run of a pair in which **tasks take turns** at each end and no reader is told to stop, the
client asks with one head, and each end takes what the other one sends. -/
structure Courteous (options : Role → Options) (keys : Role → Nat → Mask) (moves : List Move)
    (p : Pair) : Prop where
  run : (fresh options keys).run moves = some p
  turns : ∀ end_, (Connection.new end_ (options end_) (keys end_)).courteously
    ((fresh options keys).view end_ moves) = true
  greetsOnce : ∀ move ∈ moves, move.greetsOnce options = true
  takes : ∀ end_ : Role, (options end_).Takes (p.get end_.opposite).sentFrames
    ((fresh options keys).sends end_.opposite moves)
  uncancelled : ∀ end_, (p.get end_).cancelled = false

namespace Courteous

/-- What happened at first was **courteous**, too. -/
theorem earlier (h : Courteous options keys (before ++ after) p)
    (hbefore : (fresh options keys).run before = some p₀) :
    Courteous options keys before p₀ := by
  obtain ⟨q, hq, hafter⟩ := run_append_eq_some.mp h.run
  obtain rfl : q = p₀ := Option.some.inj (hq.symm.trans hbefore)
  refine ⟨hbefore, fun end_ => ?_,
    fun move hmove => h.greetsOnce move (List.mem_append_left _ hmove),
    fun end_ => takes_earlier hbefore hafter (h.takes end_),
    fun end_ => uncancelled_of_run (run_view hafter end_) (h.uncancelled end_)⟩
  have hturns := h.turns end_
  rw [view_append hbefore, courteously_append (run_end hbefore end_), Bool.and_eq_true] at hturns
  exact hturns.1

theorem reach (h : Courteous options keys moves p) (end_ : Role) : (p.get end_).Reachable :=
  reachable_end h.run end_

/-- Each end **takes** what the other one sends on its own. -/
theorem takes_end (h : Courteous options keys moves p) (end_ : Role) :
    (options end_).Takes (p.get end_.opposite).sentFrames
      ((Connection.new end_.opposite (options end_.opposite) (keys end_.opposite)).sends
        ((fresh options keys).view end_.opposite moves)) := by
  have htakes := h.takes end_
  rwa [sends, get_fresh] at htakes

/-- **While neither end leaves**, the two are joined. -/
theorem joined (h : Courteous options keys moves p) (hstay : ∀ end_, (p.get end_).Staying) :
    Joined p := by
  refine run_induction (P := fun moves q => Courteous options keys moves q →
    (∀ end_, (q.get end_).Staying) → Joined q) ?_ ?_ h.run h hstay
  · intro _ _ end_
    rw [get_fresh]
    exact ⟨rfl, rfl⟩
  · intro before q move q' hbefore ih hstep h hstay
    have hmove := transition_of_step hstep
    have hearlier := h.earlier hbefore
    have hstayed : ∀ end_, (q.get end_).Staying := by
      intro end_
      obtain ⟨-, hsame⟩ | ⟨own, -, hown⟩ := hmove.share end_
      · rw [← hsame]
        exact hstay end_
      · exact (hstay end_).before (hearlier.reach end_) (Connection.transition_of_step hown)
    have hjoined := ih hearlier hstayed
    refine hjoined.transition hmove fun end_ => ?_
    have hopened : OpenedFirst (Connection.new end_ (options end_) (keys end_))
        ((fresh options keys).view end_ before) (q.get end_) :=
      fun hending => nomatch hending.symm.trans (hstayed end_).phase
    have hrun := run_end hbefore end_
    have huncancelled := hearlier.uncancelled end_
    have hparting := (outgoing_of_run hrun (hearlier.turns end_) hopened (hjoined end_).1
      huncancelled).parting
    exact (living_of_run hrun hopened (hjoined end_).1 huncancelled).not_left (hearlier.reach end_)
      hparting (hstayed end_)

end Courteous

/-! ### Face to face -/

/-- The moves of one end, **as if the other one did no more** than end its stream. -/
def softView (options : Role → Options) (keys : Role → Nat → Mask) (moves : List Move)
    (end_ : Role) : List Connection.Move :=
  (Connection.new end_ (options end_) (keys end_)).softened ((fresh options keys).view end_ moves)

/-- The tasks that take one end **from open to closing** in a run. -/
def closers (end_ : Role) (p : Pair) (moves : List Move) : List TaskId :=
  (p.get end_).closers (p.view end_ moves)

/-- **Two ends on their way to their end.** -/
structure Closing (options : Role → Options) (keys : Role → Nat → Mask) (moves : List Move)
    (p : Pair) : Prop where
  courteous : Courteous options keys moves p
  softened : ∀ end_, Softened (Connection.new end_ (options end_) (keys end_))
    ((fresh options keys).view end_ moves) (p.get end_)
  /-- An end that has been left has nothing more to write, so it goes on as if its peer were there.
  -/
  facing : Facing options keys (softView options keys moves) fun end_ => (p.get end_).mended
  /-- An end goes away only when it has closed. -/
  gone : ∀ end_, (p.get end_).transport.broken = true → (p.get end_.opposite).phase = .closed
  /-- A reader sets about closing only when the other end has done so. -/
  asked : ∀ end_, (fresh options keys).closers end_ moves ≠ [] →
    ∃ other id, .call id ∈ (fresh options keys).closers other moves

/-- Two ends whose runs are softened **face each other**. -/
theorem Courteous.facing (h : Courteous options keys moves p)
    (hsoftened : ∀ end_, Softened (Connection.new end_ (options end_) (keys end_))
      ((fresh options keys).view end_ moves) (p.get end_))
    (hopened : ∀ end_, ∃ first last c₀, softView options keys moves end_ = first ++ last ∧
      (Connection.new end_ (options end_) (keys end_)).run first = some c₀ ∧ c₀.phase = .opened)
    (hended : ∀ end_, (p.get end_).transport.ending ≠ none →
      (p.get end_.opposite).Spent) :
    Facing options keys (softView options keys moves) fun end_ => (p.get end_).mended := by
  have hsends : ∀ end_, (Connection.new end_ (options end_) (keys end_)).sends
      (softView options keys moves end_) = (Connection.new end_ (options end_) (keys end_)).sends
        ((fresh options keys).view end_ moves) := fun end_ =>
    congrArg (List.filterMap Haul.message?) (hsoftened end_).hauls
  refine ⟨fun end_ => ⟨(hsoftened end_).run, hopened end_,
    (hsoftened end_).courteous (h.turns end_), fun own hown => ?_, rfl, h.uncancelled end_⟩,
    fun end_ => ?_, fun end_ => ?_, hended⟩
  · obtain hview | rfl := mem_softened hown
    · exact greetsOnce_view h.run h.greetsOnce end_ own hview
    · rfl
  · have hpipe := departures_view h.run end_.opposite
    rw [Role.opposite_opposite, get_fresh] at hpipe
    exact (hsoftened end_).bytes.trans (hpipe.symm.trans (hsoftened end_.opposite).departures.symm)
  · rw [hsends]
    exact h.takes_end end_

/-- When both are open, the two **are face to face**. -/
theorem Courteous.closing (h : Courteous options keys moves p)
    (hopen : ∀ end_, (p.get end_).phase = .opened) : Closing options keys moves p := by
  have hjoined := h.joined fun end_ => .of_opened (h.reach end_) (hopen end_)
  have hsoftened : ∀ end_, Softened (Connection.new end_ (options end_) (keys end_))
      ((fresh options keys).view end_ moves) (p.get end_) := fun end_ =>
    softened_of_unbroken (run_end h.run end_) (hjoined end_).1
  have hfacing := h.facing hsoftened (fun end_ => ⟨softView options keys moves end_, [],
    (p.get end_).mended, (List.append_nil _).symm, (hsoftened end_).run, hopen end_⟩)
    fun end_ hends => absurd (hjoined end_).2 hends
  refine ⟨h, hsoftened, hfacing, fun end_ hbroken => ?_, fun end_ hclosers => ?_⟩
  · exact nomatch hbroken.symm.trans (hjoined end_).1
  · cases (hfacing.course end_).endedBy with
    | nobody hnone =>
        rw [closers, get_fresh, ← (hsoftened end_).closers] at hclosers
        exact absurd hnone hclosers
    | closer _ hending =>
        rw [show (p.get end_).mended.phase = .opened from hopen end_] at hending
        cases hending

namespace Closing

/-- An end that **winds up** has got everything from the other one, which writes nothing more. -/
theorem spent_of_closed (h : Closing options keys moves p) (end_ : Role)
    (hclosed : (p.get end_.opposite).phase = .closed) : (p.get end_).Spent := by
  have hcourse := h.facing.course end_.opposite
  have hover := hcourse.living.isOver hclosed
  obtain ⟨hspent, -⟩ := h.facing.heard_out end_.opposite
    (by rw [(hcourse.reach.scripted.reader.outlook_of_isOver hover).1])
  rwa [Role.opposite_opposite] at hspent

/-- With its close frame sent and nothing left to go out, an end **writes nothing**. -/
theorem writesNothing (h : Closing options keys moves p) (end_ : Role)
    (hspent : (p.get end_).Spent) (task : TaskId) :
    (p.get end_).WritesNothing task := by
  intro action rest hscript
  exact (h.facing.course end_).writesNothing hspent task action rest
    ((script_mended ..).trans hscript)

/-- An end whose peer has gone **has nothing more to write**. -/
theorem silent (h : Closing options keys moves p) (end_ : Role)
    (hbroken : (p.get end_).transport.broken = true) (task : TaskId) :
    (p.get end_).WritesNothing task :=
  h.writesNothing end_ (h.spent_of_closed end_ (h.gone end_ hbroken)) task

/-- An end that has left **has closed**, and its writer is gone. -/
theorem closed_of_left (h : Closing options keys moves p) (end_ : Role)
    (hleft : (p.get end_).transport.shut = true ∨ (p.get end_).released = true) :
    (p.get end_).phase = .closed ∧ (p.get end_).writer = none := by
  have hcourse := h.facing.course end_
  obtain hshut | hreleased := hleft
  · exact (hcourse.outgoing.parting.shut (.inl hshut)).symm
  · have hrunning : (p.get end_).stage = .running := hcourse.accounts.1.running
    rw [released, hrunning] at hreleased
    simp only [Bool.and_eq_true] at hreleased
    exact ⟨hcourse.living.closed_of_ended hcourse.begun (List.isEmpty_iff.mp hreleased.1.1),
      Option.isNone_iff_eq_none.mp hreleased.1.2⟩

/-- An end that has left with nothing on its way **has sent everything**, its close frame too. -/
theorem spent_of_left (h : Closing options keys moves p) (end_ : Role)
    (hleft : (p.get end_).transport.shut = true ∨ (p.get end_).released = true)
    (hempty : (p.get end_).transport.outgoing = []) :
    (p.get end_).Spent := by
  obtain ⟨hclosed, hgone⟩ := h.closed_of_left end_ hleft
  refine ⟨h.facing.signed_of_closed end_ hclosed fun task => ?_, ?_⟩
  · exact ((h.facing.course end_).outgoing.parting.gone hgone task).1
  · rw [pending, hempty, (held_of_gone hgone).1]
    rfl

/-- An end that has sent everything **stays silent**. -/
theorem spent_of_step (h : Closing options keys moves p) (end_ : Role)
    (hspent : (p.get end_).Spent) {own : Connection.Move} {c' : Connection}
    (hstep : (p.get end_).step own = some c') : c'.Spent := by
  by_cases hgone : own = .peerGone
  · subst hgone
    obtain rfl := Option.some.inj hstep
    exact hspent
  · have hmended := step_mended_of_broken hgone hstep fun _ => h.writesNothing end_ hspent
    have hstays : c'.mended.Spent := (h.facing.course end_).spent_step hspent hmended
    exact hstays

/-- The runs of both ends **go on** softened. -/
theorem softened_step (h : Closing options keys moves p) (hmove : Transition p move p')
    (hstep : p.step move = some p') (end_ : Role) :
    Softened (Connection.new end_ (options end_) (keys end_))
      ((fresh options keys).view end_ (moves ++ [move])) (p'.get end_) := by
  rw [view_concat h.courteous.run hstep]
  obtain ⟨hshare, hsame⟩ | ⟨own, hshare, hown⟩ := hmove.share end_
  · rw [hshare, hsame, List.append_nil]
    exact h.softened end_
  · rw [hshare]
    exact (h.softened end_).step (run_end h.courteous.run end_) hown (h.silent end_)

/-- Both ends **have been open**. -/
theorem opened_step (h : Closing options keys moves p) (end_ : Role) :
    ∃ first last c₀, softView options keys (moves ++ after) end_ = first ++ last ∧
      (Connection.new end_ (options end_) (keys end_)).run first = some c₀ ∧
        c₀.phase = .opened := by
  obtain ⟨first, last, c₀, heq, hfirst, hopen⟩ := (h.facing.course end_).opened
  refine ⟨first, last ++ (p.get end_).softened (p.view end_ after), c₀, ?_, hfirst, hopen⟩
  rw [← List.append_assoc, ← heq, softView, softView, view_append h.courteous.run,
    softened_append (run_end h.courteous.run end_)]

/-- A stream ends behind **everything that the other end has to send**. -/
theorem ended_step (h : Closing options keys moves p) (hmove : Transition p move p') (end_ : Role)
    (hends : (p'.get end_).transport.ending ≠ none) : (p'.get end_.opposite).Spent := by
  have hkept : (p.get end_.opposite).Spent → (p'.get end_.opposite).Spent := fun hspent =>
    hmove.preserves (fun _ _ hown => h.spent_of_step end_.opposite hspent hown) hspent
  obtain ⟨-, hsame⟩ | ⟨own, hone, hown⟩ := hmove.share end_
  · rw [hsame] at hends
    exact hkept (h.facing.ended end_ hends)
  · obtain hpeer | ⟨hleft, hempty, -⟩ := hmove.news hone
    · rw [((Connection.transition_of_step hown).peer_eq hpeer.1 hpeer.2).2] at hends
      exact hkept (h.facing.ended end_ hends)
    · exact hkept (h.spent_of_left end_.opposite hleft hempty)

/-- An end goes away only **when it has closed**. -/
theorem gone_step (h : Closing options keys moves p) (hmove : Transition p move p') (end_ : Role)
    (hbroken : (p'.get end_).transport.broken = true) :
    (p'.get end_.opposite).phase = .closed := by
  have hkept : (p.get end_.opposite).phase = .closed → (p'.get end_.opposite).phase = .closed :=
    fun hclosed => hmove.preserves
      (fun _ _ hown => (Connection.transition_of_step hown).closed hclosed) hclosed
  obtain ⟨-, hsame⟩ | ⟨own, hone, hown⟩ := hmove.share end_
  · rw [hsame] at hbroken
    exact hkept (h.gone end_ hbroken)
  · obtain hpeer | ⟨hleft, -⟩ := hmove.news hone
    · rw [((Connection.transition_of_step hown).peer_eq hpeer.1 hpeer.2).1] at hbroken
      exact hkept (h.gone end_ hbroken)
    · exact hkept (h.closed_of_left end_.opposite hleft).1

/-- The closers of an end are those of its softened run. -/
theorem closers_eq (h : Closing options keys moves p) (end_ : Role) :
    (fresh options keys).closers end_ moves = (Connection.new end_ (options end_)
      (keys end_)).closers (softView options keys moves end_) := by
  rw [closers, get_fresh]
  exact (h.softened end_).closers.symm

/-- An end that has sent its close frame **has a closer**. -/
theorem closers_of_signed (h : Closing options keys moves p) (end_ : Role)
    (hsigned : (p.get end_).Signed) : (fresh options keys).closers end_ moves ≠ [] := by
  obtain ⟨task, _, hclosers, -⟩ := (h.facing.course end_).signer hsigned
  rw [h.closers_eq, hclosers]
  exact List.cons_ne_nil _ _

/-- A move adds **the closers of the move**. -/
theorem closers_step (hrun : (fresh options keys).run moves = some p)
    (hstep : p.step move = some p') (end_ : Role) :
    ∃ more, (fresh options keys).closers end_ (moves ++ [move]) =
        (fresh options keys).closers end_ moves ++ more ∧
      ∀ task ∈ more, ∃ own, (p.get end_).closes? own = some task := by
  rw [closers, closers, view_concat hrun hstep]
  obtain ⟨hshare, -⟩ | ⟨own, hshare, hown⟩ := (transition_of_step hstep).share end_
  · exact ⟨[], by rw [hshare, List.append_nil, List.append_nil], nofun⟩
  · refine ⟨((p.get end_).closes? own).toList, ?_, fun task htask => ⟨own, ?_⟩⟩
    · rw [hshare, closers_concat (run_view hrun end_) hown]
    · exact Option.mem_toList.mp htask

/-- **Somebody** has set about closing, at one end or the other, when one of them closes. -/
theorem asked_step (h : Closing options keys moves p) (hstep : p.step move = some p') (end_ : Role)
    (hclosers : (fresh options keys).closers end_ (moves ++ [move]) ≠ []) :
    ∃ other id, .call id ∈ (fresh options keys).closers other (moves ++ [move]) := by
  have hgrows := closers_step h.courteous.run hstep
  have hkept : ∀ other, (fresh options keys).closers other moves ≠ [] →
      ∃ other id, .call id ∈ (fresh options keys).closers other (moves ++ [move]) := by
    intro other hother
    obtain ⟨other, id, hmem⟩ := h.asked other hother
    obtain ⟨more, hmore, -⟩ := hgrows other
    exact ⟨other, id, by rw [hmore]; exact List.mem_append_left _ hmem⟩
  obtain ⟨more, hmore, hcloses⟩ := hgrows end_
  by_cases hbefore : (fresh options keys).closers end_ moves = []
  · rw [hmore, hbefore, List.nil_append] at hclosers
    obtain ⟨task, htask⟩ := List.exists_mem_of_ne_nil _ hclosers
    cases task with
    | call id => exact ⟨end_, id, by rw [hmore]; exact List.mem_append_right _ htask⟩
    | reader =>
        obtain ⟨own, hown⟩ := hcloses _ htask
        obtain ⟨action, rest, hreader, haction⟩ := closes?_eq_some hown
        have hscript := (h.facing.course end_).reach.scripted.reader
        rw [show (p.get end_).mended.reader = action :: rest from hreader] at hscript
        obtain ⟨⟨hsigned, -⟩, -⟩ := h.facing.heard_out end_ (by
          rw [show (p.get end_).mended.reader = action :: rest from hreader]
          exact hscript.stopped_of_closes haction)
        exact hkept end_.opposite (h.closers_of_signed end_.opposite hsigned)
  · exact hkept end_ hbefore

/-- **Every move** keeps the two ends face to face. -/
theorem step (h : Closing options keys moves p) (hstep : p.step move = some p')
    (hcourteous : Courteous options keys (moves ++ [move]) p') :
    Closing options keys (moves ++ [move]) p' := by
  have hmove := transition_of_step hstep
  have hsoftened := h.softened_step hmove hstep
  exact ⟨hcourteous, hsoftened, hcourteous.facing hsoftened h.opened_step (h.ended_step hmove),
    h.gone_step hmove, h.asked_step hstep⟩

end Closing

/-- From their opening on two ends **are face to face**. -/
theorem closing_of_run (hbefore : (fresh options keys).run before = some p₀)
    (hopen : ∀ end_, (p₀.get end_).phase = .opened) (hafter : p₀.run after = some p)
    (h : Courteous options keys (before ++ after) p) :
    Closing options keys (before ++ after) p := by
  refine run_induction (P := fun after q => Courteous options keys (before ++ after) q →
    Closing options keys (before ++ after) q) ?_ ?_ hafter h
  · intro h
    rw [List.append_nil] at h ⊢
    exact h.closing hopen
  · intro first q move q' hfirst ih hstep h
    rw [← List.append_assoc] at h ⊢
    have hrun := run_append_eq_some.mpr ⟨p₀, hbefore, hfirst⟩
    exact (ih (h.earlier hrun)).step hstep h

end Pair

end WebSocket
