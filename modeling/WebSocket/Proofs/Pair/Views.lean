import WebSocket.Connection.Pair
import WebSocket.Proofs.Connection.Departures
import WebSocket.Proofs.Connection.Receiving

/-!
# A pair, seen from its ends

A run of a pair is a run of each of its ends (`Pair.run_view`): what happens at the other end shows
only as bytes that come or go, as the end of the stream, or as the news that the peer has gone away.
The bytes that come to one end are those that went out of the other (`Pair.departures_view`).

## Main results

* `Pair.run_view`: each end of a pair **runs**.
* `Pair.departures_view`: the pipe **loses nothing and keeps the order**.
* `Pair.joined_of_run`: while neither end leaves, the pipe carries neither ends nor losses.
-/

namespace WebSocket

namespace Pair

variable {p p' p₁ : Pair} {end_ : Role} {move : Move} {moves before after : List Move}

/-! ### Runs of pairs -/

/-- The pair after a **run**: moves one after the other, all of them possible. -/
def run (p : Pair) : List Move → Option Pair
  | [] => some p
  | move :: moves => (p.step move).bind fun p => p.run moves

@[simp] theorem run_nil (p : Pair) : p.run [] = some p := rfl

theorem run_cons_eq_some :
    p.run (move :: moves) = some p' ↔ ∃ p₁, p.step move = some p₁ ∧ p₁.run moves = some p' := by
  simp only [run, Option.bind_eq_some_iff]

theorem run_append_eq_some :
    p.run (before ++ after) = some p' ↔ ∃ p₁, p.run before = some p₁ ∧ p₁.run after = some p' := by
  induction before generalizing p with
  | nil => simp
  | cons move before ih =>
      simp only [List.cons_append, run_cons_eq_some, ih]
      constructor
      · rintro ⟨p₁, hstep, p₂, hbefore, hafter⟩
        exact ⟨p₂, ⟨p₁, hstep, hbefore⟩, hafter⟩
      · rintro ⟨p₂, ⟨p₁, hstep, hbefore⟩, hafter⟩
        exact ⟨p₁, hstep, p₂, hbefore, hafter⟩

/-- **Induction along a run** of a pair. -/
theorem run_induction {P : List Move → Pair → Prop} {p₀ : Pair} (hstart : P [] p₀)
    (hmove : ∀ {before p move p'}, p₀.run before = some p → P before p → p.step move = some p' →
      P (before ++ [move]) p') (hrun : p₀.run moves = some p) : P moves p := by
  induction moves using List.reverseRecOn generalizing p with
  | nil =>
      obtain rfl : p₀ = p := by simpa using hrun
      exact hstart
  | append_singleton before move ih =>
      obtain ⟨p₁, hbefore, hlast⟩ := run_append_eq_some.mp hrun
      obtain ⟨p₂, hstep, hnil⟩ := run_cons_eq_some.mp hlast
      obtain rfl : p₂ = p := by simpa using hnil
      exact hmove hbefore (ih hbefore) hstep

/-! ### Ends -/

@[simp] theorem get_set (p : Pair) (end_ : Role) (c : Connection) :
    (p.set end_ c).get end_ = c := by
  cases end_ <;> rfl

@[simp] theorem get_set_opposite (p : Pair) (end_ : Role) (c : Connection) :
    (p.set end_ c).get end_.opposite = p.get end_.opposite := by
  cases end_ <;> rfl

@[simp] theorem get_opposite_set (p : Pair) (end_ : Role) (c : Connection) :
    (p.set end_.opposite c).get end_ = p.get end_ := by
  cases end_ <;> rfl

/-- Every end is a given one or the one **opposite**. -/
theorem eq_or_eq_opposite (end_ other : Role) : other = end_ ∨ other = end_.opposite := by
  cases end_ <;> cases other <;> simp [Role.opposite]

theorem opposite_ne (end_ : Role) : end_.opposite ≠ end_ := by
  cases end_ <;> exact nofun

/-- What a move of the pair is **for one end**. -/
def share (end_ : Role) (p : Pair) : Move → List Connection.Move
  | .on other move => if other = end_ then [move] else []
  | .carry from_ count =>
    if from_ = end_ then [.peerTake count]
    else [.peerSend ((p.get from_).transport.outgoing.take count)]
  | .carryEnd from_ => if from_ = end_ then [] else [.peerEnd .ended]
  | .carryGone from_ => if from_ = end_ then [] else [.peerGone]

/-- What is for one end is **its own move**, or one of the pipe. -/
theorem mem_share {own : Connection.Move} (h : own ∈ p.share end_ move) :
    move = .on end_ own ∨ isPipeMove own = true := by
  cases move with
  | on other own' =>
      simp only [share] at h
      split at h
      · rename_i heq
        subst heq
        obtain rfl := List.mem_singleton.mp h
        exact Or.inl rfl
      · cases h
  | _ =>
      simp only [share] at h
      split at h <;> simp only [List.mem_singleton, List.not_mem_nil] at h
      all_goals subst h; exact Or.inr rfl

/-- A run of the pair, **seen from one end**. -/
def view (end_ : Role) (p : Pair) : List Move → List Connection.Move
  | [] => []
  | move :: moves =>
    match p.step move with
    | none => []
    | some p' => p.share end_ move ++ p'.view end_ moves

theorem view_append (hrun : p.run before = some p₁) :
    p.view end_ (before ++ after) = p.view end_ before ++ p₁.view end_ after := by
  induction before generalizing p with
  | nil =>
      obtain rfl : p = p₁ := by simpa using hrun
      rfl
  | cons move before ih =>
      obtain ⟨p₂, hstep, hrest⟩ := run_cons_eq_some.mp hrun
      simp only [List.cons_append, view, hstep, ih hrest, List.append_assoc]

theorem view_concat (hrun : p.run before = some p₁) (hstep : p₁.step move = some p') :
    p.view end_ (before ++ [move]) = p.view end_ before ++ p₁.share end_ move := by
  rw [view_append hrun, view, hstep]
  exact congrArg _ (List.append_nil _)

/-! ### What a move does -/

/-- **What a move does** to the two ends, with the condition under which it is possible. -/
inductive Transition (p : Pair) : Move → Pair → Prop
  | on {other : Role} {c : Connection} {own : Connection.Move} (hown : isPipeMove own = false)
      (hstep : (p.get other).step own = some c) : Transition p (.on other own) (p.set other c)
  | carry {from_ : Role} {count : Nat} {source target : Connection}
      (htarget : (p.get from_.opposite).step
        (.peerSend ((p.get from_).transport.outgoing.take count)) = some target)
      (hsource : (p.get from_).step (.peerTake count) = some source) :
      Transition p (.carry from_ count) ((p.set from_ source).set from_.opposite target)
  | carryEnd {from_ : Role} {target : Connection}
      (hleft : (p.get from_).transport.shut = true ∨ (p.get from_).released = true)
      (hempty : (p.get from_).transport.outgoing = [])
      (htarget : (p.get from_.opposite).step (.peerEnd .ended) = some target) :
      Transition p (.carryEnd from_) (p.set from_.opposite target)
  | carryGone {from_ : Role} {target : Connection} (hleft : (p.get from_).released = true)
      (hempty : (p.get from_).transport.outgoing = [])
      (htarget : (p.get from_.opposite).step .peerGone = some target) :
      Transition p (.carryGone from_) (p.set from_.opposite target)

theorem transition_of_step (h : p.step move = some p') : Transition p move p' := by
  cases move with
  | on end_ own =>
      simp only [step] at h
      split at h
      · cases h
      · rename_i hown
        obtain ⟨c, hstep, rfl⟩ := Option.map_eq_some_iff.mp h
        exact .on (Bool.eq_false_iff.mpr hown) hstep
  | carry from_ count =>
      simp only [step] at h
      split at h
      · obtain ⟨target, htarget, h⟩ := Option.bind_eq_some_iff.mp h
        obtain ⟨source, hsource, h⟩ := Option.bind_eq_some_iff.mp h
        cases h
        exact .carry htarget hsource
      · cases h
  | carryEnd from_ =>
      simp only [step] at h
      split at h
      · rename_i hleft
        rw [Bool.and_eq_true, Bool.or_eq_true] at hleft
        obtain ⟨target, htarget, rfl⟩ := Option.map_eq_some_iff.mp h
        exact .carryEnd hleft.1 (List.isEmpty_iff.mp hleft.2) htarget
      · cases h
  | carryGone from_ =>
      simp only [step] at h
      split at h
      · rename_i hleft
        rw [Bool.and_eq_true] at hleft
        obtain ⟨target, htarget, rfl⟩ := Option.map_eq_some_iff.mp h
        exact .carryGone hleft.1 (List.isEmpty_iff.mp hleft.2) htarget
      · cases h

/-- A move of a pair is **for each end** a move, or none. -/
theorem Transition.share (h : Transition p move p') (end_ : Role) :
    (p.share end_ move = [] ∧ p'.get end_ = p.get end_) ∨
      ∃ own, p.share end_ move = [own] ∧ (p.get end_).step own = some (p'.get end_) := by
  cases h with
  | @on other c own _ hstep =>
      obtain rfl | rfl := eq_or_eq_opposite other end_
      · exact Or.inr ⟨own, if_pos rfl, by rw [get_set]; exact hstep⟩
      · exact Or.inl ⟨if_neg (opposite_ne other).symm, get_set_opposite ..⟩
  | @carry from_ count source target htarget hsource =>
      obtain rfl | rfl := eq_or_eq_opposite from_ end_
      · exact Or.inr ⟨_, if_pos rfl, by rw [get_opposite_set, get_set]; exact hsource⟩
      · exact Or.inr ⟨_, if_neg (opposite_ne from_).symm, by rw [get_set]; exact htarget⟩
  | @carryEnd from_ target _ _ htarget =>
      obtain rfl | rfl := eq_or_eq_opposite from_ end_
      · exact Or.inl ⟨if_pos rfl, get_opposite_set ..⟩
      · exact Or.inr ⟨_, if_neg (opposite_ne from_).symm, by rw [get_set]; exact htarget⟩
  | @carryGone from_ target _ _ htarget =>
      obtain rfl | rfl := eq_or_eq_opposite from_ end_
      · exact Or.inl ⟨if_pos rfl, get_opposite_set ..⟩
      · exact Or.inr ⟨_, if_neg (opposite_ne from_).symm, by rw [get_set]; exact htarget⟩

theorem Transition.run_share (h : Transition p move p') (end_ : Role) :
    (p.get end_).run (p.share end_ move) = some (p'.get end_) := by
  obtain ⟨hshare, hsame⟩ | ⟨own, hshare, hstep⟩ := h.share end_
  · rw [hshare, hsame]
    rfl
  · rw [hshare]
    exact Connection.run_cons_eq_some.mpr ⟨_, hstep, rfl⟩

/-- What **every step** of an end leaves it with, and what it has now, it has after a move. -/
theorem Transition.preserves {P : Connection → Prop} (h : Transition p move p')
    (hstep : ∀ own c, (p.get end_).step own = some c → P c) (hnow : P (p.get end_)) :
    P (p'.get end_) := by
  obtain ⟨-, hsame⟩ | ⟨own, -, hown⟩ := h.share end_
  · rwa [hsame]
  · exact hstep own _ hown

/-- **Each end of a pair runs.** -/
theorem run_view (hrun : p.run moves = some p') (end_ : Role) :
    (p.get end_).run (p.view end_ moves) = some (p'.get end_) := by
  refine run_induction (P := fun moves q => (p.get end_).run (p.view end_ moves) =
    some (q.get end_)) rfl ?_ hrun
  intro before q move q' hbefore ih hstep
  rw [view_concat hbefore hstep]
  exact Connection.run_append_eq_some.mpr
    ⟨_, ih, (transition_of_step hstep).run_share end_⟩

/-- What one end does of its own accord is **part of what it sees**. -/
theorem mem_view (hrun : p.run moves = some p') {own : Connection.Move}
    (hmem : .on end_ own ∈ moves) : own ∈ p.view end_ moves := by
  obtain ⟨first, last, rfl⟩ := List.append_of_mem hmem
  obtain ⟨q, hfirst, hrest⟩ := run_append_eq_some.mp hrun
  obtain ⟨q', hstep, -⟩ := run_cons_eq_some.mp hrest
  rw [view_append hfirst, view, hstep]
  refine List.mem_append_right _ (List.mem_append_left _ ?_)
  rw [share, if_pos rfl]
  exact List.mem_singleton_self own

/-- What it sees and the pipe does not bring is **its own**. -/
theorem mem_of_view {own : Connection.Move} (hown : isPipeMove own = false)
    (hmem : own ∈ p.view end_ moves) : .on end_ own ∈ moves := by
  induction moves generalizing p with
  | nil => cases hmem
  | cons move moves ih =>
      rw [view] at hmem
      split at hmem
      · cases hmem
      · obtain hfirst | hrest := List.mem_append.mp hmem
        · obtain rfl | hpipe := mem_share hfirst
          · exact List.mem_cons_self ..
          · exact nomatch hown.symm.trans hpipe
        · exact List.mem_cons_of_mem _ (ih hrest)

/-- Each end of a quiet pair has to wait, and **nothing can be carried**. -/
theorem quiet_end (h : p.isQuiet = true) (end_ : Role) : (p.get end_).isQuiet = true ∧
    p.step (.carry end_ (p.get end_).transport.outgoing.length) = none := by
  have hend := List.all_eq_true.mp h end_ (by cases end_ <;> simp)
  rw [Bool.and_eq_true, Bool.and_eq_true] at hend
  exact ⟨hend.1.1, Option.isNone_iff_eq_none.mp hend.1.2⟩

/-! ### The pipe -/

/-- Of a run of one move the bytes that go out are **those of the move**. -/
theorem departures_singleton {c c' : Connection} {own : Connection.Move}
    (hstep : c.step own = some c') : c.departures [own] = (c.departure? own).getD [] := by
  rw [Connection.departures, Connection.trace_singleton hstep]
  cases c.departure? own with
  | none => rfl
  | some bytes => exact List.append_nil _

/-- In a move the bytes that go out of one end **come to the other**. -/
theorem Transition.departures_share (h : Transition p move p') (end_ : Role) :
    (p.get end_).departures (p.share end_ move) =
      Connection.peerBytes (p.share end_.opposite move) := by
  have hmine := h.share end_
  cases h with
  | @on other c own hown =>
      have hsilent : ∀ c : Connection, c.departure? own = none ∧ own.peerBytes = [] := by
        intro c
        cases own <;> first | exact ⟨rfl, rfl⟩ | cases hown
      obtain rfl | rfl := eq_or_eq_opposite other end_
      · obtain ⟨hnone, -⟩ | ⟨_, hone, hstep⟩ := hmine
        · rw [Pair.share, if_pos rfl] at hnone
          cases hnone
        · rw [Pair.share, if_pos rfl] at hone
          obtain rfl := List.head_eq_of_cons_eq hone
          rw [Pair.share, if_pos rfl, Pair.share, if_neg (opposite_ne end_).symm,
            departures_singleton hstep, (hsilent _).1]
          rfl
      · rw [Pair.share, if_neg (opposite_ne other).symm, Role.opposite_opposite, Pair.share,
          if_pos rfl, Connection.peerBytes_singleton, (hsilent p.client).2]
        rfl
  | @carry from_ count source target htarget hsource =>
      obtain rfl | rfl := eq_or_eq_opposite from_ end_
      · rw [Pair.share, if_pos rfl, Pair.share, if_neg (opposite_ne end_).symm,
          departures_singleton hsource, Connection.peerBytes_singleton]
        rfl
      · rw [Pair.share, if_neg (opposite_ne from_).symm, Role.opposite_opposite, Pair.share,
          if_pos rfl, departures_singleton htarget, Connection.peerBytes_singleton]
        rfl
  | @carryEnd from_ target _ _ htarget =>
      obtain rfl | rfl := eq_or_eq_opposite from_ end_
      · rw [Pair.share, if_pos rfl, Pair.share, if_neg (opposite_ne end_).symm]
        rfl
      · rw [Pair.share, if_neg (opposite_ne from_).symm, Role.opposite_opposite, Pair.share,
          if_pos rfl, departures_singleton htarget]
        rfl
  | @carryGone from_ target _ _ htarget =>
      obtain rfl | rfl := eq_or_eq_opposite from_ end_
      · rw [Pair.share, if_pos rfl, Pair.share, if_neg (opposite_ne end_).symm]
        rfl
      · rw [Pair.share, if_neg (opposite_ne from_).symm, Role.opposite_opposite, Pair.share,
          if_pos rfl, departures_singleton htarget]
        rfl

/-- **The pipe loses nothing and keeps the order**: what has come to one end is what has gone out of
the other. -/
theorem departures_view (hrun : p.run moves = some p') (end_ : Role) :
    (p.get end_).departures (p.view end_ moves) =
      Connection.peerBytes (p.view end_.opposite moves) := by
  refine run_induction (P := fun moves _ => (p.get end_).departures (p.view end_ moves) =
    Connection.peerBytes (p.view end_.opposite moves)) rfl ?_ hrun
  intro before q move q' hbefore ih hstep
  rw [view_concat hbefore hstep, view_concat hbefore hstep, Connection.peerBytes_append, ← ih,
    ← (transition_of_step hstep).departures_share end_, Connection.departures,
    Connection.trace_append (run_view hbefore end_), List.flatten_append]
  rfl

/-! ### Pairs that nobody leaves -/

/-- The moves of a pair with which nobody **ends** a connection. -/
def isSteady (p : Pair) : Move → Bool
  | .on end_ own => (p.get end_).isSteady own
  | _ => true

/-- The runs of which all moves are so. -/
def steadily (p : Pair) : List Move → Bool
  | [] => true
  | move :: moves =>
    p.isSteady move && match p.step move with
      | none => true
      | some p' => p'.steadily moves

theorem steadily_append (hrun : p.run before = some p₁) :
    p.steadily (before ++ after) = (p.steadily before && p₁.steadily after) := by
  induction before generalizing p with
  | nil =>
      obtain rfl : p = p₁ := by simpa using hrun
      rfl
  | cons move before ih =>
      obtain ⟨p₂, hstep, hrest⟩ := run_cons_eq_some.mp hrun
      simp only [List.cons_append, steadily, hstep, ih hrest, Bool.and_assoc]

theorem steadily_concat (hrun : p.run before = some p₁) :
    p.steadily (before ++ [move]) = (p.steadily before && p₁.isSteady move) := by
  rw [steadily_append hrun]
  refine congrArg (p.steadily before && ·) ?_
  simp only [steadily]
  split <;> exact Bool.and_true _

/-- Nobody ends a connection **at either end**. -/
theorem isSteady_share (h : p.isSteady move = true) (end_ : Role) :
    ∀ own ∈ p.share end_ move, (p.get end_).isSteady own = true := by
  intro own hown
  obtain rfl | hpipe := mem_share hown
  · exact h
  · cases own <;> first | rfl | cases hpipe

/-- In such a run each end **runs so**. -/
theorem steadily_view (hrun : p.run moves = some p') (h : p.steadily moves = true) (end_ : Role) :
    (p.get end_).steadily (p.view end_ moves) = true := by
  refine run_induction (P := fun moves _ => p.steadily moves = true →
    (p.get end_).steadily (p.view end_ moves) = true) (fun _ => rfl) ?_ hrun h
  intro before q move q' hbefore ih hstep hsteady
  rw [steadily_concat hbefore, Bool.and_eq_true] at hsteady
  rw [view_concat hbefore hstep, Connection.steadily_append (run_view hbefore end_),
    ih hsteady.1, Bool.true_and]
  have hshare := isSteady_share hsteady.2 end_
  obtain ⟨hnone, -⟩ | ⟨own, hone, -⟩ := (transition_of_step hstep).share end_
  · rw [hnone]
    rfl
  · rw [hone] at hshare ⊢
    rw [Connection.steadily_singleton]
    exact hshare own (List.mem_singleton_self own)

/-- A client and a server **that have not talked yet**, given what each end is made with. -/
def fresh (options : Role → Options) (keys : Role → Nat → Mask) : Pair :=
  new (options .client) (options .server) (keys .client) (keys .server)

variable {options : Role → Options} {keys : Role → Nat → Mask}

@[simp] theorem get_fresh (end_ : Role) :
    (fresh options keys).get end_ = .new end_ (options end_) (keys end_) := by
  cases end_ <;> rfl

/-- Each end of a pair **runs from the beginning**. -/
theorem run_end (hrun : (fresh options keys).run moves = some p) (end_ : Role) :
    (Connection.new end_ (options end_) (keys end_)).run ((fresh options keys).view end_ moves) =
      some (p.get end_) := by
  rw [← get_fresh]
  exact run_view hrun end_

/-- Each end runs so that nobody ends it. -/
theorem steadily_end (hrun : (fresh options keys).run moves = some p)
    (h : (fresh options keys).steadily moves = true) (end_ : Role) :
    (Connection.new end_ (options end_) (keys end_)).steadily
      ((fresh options keys).view end_ moves) = true := by
  rw [← get_fresh]
  exact steadily_view hrun h end_

theorem reachable_end (hrun : (fresh options keys).run moves = some p) (end_ : Role) :
    (p.get end_).Reachable :=
  (Connection.reachable_new end_ (options end_) (keys end_)).run (run_end hrun end_)

/-- Two ends that are **joined**: both streams go on, and both ends are there to be written to. -/
def Joined (p : Pair) : Prop :=
  ∀ end_, (p.get end_).transport.broken = false ∧ (p.get end_).transport.ending = none

/-- Only an end that **has left**, with nothing on its way, brings the other one the end of its
stream or the news that it has gone. -/
theorem Transition.news (h : Transition p move p') {own : Connection.Move}
    (hone : p.share end_ move = [own]) :
    ((∀ e, own ≠ .peerEnd e) ∧ own ≠ .peerGone) ∨
      (((p.get end_.opposite).transport.shut = true ∨ (p.get end_.opposite).released = true) ∧
        (p.get end_.opposite).transport.outgoing = [] ∧
          p'.get end_.opposite = p.get end_.opposite) := by
  cases h with
  | on hown =>
      simp only [Pair.share] at hone
      split at hone
      · obtain rfl := List.head_eq_of_cons_eq hone
        refine .inl ⟨?_, ?_⟩
        · rintro e rfl
          cases hown
        · rintro rfl
          cases hown
      · cases hone
  | carry =>
      simp only [Pair.share] at hone
      split at hone <;> obtain rfl := List.head_eq_of_cons_eq hone <;> exact .inl ⟨nofun, nofun⟩
  | @carryEnd from_ _ hleft hempty =>
      obtain rfl | rfl := eq_or_eq_opposite from_ end_
      · rw [Pair.share, if_pos rfl] at hone
        cases hone
      · rw [Role.opposite_opposite]
        exact .inr ⟨hleft, hempty, get_opposite_set ..⟩
  | @carryGone from_ _ hleft hempty =>
      obtain rfl | rfl := eq_or_eq_opposite from_ end_
      · rw [Pair.share, if_pos rfl] at hone
        cases hone
      · rw [Role.opposite_opposite]
        exact .inr ⟨.inr hleft, hempty, get_opposite_set ..⟩

/-- A move with which nobody leaves keeps the ends **joined**. -/
theorem Joined.transition (h : Joined p) (hmove : Transition p move p')
    (hleft : ∀ end_, (p.get end_).transport.shut = false ∧ (p.get end_).released = false) :
    Joined p' := by
  intro end_
  obtain ⟨-, hsame⟩ | ⟨own, hone, hstep⟩ := hmove.share end_
  · rw [hsame]
    exact h end_
  · obtain hpeer | ⟨hgone, -⟩ := hmove.news hone
    · obtain ⟨hbroken, hending⟩ :=
        (Connection.transition_of_step hstep).peer_eq hpeer.1 hpeer.2
      rw [hbroken, hending]
      exact h end_
    · rw [(hleft end_.opposite).1, (hleft end_.opposite).2] at hgone
      simp at hgone

/-- **While neither end leaves**, the two are joined. -/
theorem joined_of_run (hrun : (fresh options keys).run moves = some p)
    (hsteady : (fresh options keys).steadily moves = true)
    (hstay : ∀ end_, (p.get end_).Staying) : Joined p := by
  refine run_induction (P := fun moves q => (fresh options keys).steadily moves = true →
    (∀ end_, (q.get end_).Staying) → Joined q) ?_ ?_ hrun hsteady hstay
  · intro _ _ end_
    rw [get_fresh]
    exact ⟨rfl, rfl⟩
  · intro before q move q' hbefore ih hstep hsteady hstay
    have hmove := transition_of_step hstep
    have hsteady' := hsteady
    rw [steadily_concat hbefore, Bool.and_eq_true] at hsteady'
    have hstayed : ∀ end_, (q.get end_).Staying := by
      intro end_
      obtain ⟨-, hsame⟩ | ⟨own, -, hown⟩ := hmove.share end_
      · rw [← hsame]
        exact hstay end_
      · exact (hstay end_).before (reachable_end hbefore end_)
          (Connection.transition_of_step hown)
    have hjoined := ih hsteady'.1 hstayed
    exact hjoined.transition hmove fun end_ => (hstayed end_).not_left (run_end hbefore end_)
      (steadily_end hbefore hsteady'.1 end_) (hjoined end_).1

end Pair

end WebSocket
