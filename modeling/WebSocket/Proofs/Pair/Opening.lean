import WebSocket.Proofs.Connection.Negotiation
import WebSocket.Proofs.Pair.Views

/-!
# Two ends open

A client begins its handshake at one end of a pipe and a server at the other. However their tasks
take turns and however the pipe cuts the bytes, the handshake comes to its end after a bounded
number of moves, and then both ends are open and have taken the same subprotocol.

The run is followed at both ends at once (`Pair.Underway`): each end is at a stage of its own part,
and what one end has used up, holds and is about to be brought is what the other end has written. So
an end that waits for a head waits only as long as the other end has not written it.

## Main results

* `Pair.underway_of_run`: in every run both ends **play their parts**, in a bounded number of moves.
* `Pair.Underway.finished`: when nobody can go on, both ends have **come to their last stage**.
* `Pair.both_open`: every host, path, key and offer that can be presented leads there.
-/

namespace WebSocket

namespace Pair

open Connection Handshake

variable {p p' : Pair} {move : Move} {moves : List Move} {parts : Role → Part}
  {options : Role → Options} {keys : Role → Nat → Mask} {stage : Role → Nat}

/-! ### Both ends at once -/

/-- The moves of a pair of which **each end plays its part**. -/
def allows (parts : Role → Part) : Move → Prop
  | .on end_ own => (parts end_).allows own
  | _ => True

/-- Moves that bring the handshake of one end **on**, or carry what it has written. -/
def Move.bringsOn : Move → Bool
  | .on _ own => own.bringsOn
  | _ => true

/-- Moves by which a task or the pipe **takes its turn**. -/
def Move.isTurn : Move → Bool
  | .on _ (.act _) | .on _ (.read _) | .carry .. => true
  | _ => false

/-- What is **left to do** at both ends. -/
def left (parts : Role → Part) (stage : Role → Nat) (p : Pair) : Nat :=
  Connection.left (parts .client) (stage .client) p.client +
    Connection.left (parts .server) (stage .server) p.server

/-- Two ends **in the middle of their handshakes**: what has been written at one end has been used
up at the other one, or is on its way there. -/
structure Underway (options : Role → Options) (parts : Role → Part) (stage : Role → Nat)
    (p : Pair) : Prop where
  ends : ∀ end_, At (parts end_) (stage end_) (p.get end_)
  options : ∀ end_, (p.get end_).options = options end_
  pipe : ∀ end_, (parts end_).heard (stage end_) ++
    ((p.get end_).buffer ++ (p.get end_).transport.incoming) ++
      (p.get end_.opposite).transport.outgoing =
    (parts end_.opposite).spoken (stage end_.opposite)

/-- Two parts **that belong together**: each end waits for what the other end writes, and the client
writes first. -/
structure Matching (options : Role → Options) (parts : Role → Part) : Prop where
  orderly : ∀ end_, (parts end_).Orderly
  sound : ∀ end_, (parts end_).Sound (options end_)
  heads : ∀ end_, (parts end_.opposite).head = (parts end_).reply
  first : (parts .client).headAt < (parts .client).replyAt

/-- What is left to do becomes **less by what one end does**. -/
theorem left_set {end_ : Role} {k : Nat} {c : Connection} {own : Connection.Move}
    (hprogress : Progress (parts end_) (stage end_) k (p.get end_) c own) :
    left parts (Function.update stage end_ k) (p.set end_ c) + own.bringsOn.toNat ≤
      left parts stage p := by
  have hcheaper := hprogress.cheaper
  cases end_ with
  | client =>
      have hother : Function.update stage .client k .server = stage .server := rfl
      rw [left, left, Function.update_self, hother]
      simp only [Pair.set, Pair.get] at hcheaper ⊢
      omega
  | server =>
      have hother : Function.update stage .server k .client = stage .client := rfl
      rw [left, left, Function.update_self, hother]
      simp only [Pair.set, Pair.get] at hcheaper ⊢
      omega

/-- An end that is not quiet **acts, or reads what has come**. -/
theorem turn_of_not_quiet {c : Connection} (huncancelled : c.cancelled = false)
    (h : c.isQuiet = false) : ∃ own c', ((∃ task, own = .act task) ∨ ∃ count, own = .read count) ∧
      c.step own = some c' := by
  by_cases hincoming : c.transport.incoming = []
  · have hacts : ∃ task, c.act task ≠ none := by
      by_contra hnone
      rw [not_exists] at hnone
      have hall : ∀ task, c.act task = none := fun task => not_not.mp (hnone task)
      rw [Connection.isQuiet, hincoming, Connection.step, huncancelled, hall] at h
      simp [hall] at h
    obtain ⟨task, hact⟩ := hacts
    obtain ⟨c', hc'⟩ := Option.ne_none_iff_exists'.mp hact
    exact ⟨_, c', Or.inl ⟨task, rfl⟩, hc'⟩
  · have hcount : 0 < c.transport.incoming.length := List.length_pos_iff.mpr hincoming
    exact ⟨_, _, Or.inr ⟨_, rfl⟩, if_pos ⟨hcount, Nat.le_refl _⟩⟩

namespace Underway

/-- What an end has used up and holds is **a front part of what it waits for**. -/
theorem isPrefix (h : Underway options parts stage p) (hmatching : Matching options parts)
    (end_ : Role) :
    (parts end_).heard (stage end_) ++ (p.get end_).buffer <+: (parts end_).reply := by
  have hspoken := (parts end_.opposite).spoken_isPrefix (stage end_.opposite)
  rw [← h.pipe end_, hmatching.heads end_, List.append_assoc, List.append_assoc,
    ← List.append_assoc] at hspoken
  exact (List.prefix_append _ _).trans hspoken

/-- One end goes on, and **the pipe still holds the rest**. -/
theorem set (h : Underway options parts stage p) {end_ : Role} {k : Nat} {c : Connection}
    {own : Connection.Move}
    (hprogress : Progress (parts end_) (stage end_) k (p.get end_) c own) :
    Underway options parts (Function.update stage end_ k) (p.set end_ c) := by
  have hother := Function.update_of_ne (opposite_ne end_) k stage
  refine ⟨fun other => ?_, fun other => ?_, fun other => ?_⟩ <;>
    obtain rfl | rfl := eq_or_eq_opposite end_ other
  · rw [Function.update_self, get_set]
    exact hprogress.next
  · rw [hother, get_set_opposite]
    exact h.ends _
  · rw [get_set, hprogress.options]
    exact h.options _
  · rw [get_set_opposite]
    exact h.options _
  · rw [Function.update_self, hother, get_set, get_set_opposite, hprogress.inflow]
    exact h.pipe _
  · obtain ⟨said, hout, hsaid⟩ := hprogress.outflow
    rw [Role.opposite_opposite, hother, Function.update_self, get_set_opposite, get_set, hout,
      hsaid, ← List.append_assoc]
    have hpipe := h.pipe end_.opposite
    rw [Role.opposite_opposite] at hpipe
    rw [hpipe]

/-- **Nobody leaves** in the middle of a handshake. -/
theorem stays (h : Underway options parts stage p) (end_ : Role) :
    (p.get end_).transport.shut = false ∧ (p.get end_).released = false :=
  ⟨(h.ends end_).unshut, (h.ends end_).not_released⟩

/-- The pipe carries bytes **from one end to the other**. -/
theorem carry (h : Underway options parts stage p) {from_ : Role} {count : Nat}
    (hcount : 0 < count ∧ count ≤ (p.get from_).transport.outgoing.length)
    {source target : Connection}
    (htarget : (p.get from_.opposite).step
      (.peerSend ((p.get from_).transport.outgoing.take count)) = some target)
    (hsource : (p.get from_).step (.peerTake count) = some source) :
    Underway options parts stage ((p.set from_ source).set from_.opposite target) ∧
      left parts stage ((p.set from_ source).set from_.opposite target) + 1 ≤
        left parts stage p := by
  have hmine := h.ends from_
  have hpeer := h.ends from_.opposite
  have hpipe := h.pipe from_.opposite
  rw [Role.opposite_opposite] at hpipe
  cases Connection.transition_of_step htarget
  cases Connection.transition_of_step hsource
  refine ⟨⟨fun other => ?_, fun other => ?_, fun other => ?_⟩, ?_⟩
  any_goals obtain rfl | rfl := eq_or_eq_opposite from_ other
  · rw [get_opposite_set, get_set]
    exact { hmine with }
  · rw [get_set]
    exact { hpeer with }
  · rw [get_opposite_set, get_set]
    exact h.options _
  · rw [get_set]
    exact h.options _
  · rw [get_opposite_set, get_set, get_set]
    exact h.pipe _
  · rw [Role.opposite_opposite, get_set, get_opposite_set, get_set, ← hpipe]
    simp
  · have htake : ((p.get from_).transport.outgoing.take count).length = count :=
      List.length_take_of_le hcount.2
    cases from_ with
    | client =>
        simp only [left, Connection.left, Pair.set, Pair.get, Role.opposite, List.length_append,
          List.length_drop] at hcount htake ⊢
        omega
    | server =>
        simp only [left, Connection.left, Pair.set, Pair.get, Role.opposite, List.length_append,
          List.length_drop] at hcount htake ⊢
        omega

/-- **A move** in the middle of a handshake leads on. -/
theorem step (h : Underway options parts stage p) (hmatching : Matching options parts)
    (hallows : allows parts move) (hstep : p.step move = some p') :
    ∃ stage', Underway options parts stage' p' ∧
      left parts stage' p' + move.bringsOn.toNat ≤ left parts stage p := by
  have hmove := transition_of_step hstep
  cases hmove with
  | @on end_ c own _ hown =>
      obtain ⟨k, hprogress⟩ := (h.ends end_).step (hmatching.orderly end_) (hmatching.sound end_)
        (h.options end_) (h.isPrefix hmatching end_) hallows hown
      exact ⟨_, h.set hprogress, left_set hprogress⟩
  | @carry from_ count source target htarget hsource =>
      have hcount : 0 < count ∧ count ≤ (p.get from_).transport.outgoing.length := by
        by_contra hnot
        rw [Pair.step, if_neg hnot] at hstep
        cases hstep
      exact ⟨stage, h.carry hcount htarget hsource⟩
  | @carryEnd from_ target hleft =>
      obtain ⟨hshut, hreleased⟩ := h.stays from_
      rw [hshut, hreleased] at hleft
      simp at hleft
  | @carryGone from_ target hleft =>
      rw [(h.stays from_).2] at hleft
      cases hleft

/-! ### Until nobody can go on -/

/-- Whatever an end has written **is carried**, in the middle of a handshake. -/
theorem carries (h : Underway options parts stage p) {from_ : Role}
    (hout : (p.get from_).transport.outgoing ≠ []) :
    (p.step (.carry from_ (p.get from_).transport.outgoing.length)).isSome = true := by
  have hpeer := h.ends from_.opposite
  have hcount : 0 < (p.get from_).transport.outgoing.length := List.length_pos_iff.mpr hout
  rw [Pair.step, if_pos ⟨hcount, Nat.le_refl _⟩]
  simp [Connection.step, hpeer.endless, hpeer.not_released]

/-- When all is quiet, **nothing is on its way**. -/
theorem pipe_of_quiet (h : Underway options parts stage p) (hquiet : p.isQuiet = true)
    (end_ : Role) : (p.get end_).isQuiet = true ∧
      (parts end_).heard (stage end_) ++ (p.get end_).buffer =
        (parts end_.opposite).spoken (stage end_.opposite) := by
  have hends : ∀ other : Role, (p.get other).isQuiet = true ∧
      (p.get other).transport.outgoing = [] := by
    intro other
    obtain ⟨hwaits, hnone⟩ := quiet_end hquiet other
    refine ⟨hwaits, ?_⟩
    by_contra hout
    have hcarries := h.carries hout
    rw [hnone] at hcarries
    cases hcarries
  have hpipe := h.pipe end_
  rw [(act_of_quiet (hends end_).1).1, (hends end_.opposite).2, List.append_nil,
    List.append_nil] at hpipe
  exact ⟨(hends end_).1, hpipe⟩

/-- An end that **can go no further** has come to its last stage, or waits for a head that has not
been written. -/
theorem waits (h : Underway options parts stage p) (hmatching : Matching options parts)
    (hquiet : p.isQuiet = true) {end_ : Role} (hbegun : (p.get end_).calls ≠ [])
    (hstalled : (p.get end_).transport.stalled = false) :
    stage end_ = 5 ∨ (0 < stage end_ ∧ stage end_ < 5 ∧ ¬(parts end_).heard (stage end_ + 1) <+:
      (parts end_.opposite).spoken (stage end_.opposite)) := by
  have hend := h.ends end_
  obtain ⟨hquiet, hpipe⟩ := h.pipe_of_quiet hquiet end_
  obtain ⟨id, hcalls⟩ := hend.calls
  have hwithin := hend.within
  have hzero : stage end_ ≠ 0 := by
    intro hzero
    rw [if_pos hzero] at hcalls
    exact hbegun hcalls
  rw [if_neg hzero] at hcalls
  by_cases hlast : stage end_ = 5
  · exact Or.inl hlast
  · refine Or.inr ⟨by omega, by omega, ?_⟩
    have hnone := (act_of_quiet hquiet).2 (.call id)
    obtain ⟨c', hact, -⟩ | ⟨-, hwaits⟩ := hmatching.sound end_ hend (h.options end_) (by omega)
      (by omega) hcalls (h.isPrefix hmatching end_)
    · rw [hact] at hnone
      cases hnone
    · rw [← hpipe]
      exact hwaits.resolve_left (by simp [hstalled])

/-- An end does not wait for a head **that was written**. -/
theorem heard_isPrefix (hmatching : Matching options parts) (end_ : Role) {k other : Nat}
    (hwritten : (parts end_.opposite).headAt < other) :
    (parts end_).heard k <+: (parts end_.opposite).spoken other := by
  have hspoken : (parts end_.opposite).spoken other = (parts end_).reply := by
    rw [Part.spoken, if_neg (by omega), hmatching.heads]
  rw [hspoken, Part.heard]
  split
  · exact List.nil_prefix
  · exact List.prefix_refl _

/-- When nobody can go on, both ends have come **to their last stage**. -/
theorem finished (h : Underway options parts stage p) (hmatching : Matching options parts)
    (hquiet : p.isQuiet = true) (hbegun : ∀ end_, (p.get end_).calls ≠ [])
    (hstalled : ∀ end_, (p.get end_).transport.stalled = false) (end_ : Role) :
    stage end_ = 5 := by
  have hlate : ∀ other, stage other = 5 → (parts other).headAt < stage other := by
    intro other hlast
    rw [hlast]
    exact (hmatching.orderly other).headAt.2
  -- the client writes first, so when it waits the server has something to go on with
  have hserver : stage .server = 5 := by
    obtain hlast | ⟨-, -, hwaits⟩ :=
      h.waits hmatching hquiet (hbegun .server) (hstalled .server)
    · exact hlast
    · refine absurd (heard_isPrefix hmatching .server ?_) hwaits
      obtain hlast | ⟨-, -, hclient⟩ :=
        h.waits hmatching hquiet (hbegun .client) (hstalled .client)
      · exact hlate .client hlast
      · have hreached : (parts .client).replyAt < stage .client + 1 := by
          by_contra hearly
          refine hclient ?_
          rw [Part.heard, if_pos (by omega)]
          exact List.nil_prefix
        have hfirst := hmatching.first
        show (parts .client).headAt < stage .client
        omega
  cases end_ with
  | server => exact hserver
  | client =>
      obtain hlast | ⟨-, -, hwaits⟩ :=
        h.waits hmatching hquiet (hbegun .client) (hstalled .client)
      · exact hlast
      · exact absurd (heard_isPrefix hmatching .client (hlate .server hserver)) hwaits

/-- As long as not all is quiet, **somebody goes on**. -/
theorem goesOn (h : Underway options parts stage p) (hquiet : p.isQuiet = false) :
    ∃ move p', move.isTurn = true ∧ p.step move = some p' := by
  simp only [Pair.isQuiet, List.all_eq_false, Bool.not_eq_true, Bool.and_eq_false_iff] at hquiet
  obtain ⟨end_, -, (hend | hcarry) | hends⟩ := hquiet
  · obtain ⟨own, c', hown, hstep⟩ := turn_of_not_quiet (h.ends end_).uncancelled hend
    obtain ⟨task, rfl⟩ | ⟨count, rfl⟩ := hown
    · exact ⟨.on end_ (.act task), p.set end_ c', rfl, by simp [Pair.step, isPipeMove, hstep]⟩
    · exact ⟨.on end_ (.read count), p.set end_ c', rfl, by simp [Pair.step, isPipeMove, hstep]⟩
  · rw [Option.isNone_eq_false_iff] at hcarry
    obtain ⟨p', hstep⟩ := Option.isSome_iff_exists.mp hcarry
    exact ⟨_, p', rfl, hstep⟩
  · obtain ⟨hshut, hreleased⟩ := h.stays end_
    simp [Pair.step, hshut, hreleased] at hends

/-- **Everybody can go on until all is quiet.** -/
theorem exists_quiet (h : Underway options parts stage p) (hmatching : Matching options parts) :
    ∃ more p', (∀ move ∈ more, move.isTurn = true) ∧ p.run more = some p' ∧ p'.isQuiet = true := by
  generalize hleft : left parts stage p = n
  induction n using Nat.strong_induction_on generalizing p stage with
  | _ n ih =>
      cases hquiet : p.isQuiet with
      | true => exact ⟨[], p, nofun, rfl, hquiet⟩
      | false =>
          obtain ⟨move, p₁, hturn, hstep⟩ := h.goesOn hquiet
          have hfacts : allows parts move ∧ move.bringsOn = true := by
            cases move with
            | on end_ own => cases own <;> first | exact ⟨trivial, rfl⟩ | cases hturn
            | carry => exact ⟨trivial, rfl⟩
            | _ => cases hturn
          obtain ⟨stage₁, hunderway, hless⟩ := h.step hmatching hfacts.1 hstep
          rw [hfacts.2, Bool.toNat_true] at hless
          obtain ⟨more, p', hmore, hrun, hend⟩ := ih _ (by omega) hunderway rfl
          exact ⟨move :: more, p', List.forall_mem_cons.mpr ⟨hturn, hmore⟩,
            run_cons_eq_some.mpr ⟨p₁, hstep, hrun⟩, hend⟩

end Underway

/-! ### The handshake of a client and a server -/

/-- Two ends that have not begun are **at the beginning of their parts**. -/
theorem underway_fresh :
    Underway options parts (fun _ => 0) (fresh options keys) := by
  refine ⟨fun end_ => ?_, fun end_ => ?_, fun end_ => ?_⟩
  · rw [get_fresh]
    exact
      { within := by decide
        calls := ⟨0, rfl⟩
        reader := rfl
        stage := rfl
        phase := rfl
        protocol := nofun
        uncancelled := rfl
        unbroken := rfl
        endless := rfl
        unshut := rfl }
  · rw [get_fresh]
    rfl
  · have hheard : (parts end_).heard 0 = [] := if_pos (Nat.zero_le _)
    have hspoken : (parts end_.opposite).spoken 0 = [] := if_pos (Nat.zero_le _)
    rw [get_fresh, get_fresh, hheard, hspoken]
    rfl

/-- **In every run both ends play their parts**, and what they have done and what is left is not
more than what there was to do. -/
theorem underway_of_run (hmatching : Matching options parts)
    (hrun : (fresh options keys).run moves = some p) (hallows : ∀ move ∈ moves, allows parts move) :
    ∃ stage, Underway options parts stage p ∧
      left parts stage p + moves.countP Move.bringsOn ≤
        10 + 2 * ((parts .client).head.length + (parts .server).head.length) := by
  refine run_induction (P := fun moves q => (∀ move ∈ moves, allows parts move) →
    ∃ stage, Underway options parts stage q ∧
      left parts stage q + moves.countP Move.bringsOn ≤
        10 + 2 * ((parts .client).head.length + (parts .server).head.length)) ?_ ?_ hrun hallows
  · intro _
    refine ⟨fun _ => 0, underway_fresh, ?_⟩
    simp only [left, Connection.left, fresh, Pair.new, Connection.new, List.countP_nil,
      List.length_nil]
    omega
  · intro before q move q' _ ih hstep hallows
    obtain ⟨hbefore, hlast⟩ := List.forall_mem_append.mp hallows
    obtain ⟨stage, hunderway, hleft⟩ := ih hbefore
    obtain ⟨stage', hunderway', hless⟩ := hunderway.step hmatching
      (hlast move (List.mem_singleton_self move)) hstep
    refine ⟨stage', hunderway', ?_⟩
    rw [List.countP_append, List.countP_singleton]
    cases hon : move.bringsOn <;> simp only [hon, Bool.toNat_true, Bool.toNat_false] at hless <;>
      simp <;> omega

/-- The part **of each end** in the handshake of a client and a server. -/
def partsOf (options : Role → Options) (host path : String) (nonce : Bytes) : Role → Part
  | .client => clientPart (options .client).protocols (options .server).protocols host path nonce
  | .server => serverPart (options .client).protocols (options .server).protocols host path nonce

theorem matching_partsOf {host path : String} {nonce : Bytes}
    (h : Presentable (options .client).protocols host path nonce)
    (hrequest : (partsOf options host path nonce .client).head.length ≤
      (options .server).maxHandshakeSize)
    (hresponse : (partsOf options host path nonce .server).head.length ≤
      (options .client).maxHandshakeSize) :
    Matching options (partsOf options host path nonce) where
  orderly end_ := by
    cases end_ with
    | client => exact ⟨by simp [partsOf, clientPart], by simp [partsOf, clientPart], _, rfl⟩
    | server => exact ⟨by simp [partsOf, serverPart], by simp [partsOf, serverPart], _, rfl⟩
  sound end_ := by
    cases end_ with
    | client => exact sound_client h rfl hresponse
    | server => exact sound_server h rfl hrequest
  heads end_ := by cases end_ <;> rfl
  first := by simp [partsOf, clientPart]

/-- The moves of two ends that **do nothing but their handshakes**: the client connects to a host,
the server accepts, and their tasks and the pipe take turns in any order. -/
def Move.opens (host path : String) (nonce : Bytes) : Move → Prop
  | .on .client (.start _ operation) => operation = .connect host path [] nonce
  | .on .server (.start _ operation) => operation = .accept
  | .on _ (.act _) | .on _ (.read _) | .on _ (.stall _) | .on _ (.tick _) => True
  | .on _ _ => False
  | .carry .. | .carryEnd _ | .carryGone _ => True

theorem allows_of_opens {host path : String} {nonce : Bytes} (h : move.opens host path nonce) :
    allows (partsOf options host path nonce) move := by
  cases move with
  | on end_ own =>
      cases own with
      | start id operation =>
          cases end_ <;> obtain rfl : operation = _ := h <;> exact ⟨rfl, fun _ => rfl⟩
      | act | read | stall | tick => trivial
      | _ => cases end_ <;> exact False.elim h
  | _ => trivial

/-- An end at its last stage is **open**, and its operation has its answer. -/
theorem opened_of_at {part : Part} {c : Connection} {a : Answer} (h : At part 5 c)
    (hanswer : part.script 5 = [.answer a]) :
    c.phase = .opened ∧ c.protocol = part.protocol ∧ ∃ id, c.answer? id = some a := by
  obtain ⟨id, hcalls⟩ := h.calls
  rw [if_neg (by decide), hanswer] at hcalls
  refine ⟨h.phase, h.protocol rfl, id, ?_⟩
  simp [answer?, script_call, call?, hcalls]

/-- **Both ends open.** For every host, path, key and offer that can be presented, the server
accepts the request of the client and the client accepts the response of the server; and if both
ends take heads of this size, then every run of the handshake is bounded and can be brought to where
nobody can go on, and wherever nobody can go on, both ends are open with the same subprotocol. -/
theorem both_open {host path : String} {nonce : Bytes}
    (h : Presentable (options .client).protocols host path nonce) :
    ∃ request received response,
      clientRequest (options .client) host path [] nonce = .ok request ∧
      acceptHead (options .server).protocols request.written = .ok (received, response) ∧
      Response.parse response.written = .ok response ∧ response.validate request = .ok () ∧
      (request.written.length ≤ (options .server).maxHandshakeSize →
        response.written.length ≤ (options .client).maxHandshakeSize →
        ∀ {keys : Role → Nat → Mask} {moves : List Move} {p : Pair},
          (fresh options keys).run moves = some p →
          (∀ move ∈ moves, move.opens host path nonce) →
          moves.countP Move.bringsOn ≤
              10 + 2 * (request.written.length + response.written.length) ∧
            (∃ more p', (∀ move ∈ more, move.isTurn = true) ∧ p.run more = some p' ∧
              p'.isQuiet = true) ∧
            (p.isQuiet = true → (∀ end_, (p.get end_).calls ≠ []) →
              (∀ end_, (p.get end_).transport.stalled = false) →
              (∀ end_, (p.get end_).phase = .opened ∧ (p.get end_).protocol =
                agreed? (options .client).protocols (options .server).protocols) ∧
              (∃ id, p.client.answer? id = some (.connected response)) ∧
              ∃ id, p.server.answer? id = some (.accepted received))) := by
  refine ⟨_, _, _, clientRequest_eq h rfl, acceptHead_written h, parse_agreeing, validate_agreeing,
    fun hrequest hresponse keys moves p hrun hopens => ?_⟩
  have hmatching := matching_partsOf h hrequest hresponse
  obtain ⟨stage, hunderway, hleft⟩ := underway_of_run hmatching hrun fun move hmove =>
    allows_of_opens (hopens move hmove)
  refine ⟨Nat.le_trans (Nat.le_add_left ..) hleft, hunderway.exists_quiet hmatching,
    fun hquiet hbegun hstalled => ?_⟩
  have hend : ∀ end_, At (partsOf options host path nonce end_) 5 (p.get end_) := by
    intro end_
    have hat := hunderway.ends end_
    rwa [hunderway.finished hmatching hquiet hbegun hstalled end_] at hat
  obtain ⟨hclient, hclientProtocol, hconnected⟩ := opened_of_at (hend .client) rfl
  obtain ⟨hserver, hserverProtocol, haccepted⟩ := opened_of_at (hend .server) rfl
  refine ⟨fun end_ => ?_, hconnected, haccepted⟩
  cases end_ with
  | client => exact ⟨hclient, hclientProtocol⟩
  | server => exact ⟨hserver, hserverProtocol⟩

/-- A client offers subprotocols with blanks, an empty one and one with a comma; the server knows
two of them. -/
def offerOptions : Role → Options
  | .client => { protocols := [" mqtt", "", "soap,chat ", "chat"] }
  | .server => { protocols := ["chat", "soap"] }

/-- The moves by which both ends open. The server begins first, and both heads come in two
pieces. -/
def offerMoves : List Move :=
  [.on .server (.start 0 .accept), .on .server (.act (.call 0)),
    .on .client (.start 0 (.connect "a b" "" [] (List.replicate 16 7))),
    .on .client (.act (.call 0)), .on .client (.act (.call 0)), .carry .client 100,
    .on .server (.read 100), .carry .client 93, .on .server (.read 93),
    .on .server (.act (.call 0)), .on .server (.act (.call 0)), .on .server (.act (.call 0)),
    .carry .server 129, .on .client (.read 60), .on .client (.read 69),
    .carry .server 30, .on .client (.read 30), .on .client (.act (.call 0)),
    .on .client (.act (.call 0))]

theorem ends_of_offerMoves :
    ((fresh offerOptions fun _ _ => Mask.zero).run offerMoves).map (fun p =>
      (p.isQuiet, p.client.calls.isEmpty || p.server.calls.isEmpty,
        p.client.transport.stalled || p.server.transport.stalled)) =
      some (true, false, false) := by
  decide +kernel

theorem heads_of_offerOptions :
    (match clientRequest (offerOptions .client) "a b" "" [] (List.replicate 16 7) with
      | .error _ => none
      | .ok request =>
        match acceptHead (offerOptions .server).protocols request.written with
        | .error _ => none
        | .ok (_, response) => some (request.written.length, response.written.length)) =
      some (193, 159) := by
  decide +kernel

/-- Both ends of such a handshake have taken **the first subprotocol that both know**. -/
theorem both_open_of_offerMoves : ∃ p : Pair,
    (fresh offerOptions fun _ _ => Mask.zero).run offerMoves = some p ∧
      ∀ end_, (p.get end_).phase = .opened ∧ (p.get end_).protocol = some (Bytes.ascii "soap") := by
  have hpresentable : Presentable (offerOptions .client).protocols "a b" ""
      (List.replicate 16 7) := ⟨by decide, by decide, rfl, by decide⟩
  obtain ⟨request, received, response, hrequest, haccept, -, -, hopens⟩ :=
    both_open hpresentable
  have hlengths := heads_of_offerOptions
  rw [hrequest] at hlengths
  dsimp only at hlengths
  rw [haccept] at hlengths
  obtain ⟨hrequestLength, hresponseLength⟩ := Prod.mk.inj (Option.some.inj hlengths)
  obtain ⟨p, hrun, hends⟩ := Option.map_eq_some_iff.mp ends_of_offerMoves
  simp only [Prod.mk.injEq, Bool.or_eq_false_iff] at hends
  obtain ⟨hquiet, ⟨hclient, hserver⟩, hclientStalled, hserverStalled⟩ := hends
  have hmoves : ∀ move ∈ offerMoves, move.opens "a b" "" (List.replicate 16 7) := by
    simp [offerMoves, Move.opens]
  have hlimits : request.written.length ≤ (offerOptions .server).maxHandshakeSize ∧
      response.written.length ≤ (offerOptions .client).maxHandshakeSize := by
    rw [hrequestLength, hresponseLength]
    decide
  obtain ⟨-, -, hfinal⟩ := hopens hlimits.1 hlimits.2 hrun hmoves
  have hagreed : agreed? (offerOptions .client).protocols (offerOptions .server).protocols =
      some (Bytes.ascii "soap") := by decide
  have hbegun : ∀ end_, (p.get end_).calls ≠ [] := by
    intro end_
    cases end_ with
    | client => exact List.isEmpty_eq_false_iff.mp hclient
    | server => exact List.isEmpty_eq_false_iff.mp hserver
  have hstalled : ∀ end_, (p.get end_).transport.stalled = false := by
    intro end_
    cases end_ <;> assumption
  obtain ⟨hopened, -, -⟩ := hfinal hquiet hbegun hstalled
  rw [hagreed] at hopened
  exact ⟨p, hrun, hopened⟩

end Pair

end WebSocket
