import WebSocket.Proofs.Connection.Deliveries
import WebSocket.Proofs.Connection.Greetings
import WebSocket.Proofs.Connection.Reports
import WebSocket.Proofs.Pair.Views

/-!
# Conversations

A client and a server talk over a pipe. Operations send messages and pings at both ends, in any
number at a time, and nobody closes or aborts. As long as each end takes what the other one sends,
the messages that arrive at one end are those that the other end sends, in the order in which the
sends took the writer lock, and nothing goes wrong.

Neither end can tell by itself that it will stay open: what stops a reader is what the other end has
sent. So both ends are followed at once. While both are open, neither reader has a reason to stop
(`Pair.Conversing.told`), and with nobody who would end a connection both stay open
(`Pair.Conversing.opened`).

## Main results

* `Pair.messages_in_order`: what arrives at one end is **what the other end sends**.
-/

namespace WebSocket

namespace Pair

variable {p p' p₀ : Pair} {end_ : Role} {move : Move} {moves before after : List Move}
  {options : Role → Options} {keys : Role → Nat → Mask}

/-- The messages that one end **sends in a run**, in the order in which the sends took its writer
lock. -/
def sends (end_ : Role) (p : Pair) (moves : List Move) : List Message :=
  (p.get end_).sends (p.view end_ moves)

/-- The events that **arrive** at one end in a run, in order. -/
def arrivals (end_ : Role) (p : Pair) (moves : List Move) : List Event :=
  (p.get end_).arrivals (p.view end_ moves)

/-- The moves of a pair that begin no other operations than those that write **no more than one
head**. -/
def Move.greetsOnce (options : Role → Options) : Move → Bool
  | .on end_ own => own.greetsOnce (options end_)
  | _ => true

/-- A run of a pair in which **nobody ends a connection**, the client asks with one head, and each
end takes what the other one sends. -/
structure Conversing (options : Role → Options) (keys : Role → Nat → Mask) (moves : List Move)
    (p : Pair) : Prop where
  run : (fresh options keys).run moves = some p
  steady : (fresh options keys).steadily moves = true
  greetsOnce : ∀ move ∈ moves, move.greetsOnce options = true
  takes : ∀ end_ : Role, (options end_).Takes (p.get end_.opposite).sentFrames
    ((fresh options keys).sends end_.opposite moves)

/-- Each end begins no other operations either. -/
theorem greetsOnce_view (hrun : p.run moves = some p')
    (h : ∀ move ∈ moves, move.greetsOnce options = true) (end_ : Role) :
    ∀ own ∈ p.view end_ moves, own.greetsOnce (options end_) = true := by
  refine run_induction (P := fun moves _ => (∀ move ∈ moves, move.greetsOnce options = true) →
    ∀ own ∈ p.view end_ moves, own.greetsOnce (options end_) = true) (fun _ => nofun) ?_ hrun h
  intro before q move q' hbefore ih hstep h
  obtain ⟨hfirst, hlast⟩ := List.forall_mem_append.mp h
  rw [view_concat hbefore hstep]
  refine List.forall_mem_append.mpr ⟨ih hfirst, fun own hown => ?_⟩
  have hmove := hlast move (List.mem_singleton_self move)
  obtain rfl | hpipe := mem_share hown
  · exact hmove
  · cases own <;> first | rfl | cases hpipe

/-- An end takes **what was sent at first** if it takes everything. -/
theorem takes_earlier (hbefore : (fresh options keys).run before = some p₀)
    (hafter : p₀.run after = some p) {limits : Options}
    (h : limits.Takes (p.get end_).sentFrames ((fresh options keys).sends end_ (before ++ after))) :
    limits.Takes (p₀.get end_).sentFrames ((fresh options keys).sends end_ before) := by
  refine h.mono ?_ ?_
  · exact Connection.sentFrames_isPrefix (reachable_end hbefore end_) (run_view hafter end_)
  · rw [sends, sends, view_append hbefore]
    exact Connection.sends_isPrefix (run_view hbefore end_)

namespace Conversing

/-- What was said at first is **part of the conversation**. -/
theorem earlier (h : Conversing options keys (before ++ after) p)
    (hbefore : (fresh options keys).run before = some p₀) :
    Conversing options keys before p₀ := by
  obtain ⟨p₁, hrun, hafter⟩ := run_append_eq_some.mp h.run
  obtain rfl : p₁ = p₀ := Option.some.inj (hrun.symm.trans hbefore)
  have hsteady := h.steady
  rw [steadily_append hbefore, Bool.and_eq_true] at hsteady
  exact ⟨hbefore, hsteady.1, fun move hmove => h.greetsOnce move (List.mem_append_left _ hmove),
    fun end_ => takes_earlier hbefore hafter (h.takes end_)⟩

/-- While both ends are open, the pipe **joins** them. -/
theorem joined (h : Conversing options keys moves p)
    (hopen : ∀ end_, (p.get end_).phase = .opened) : Joined p :=
  joined_of_run h.run h.steady fun end_ => .of_opened (reachable_end h.run end_) (hopen end_)

/-- While both ends are open, nobody is about to **end** one of them. -/
theorem steady_end (h : Conversing options keys moves p)
    (hopen : ∀ end_, (p.get end_).phase = .opened) (end_ : Role) : (p.get end_).Steady := by
  refine Connection.steady_of_run (run_end h.run end_) (steadily_end h.run h.steady end_) ?_
    (h.joined hopen end_).1
  rw [hopen end_]
  rfl

/-- While both ends are open, **each is told what the other one sends**, and goes on reading. -/
theorem told (h : Conversing options keys moves p)
    (hopen : ∀ end_, (p.get end_).phase = .opened) (end_ : Role) :
    (p.get end_).offered.reverse <+: ((((Connection.new end_.opposite (options end_.opposite)
        (keys end_.opposite)).hauls ((fresh options keys).view end_.opposite moves)).filterMap
          Haul.event?).map .ok) ∧
      (p.get end_).reader.outlook.stopped = false := by
  have hjoined := h.joined hopen
  have htakes := h.takes end_
  rw [sends, get_fresh] at htakes
  have hgreeting := Connection.isHead_greetings (run_end h.run end_.opposite)
    (greetsOnce_view h.run h.greetsOnce end_.opposite) (hopen end_.opposite)
  have hpipe := departures_view h.run end_.opposite
  rw [get_fresh, Role.opposite_opposite] at hpipe
  exact Connection.told_of_run (run_end h.run end_.opposite)
    (steadily_end h.run h.steady end_.opposite) (h.steady_end hopen end_.opposite).phase
    (hjoined end_.opposite).1 htakes hgreeting hpipe.symm (run_end h.run end_) (hopen end_)
    (hjoined end_).1 (h.steady_end hopen end_).uncancelled (hjoined end_).2

/-- Two ends that have opened **stay open**. -/
theorem opened (h : Conversing options keys (before ++ after) p)
    (hbefore : (fresh options keys).run before = some p₀)
    (hopen : ∀ end_, (p₀.get end_).phase = .opened) (hafter : p₀.run after = some p) :
    ∀ end_, (p.get end_).phase = .opened := by
  refine run_induction (P := fun after q => Conversing options keys (before ++ after) q →
    ∀ end_, (q.get end_).phase = .opened) (fun _ => hopen) ?_ hafter h
  intro front q move q' hfront ih hstep h end_
  have hrun : (fresh options keys).run (before ++ front) = some q :=
    run_append_eq_some.mpr ⟨p₀, hbefore, hfront⟩
  rw [← List.append_assoc] at h
  have hearlier := h.earlier hrun
  have hopened := ih hearlier
  obtain ⟨-, hsame⟩ | ⟨own, -, hown⟩ := (transition_of_step hstep).share end_
  · rw [hsame]
    exact hopened end_
  · have hreach := reachable_end hrun end_
    have hrunning := hreach.staged.opened (Or.inl (hopened end_))
    rw [(hearlier.steady_end hopened end_).phase_eq hreach hrunning
      (hearlier.told hopened end_).2 (Connection.transition_of_step hown)]
    exact hopened end_

end Conversing

/-- **What arrives at one end is what the other end sends**: at every moment the messages that have
arrived are the first ones sent, each once and unchanged, in the order in which the sends took the
writer lock. Neither end reports an error: it offers nothing but events, no operation fails with a
fault, no close frame is sent, and both ends stay open.

A client and a server have opened, and any number of operations go on at both ends, in every order
that is possible: messages in fragments of any size, pings, and the pongs that answer them. Nobody
closes or aborts, nobody is given up in the middle of its writing, and each end takes frames and
messages as large as those that the other one sends. The request of the client is one head; a path
that holds the end of a head would make it more. -/
theorem messages_in_order (hbefore : (fresh options keys).run before = some p₀)
    (hopen : ∀ end_, (p₀.get end_).phase = .opened) (hafter : p₀.run after = some p)
    (hsteady : (fresh options keys).steadily (before ++ after) = true)
    (honce : ∀ move ∈ before ++ after, move.greetsOnce options = true)
    (htakes : ∀ end_ : Role, (options end_).Takes (p.get end_.opposite).sentFrames
      ((fresh options keys).sends end_.opposite (before ++ after))) (end_ : Role) :
    ((fresh options keys).arrivals end_ (before ++ after)).filterMap Event.message? <+:
        (fresh options keys).sends end_.opposite (before ++ after) ∧
      (∀ item ∈ (p.get end_).offered, ∃ e, item = .ok e) ∧
      (∀ id fault, (p.get end_).answer? id ≠ some (.failed (.codec fault))) ∧
      (∀ f ∈ (p.get end_).sentFrames, f.isClose = false) ∧ (p.get end_).phase = .opened := by
  have hrun : (fresh options keys).run (before ++ after) = some p :=
    run_append_eq_some.mpr ⟨p₀, hbefore, hafter⟩
  have h : Conversing options keys (before ++ after) p := ⟨hrun, hsteady, honce, htakes⟩
  have hopened := h.opened hbefore hopen hafter
  have hending := (h.steady_end hopened end_).phase
  have hjoined := h.joined hopened
  obtain ⟨htold, -⟩ := h.told hopened end_
  have hoffered : ∀ item ∈ (p.get end_).offered, ∃ e, item = .ok e := by
    intro item hitem
    obtain ⟨e, -, rfl⟩ := List.mem_map.mp (htold.subset (List.mem_reverse.mpr hitem))
    exact ⟨e, rfl⟩
  refine ⟨?_, hoffered, ?_, ?_, hopened end_⟩
  · obtain ⟨taken, hqueue, harrived⟩ := Connection.arriving_of_run (run_end hrun end_)
      (steadily_end hrun hsteady end_) hending (hjoined end_).1
    have hfirst : taken <+: (p.get end_).offered.reverse := by
      rw [hqueue]
      exact List.prefix_append _ _
    have hevents := (hfirst.trans htold).filterMap eventOf?
    rw [List.filterMap_map, show eventOf? ∘ Except.ok = some from rfl, List.filterMap_some,
      ← harrived] at hevents
    have hmessages := hevents.filterMap Event.message?
    rw [Haul.filterMap_message?] at hmessages
    rw [arrivals, sends, get_fresh, get_fresh]
    exact hmessages
  · exact (Connection.faultless_of_run (run_end hrun end_) (steadily_end hrun hsteady end_) hending
      (hjoined end_).1 hoffered).answer?
  · have horderly := Connection.orderly_of_run (run_end hrun end_)
    have hsent := (horderly.unclaimed (horderly.calm hending)).2
    intro f hf
    obtain ⟨s, hs, rfl⟩ := List.mem_map.mp (List.mem_reverse.mp hf)
    exact hsent s hs

/-! ### A conversation -/

/-- The options of a client, and of a server that takes **small messages only**. -/
def talkOptions : Role → Options
  | .client => {}
  | .server => { maxFrameSize := 125, maxMessageSize := some 2 }

/-- Each end draws keys that differ. -/
def talkKeys : Role → Nat → Mask := fun _ n => ⟨UInt8.ofNat n, 1, 2, 3⟩

/-- Several actions of one task. -/
def acts (end_ : Role) (task : TaskId) (count : Nat) : List Move :=
  List.replicate count (.on end_ (.act task))

/-- The moves by which both ends **open**. -/
def greetingMoves : List Move :=
  [.on .client (.start 0 (.connect "h" "/" [] (List.replicate 16 0)))] ++
    acts .client (.call 0) 2 ++ [.on .server (.start 0 .accept)] ++ acts .server (.call 0) 1 ++
    [.carry .client 140, .on .server (.read 140)] ++ acts .server (.call 0) 3 ++
    [.carry .server 129, .on .client (.read 129)] ++ acts .client (.call 0) 2

/-- The moves in which a client sends a text in two fragments, a ping and another message, all at
once; the server gets them in two pieces, answers the ping, and receives three times. -/
def talkMoves : List Move :=
  [.on .client (.collect 0), .on .server (.collect 0),
    .on .client (.start 1 (.sendFragmented (Message.ofText "ab") 0)),
    .on .client (.start 2 (.ping [7])), .on .client (.start 3 (.send (Message.ofBytes [5])))] ++
    acts .client (.call 1) 2 ++ acts .client (.call 2) 3 ++ acts .client (.call 3) 2 ++
    acts .client (.call 1) 4 ++ acts .client (.call 2) 5 ++ acts .client (.call 3) 4 ++
    [.carry .client 5, .carry .client 23, .on .server (.read 28),
      .on .server (.start 1 .receive)] ++
    acts .server .reader 12 ++ acts .server (.call 1) 1 ++
    [.on .server (.collect 1), .on .server (.start 2 .receive)] ++ acts .server (.call 2) 1 ++
    [.on .server (.collect 2), .on .server (.start 3 .receive)] ++ acts .server (.call 3) 1

theorem phases_of_talkMoves :
    ((fresh talkOptions talkKeys).run greetingMoves).bind (fun p₀ =>
      (p₀.run talkMoves).map fun p =>
        ([p₀.client.phase, p₀.server.phase], [p.client.sentFrames, p.server.sentFrames])) =
      some ([.opened, .opened],
        [(Message.ofText "ab").fragments 0 ++ [Frame.ping [7], Frame.binary [5]],
          [Frame.pong [7]]]) := by
  decide +kernel

theorem messages_of_talkMoves :
    ((fresh talkOptions talkKeys).sends .client (greetingMoves ++ talkMoves),
      (fresh talkOptions talkKeys).sends .server (greetingMoves ++ talkMoves),
      (fresh talkOptions talkKeys).steadily (greetingMoves ++ talkMoves),
      (fresh talkOptions talkKeys).arrivals .server (greetingMoves ++ talkMoves)) =
      ([Message.ofText "ab", Message.ofBytes [5]], [], true,
        [.message (Message.ofText "ab"), .ping [7], .message (Message.ofBytes [5])]) := by
  decide +kernel

/-- What the client and the server send **is taken** by the other end. -/
theorem takes_of_talkMoves (end_ : Role) : (talkOptions end_).Takes
    (match end_ with
      | .client => [Frame.pong [7]]
      | .server => (Message.ofText "ab").fragments 0 ++ [Frame.ping [7], Frame.binary [5]])
    (match end_ with
      | .client => []
      | .server => [Message.ofText "ab", Message.ofBytes [5]]) := by
  cases end_ with
  | client => exact ⟨by decide, by decide, nofun⟩
  | server =>
      refine ⟨by decide, by decide, ?_⟩
      intro m hm
      simp only [List.mem_cons, List.not_mem_nil, or_false] at hm
      obtain rfl | rfl := hm
      · exact ⟨by decide, fun _ => by decide⟩
      · exact ⟨by decide, nofun⟩

/-- In such a conversation the server receives **the messages of the client**, in order, and the
ping that was sent between them. -/
theorem messages_in_order_of_talkMoves : ∃ p₀ p : Pair,
    (fresh talkOptions talkKeys).run greetingMoves = some p₀ ∧ p₀.run talkMoves = some p ∧
      (fresh talkOptions talkKeys).arrivals .server (greetingMoves ++ talkMoves) =
        [.message (Message.ofText "ab"), .ping [7], .message (Message.ofBytes [5])] ∧
      ((fresh talkOptions talkKeys).arrivals .server (greetingMoves ++ talkMoves)).filterMap
        Event.message? <+: [Message.ofText "ab", Message.ofBytes [5]] ∧
      (p.get .server).phase = .opened := by
  obtain ⟨p₀, hbefore, hfacts⟩ := Option.bind_eq_some_iff.mp phases_of_talkMoves
  obtain ⟨p, hafter, hfacts⟩ := Option.map_eq_some_iff.mp hfacts
  have hmessages := messages_of_talkMoves
  simp only [Prod.mk.injEq, List.cons.injEq, and_true] at hfacts hmessages
  obtain ⟨⟨hclient, hserver⟩, hfromClient, hfromServer⟩ := hfacts
  obtain ⟨hsendsClient, hsendsServer, hsteady, harrivals⟩ := hmessages
  have hopen : ∀ end_, (p₀.get end_).phase = .opened := by
    intro end_
    cases end_ with
    | client => exact hclient
    | server => exact hserver
  have htakes : ∀ end_ : Role, (talkOptions end_).Takes (p.get end_.opposite).sentFrames
      ((fresh talkOptions talkKeys).sends end_.opposite (greetingMoves ++ talkMoves)) := by
    intro end_
    have htaken := takes_of_talkMoves end_
    cases end_ with
    | client =>
        rw [show (p.get Role.client.opposite).sentFrames = _ from hfromServer,
          show Role.client.opposite = .server from rfl, hsendsServer]
        exact htaken
    | server =>
        rw [show (p.get Role.server.opposite).sentFrames = _ from hfromClient,
          show Role.server.opposite = .client from rfl, hsendsClient]
        exact htaken
  obtain ⟨harrived, -, -, -, hopened⟩ :=
    messages_in_order hbefore hopen hafter hsteady (by decide +kernel) htakes .server
  rw [show Role.server.opposite = .client from rfl, hsendsClient] at harrived
  exact ⟨p₀, p, hbefore, hafter, harrivals, harrived, hopened⟩

/-! ### A path with a head in it -/

/-- A path that goes on with **the rest of a request**, under the key that the client has drawn. -/
def forgedPath : String :=
  "/ HTTP/1.1\r\nHost: h\r\nUpgrade: websocket\r\nConnection: Upgrade\r\n" ++
    "Sec-WebSocket-Key: AAAAAAAAAAAAAAAAAAAAAA==\r\nSec-WebSocket-Version: 13\r\n\r\n"

/-- The moves by which both ends open, with a request that the server has **read out of the path**.
-/
def forgingMoves : List Move :=
  [.on .client (.start 0 (.connect "h" forgedPath [] (List.replicate 16 0)))] ++
    acts .client (.call 0) 2 ++ [.on .server (.start 0 .accept)] ++ acts .server (.call 0) 1 ++
    [.carry .client 275, .on .server (.read 275)] ++ acts .server (.call 0) 3 ++
    [.carry .server 129, .on .client (.read 129)] ++ acts .client (.call 0) 2

theorem faults_of_forgingMoves :
    ((fresh talkOptions talkKeys).run forgingMoves).bind (fun p₀ =>
      (p₀.run (acts .server .reader 9)).map fun p =>
        ([p₀.client.phase, p₀.server.phase], p.client.sentFrames, p.server.sentFrames,
          p.server.offered)) =
      some ([.opened, .opened], [],
        [Frame.close (some ⟨.protocolError, (Fault.violation (.reservedBits 2)).message⟩)],
        [.error (.codec (.violation (.reservedBits 2)))]) := by
  decide +kernel

theorem steady_of_forgingMoves :
    ((fresh talkOptions talkKeys).sends .client (forgingMoves ++ acts .server .reader 9),
      (fresh talkOptions talkKeys).sends .server (forgingMoves ++ acts .server .reader 9),
      (fresh talkOptions talkKeys).steadily (forgingMoves ++ acts .server .reader 9)) =
      ([], [], true) := by
  decide +kernel

/-- Without that condition on the request, **a server reports a fault** though nobody sends it
anything: the rest of the request stands in its stream of frames. -/
theorem not_messages_in_order :
    ¬ ∀ (options : Role → Options) (keys : Role → Nat → Mask) (before after : List Move)
        (p₀ p : Pair), (fresh options keys).run before = some p₀ →
        (∀ end_, (p₀.get end_).phase = .opened) → p₀.run after = some p →
        (fresh options keys).steadily (before ++ after) = true →
        (∀ end_ : Role, (options end_).Takes (p.get end_.opposite).sentFrames
          ((fresh options keys).sends end_.opposite (before ++ after))) →
        ∀ end_, ∀ item ∈ (p.get end_).offered, ∃ e, item = .ok e := by
  intro h
  obtain ⟨p₀, hbefore, hfacts⟩ := Option.bind_eq_some_iff.mp faults_of_forgingMoves
  obtain ⟨p, hafter, hfacts⟩ := Option.map_eq_some_iff.mp hfacts
  have hmoves := steady_of_forgingMoves
  simp only [Prod.mk.injEq, List.cons.injEq, and_true] at hfacts hmoves
  obtain ⟨⟨hclient, hserver⟩, hfromClient, hfromServer, hoffered⟩ := hfacts
  obtain ⟨hsendsClient, hsendsServer, hsteady⟩ := hmoves
  have hclientTakes : (talkOptions .client).Takes p.server.sentFrames
      ((fresh talkOptions talkKeys).sends .server (forgingMoves ++ acts .server .reader 9)) := by
    rw [hfromServer, hsendsServer]
    exact ⟨by decide, by decide +kernel, nofun⟩
  have hserverTakes : (talkOptions .server).Takes p.client.sentFrames
      ((fresh talkOptions talkKeys).sends .client (forgingMoves ++ acts .server .reader 9)) := by
    rw [hfromClient, hsendsClient]
    exact ⟨by decide, by decide, nofun⟩
  obtain ⟨e, he⟩ := h talkOptions talkKeys forgingMoves (acts .server .reader 9) p₀ p hbefore
    (fun | .client => hclient | .server => hserver) hafter hsteady
    (fun | .client => hclientTakes | .server => hserverTakes) .server
    (.error (.codec (.violation (.reservedBits 2)))) (hoffered ▸ List.mem_singleton_self _)
  cases he

end Pair

end WebSocket
