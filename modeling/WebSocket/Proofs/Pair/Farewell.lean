import WebSocket.Proofs.Connection.Course
import WebSocket.Proofs.Pair.Views

/-!
# How two ends part

A client and a server that face each other (`Pair.Facing`) learn from each other that it is over.
The reader of one end finds a reason to stop only in the close frame of the other, and by then it
has got everything that the other end had to say. So no end closes before the other one has sent its
close frame, and when both have to wait, the close frame of one end is answered by the other.

## Main results

* `Pair.Facing.heard_out`: an end that comes to its end has got **everything from the other one**.
* `Pair.Facing.signed_of_closed`: an end that has closed has sent **a close frame of its own**.
* `Pair.Facing.ended_of_quiet`: the close frame of one end brings **the reader of the other** to its
  end.
-/

namespace WebSocket

/-! ### Where a stream stops -/

theorem Codec.receivedAll_concat (role : Role) (keys : Nat → Mask) (drawn : Nat)
    (frames : List Frame) (f : Frame) :
    ∃ last, receivedAll role keys drawn (frames ++ [f]) =
      receivedAll role keys drawn frames ++ [last] := by
  induction frames generalizing drawn with
  | nil => exact ⟨_, rfl⟩
  | cons g frames ih =>
      obtain ⟨last, heq⟩ := ih (if drawsKey role g then drawn + 1 else drawn)
      exact ⟨last, by rw [List.cons_append, receivedAll, heq, receivedAll, List.cons_append]⟩

/-- Bytes that are read without a fault, and of which **nothing is read and nothing left**, are no
bytes. -/
theorem Codec.eq_nil_of_decodeAll {codec : Codec} {b : Bytes}
    (hframes : (codec.decodeAll b).frames = []) (hfault : (codec.decodeAll b).fault = none)
    (hrest : (codec.decodeAll b).rest = []) : b = [] := by
  cases hfirst : codec.decode b with
  | incomplete => rwa [decodeAll_of_incomplete hfirst] at hrest
  | fault e =>
      rw [decodeAll_of_fault hfirst] at hfault
      cases hfault
  | found f rest =>
      rw [decodeAll_of_found hfirst] at hframes
      cases hframes

/-- If a stream of frames **stops with its last frame** and not before, whoever has come to the stop
has got all of its bytes. -/
theorem Outlook.eq_nil_of_stopped {codec : Codec} {a : Assembly} {b more : Bytes}
    {front : List Frame} {last : Frame}
    (hall : codec.decodeAll (b ++ more) = ⟨front ++ [last], none, []⟩)
    (hfront : (ofFrames a front none).stopped = false)
    (hstop : (ofStream codec a b).stopped = true) : more = [] := by
  rw [Codec.decodeAll_append] at hall
  rw [ofStream] at hstop
  cases hread : codec.decodeAll b with
  | mk frames fault rest =>
      rw [hread] at hall hstop
      cases fault with
      | some e => cases (Codec.Frames.mk.inj hall).2.1
      | none =>
          obtain ⟨hframes, hfault, hrest⟩ := Codec.Frames.mk.inj hall
          obtain heq | hearlier := List.prefix_concat_iff.mp ⟨_, hframes⟩
          · have hnone : (codec.decodeAll (rest ++ more)).frames = [] := by
              rw [heq] at hframes
              exact List.append_right_eq_self.mp hframes
            exact (List.append_eq_nil_iff.mp (Codec.eq_nil_of_decodeAll hnone hfault hrest)).2
          · obtain ⟨later, rfl⟩ := hearlier
            rw [ofFrames_append] at hfront
            cases hstop.symm.trans (stopped_of_andThen hfront).1

namespace Pair

open Connection

/-- **Two ends that face each other**, each followed on its own: what comes to one is what goes out
of the other, each takes what the other sends, and the stream of an end that has not sent
everything, the close frame included, goes on. -/
structure Facing (options : Role → Options) (keys : Role → Nat → Mask)
    (moves : Role → List Connection.Move) (ends : Role → Connection) : Prop where
  course : ∀ end_, Course end_ (options end_) (keys end_) (moves end_) (ends end_)
  pipe : ∀ end_, peerBytes (moves end_) =
    (Connection.new end_.opposite (options end_.opposite) (keys end_.opposite)).departures
      (moves end_.opposite)
  takes : ∀ end_, (options end_).Takes (ends end_.opposite).sentFrames
    ((Connection.new end_.opposite (options end_.opposite) (keys end_.opposite)).sends
      (moves end_.opposite))
  ended : ∀ end_, (ends end_).transport.ending ≠ none → (ends end_.opposite).Spent

namespace Facing

variable {options : Role → Options} {keys : Role → Nat → Mask}
  {moves : Role → List Connection.Move} {ends : Role → Connection}

/-- What one end **has got and what is still to come** are the frames of the other end. -/
theorem reads (h : Facing options keys moves ends) (end_ : Role) :
    ∃ stream, Telling stream (ends end_) ∧
      (ends end_).codec.decodeAll (stream ++ (ends end_.opposite).pending) =
        ⟨Codec.receivedAll (ends end_.opposite).role (ends end_.opposite).keys 0
          (ends end_.opposite).sentFrames, none, []⟩ := by
  have hother := h.course end_.opposite
  obtain ⟨hrole, hoptions⟩ := (h.course end_).settings
  obtain ⟨-, ⟨head, stream, hhead, htelling⟩, -⟩ := (h.course end_).accounts
  rw [h.pipe] at hhead
  refine ⟨stream, htelling,
    decodeAll_of_departing hother.outgoing.departing hother.isHead hhead ?_ ?_⟩
  · rw [hrole, hother.settings.1]
    exact (Role.opposite_opposite end_).symm
  · rw [hoptions]
    exact fits_of_hauling hother.run hother.outgoing.hauling (h.takes end_)

/-- The frames of one end tell the other one of the end **exactly when** the close frame is among
them. -/
theorem stopped_iff (h : Facing options keys moves ends) (end_ : Role) :
    (Outlook.ofFrames (.fresh (ends end_).options.maxMessageSize) (ends end_.opposite).sentFrames
      none).stopped = true ↔ (ends end_.opposite).Signed := by
  rw [(h.course end_).settings.2]
  exact (h.course end_.opposite).stopped_iff (h.takes end_).admits

/-- **An end that comes to its end** has got everything from the other one, which has nothing left
to say. -/
theorem heard_out (h : Facing options keys moves ends) (end_ : Role)
    (hstop : (ends end_).reader.outlook.stopped = true) :
    (ends end_.opposite).Spent ∧ Outlook.ofFrames (.fresh (ends end_).options.maxMessageSize)
      (ends end_.opposite).sentFrames none =
        ⟨(ends end_).offered.reverse ++ (ends end_).reader.outlook.items, true⟩ := by
  obtain ⟨stream, htelling, hread⟩ := h.reads end_
  have hall := outlook_of_decodeAll hread
  cases htelling with
  | ended _ hend htold =>
      obtain ⟨hsigned, hpending⟩ := h.ended end_ hend
      rw [hpending, List.append_nil, htold] at hall
      exact nomatch (congrArg Outlook.stopped hall).trans ((h.stopped_iff end_).mpr hsigned)
  | going htold =>
      have hwhole : ∀ more, (ends end_).outlook (stream ++ more) =
          ⟨(ends end_).offered.reverse ++ (ends end_).reader.outlook.items, true⟩ := by
        intro more
        rw [htold, Outlook.mk_false_andThen, Outlook.andThen, if_pos hstop, hstop]
      rw [hwhole] at hall
      have hsigned := (h.stopped_iff end_).mp (congrArg Outlook.stopped hall).symm
      refine ⟨⟨hsigned, ?_⟩, hall.symm⟩
      obtain ⟨status, hmem⟩ := hsigned
      obtain ⟨-, earlier, hregular, hmessages, hframes⟩ := (h.course end_.opposite).signs hmem
      obtain ⟨last, hreceived⟩ := Codec.receivedAll_concat (ends end_.opposite).role
        (ends end_.opposite).keys 0 (earlier.flatMap Haul.frames) (Frame.close status)
      rw [hframes, hreceived] at hread
      have hadmitted := (h.takes end_).admits
      rw [← hmessages, ← (h.course end_).settings.2] at hadmitted
      refine Outlook.eq_nil_of_stopped (a := .fresh (ends end_).options.maxMessageSize) hread ?_ ?_
      · rw [Outlook.ofFrames_receivedAll, Outlook.ofFrames_hauls hregular hadmitted]
      · have hstream := congrArg Outlook.stopped (hwhole [])
        rwa [List.append_nil] at hstream

/-- An end that winds up **has been told** the messages of the other one, pings and pongs, and
behind them what arrives of its status, and nothing else. -/
theorem told (h : Facing options keys moves ends) (end_ : Role)
    (hover : (ends end_).reader.isOver = true) {status : Option Close.Status}
    (hmem : Frame.close status ∈ (ends end_.opposite).sentFrames) :
    ∃ events : List Event, (∀ s, .close s ∉ events) ∧
      events.filterMap Event.message? = (Connection.new end_.opposite (options end_.opposite)
        (keys end_.opposite)).sends (moves end_.opposite) ∧
          (ends end_).offered.reverse =
            events.map .ok ++ [.ok (.close (status.map Close.Status.received))] := by
  have hscript := ((h.course end_).reach.scripted.reader).outlook_of_isOver hover
  obtain ⟨-, hall⟩ := h.heard_out end_ (by rw [hscript.1])
  have hadmitted := (h.takes end_).admits
  rw [← (h.course end_).settings.2] at hadmitted
  obtain ⟨events, hnot, hmessages, htells⟩ := (h.course end_.opposite).tells hadmitted hmem
  rw [hall, hscript.1, List.append_nil] at htells
  exact ⟨events, hnot, hmessages, (Outlook.mk.inj htells).1⟩

/-- The **looks** that the reader of an end took before it wound up: the last one was at the close
frame of the other end, and no other one at any close frame. -/
theorem looked (h : Facing options keys moves ends) (end_ : Role)
    (hover : (ends end_).reader.isOver = true) {status : Option Close.Status}
    (hmem : Frame.close status ∈ (ends end_.opposite).sentFrames) :
    ∃ (start : Connection) (own : List Connection.Move), start.run own = some (ends end_) ∧
      Replying (start.looks own) (ends end_) ∧
        ∀ payload, (∃ look ∈ start.looks own, look.occasion = .stop payload) ↔
          payload = (Frame.close (status.map fun s =>
            ⟨Script.replyCode s.received.code, ""⟩)).payload := by
  obtain ⟨-, -, ⟨start, own, hrun, hreplying⟩, -⟩ := (h.course end_).accounts
  refine ⟨start, own, hrun, hreplying, fun payload => ?_⟩
  have hscript := ((h.course end_).reach.scripted.reader).outlook_of_isOver hover
  obtain ⟨events, hnot, -, htold⟩ := h.told end_ hover hmem
  have hmet := hreplying.met
  rw [hscript.1, hscript.2, List.append_nil, List.append_nil, htold, List.filterMap_append] at hmet
  have hlooks : (∃ look ∈ start.looks own, look.occasion = .stop payload) ↔
      .stop payload ∈ (start.looks own).map Look.occasion := List.mem_map.symm
  rw [hlooks, hmet, List.mem_append]
  constructor
  · rintro (hearlier | hlast)
    · obtain ⟨item, hitem, hstop⟩ := List.mem_filterMap.mp hearlier
      obtain ⟨e, he, rfl⟩ := List.mem_map.mp hitem
      cases e with
      | close s => exact absurd he (hnot s)
      | _ => cases hstop
    · obtain rfl := Occasion.stop.inj (List.mem_singleton.mp hlast)
      cases status <;> rfl
  · rintro rfl
    refine .inr (List.mem_singleton.mpr ?_)
    cases status <;> rfl

/-- An end that has closed **has sent a close frame of its own**, once nobody has more to write. -/
theorem signed_of_closed (h : Facing options keys moves ends) (end_ : Role)
    (hclosed : (ends end_).phase = .closed) (hidle : ∀ task, ((ends end_).script task).cargo = []) :
    (ends end_).Signed := by
  have hover := (h.course end_).living.isOver hclosed
  have hscript := ((h.course end_).reach.scripted.reader).outlook_of_isOver hover
  obtain ⟨⟨⟨status, hmem⟩, -⟩, -⟩ := h.heard_out end_ (by rw [hscript.1])
  obtain ⟨start, own, hrun, hreplying, hlooks⟩ := h.looked end_ hover hmem
  obtain ⟨look, hlook, hstop⟩ := (hlooks _).mpr rfl
  have hclaim := closeSent_of_looks hrun look hlook _ hstop
  cases (h.course end_).endedBy with
  | nobody _ hnone => exact nomatch hclaim.symm.trans hnone
  | closer _ _ hsets =>
      cases hsets with
      | claiming hnone => exact nomatch hclaim.symm.trans hnone
      | @writing status _ hframe =>
          rw [hidle, List.append_nil] at hframe
          exact ⟨status, mem_sentFrames_of_sentBy hframe⟩

/-- The close frame that the reader has written **answers** the one of the other end: with its code,
if this may be sent, and without a reason. -/
theorem reply_eq (h : Facing options keys moves ends) (end_ : Role)
    (hover : (ends end_).reader.isOver = true) {status theirs : Option Close.Status}
    (hmem : Frame.close theirs ∈ (ends end_.opposite).sentFrames)
    (hframe : Frame.close status ∈ (ends end_).sentBy .reader) :
    Frame.close status =
      Frame.close (theirs.map fun s => ⟨Script.replyCode s.received.code, ""⟩) := by
  obtain ⟨start, own, -, hreplying, hlooks⟩ := h.looked end_ hover hmem
  have hreplies : Frame.close status ∈ replies (start.looks own) := by
    rw [← hreplying.written]
    exact List.mem_append_left _ hframe
  obtain ⟨look, hlook, hcalled⟩ := List.mem_map.mp hreplies
  cases hoccasion : look.occasion with
  | ping payload =>
      rw [hoccasion] at hcalled
      cases congrArg Frame.opcode hcalled
  | stop payload =>
      rw [hoccasion] at hcalled
      have hpayload := (hlooks payload).mp ⟨look, (List.mem_filter.mp hlook).1, hoccasion⟩
      rw [← hcalled, hpayload]
      rfl

/-- The close frame of one end brings the **reader of the other** to its end, as soon as everything
has gone out, the application has room for events, and everybody has to wait. -/
theorem ended_of_quiet (h : Facing options keys moves ends) (end_ : Role)
    (hspent : (ends end_.opposite).Spent)
    (hquiet : (ends end_).isQuiet = true) (hstalled : (ends end_).transport.stalled = false)
    (hroom : (ends end_).events.length < (ends end_).capacity) : (ends end_).reader = [] := by
  have hcourse := h.course end_
  obtain hended | ⟨item, more, hreader, -⟩ | ⟨hreader, hd, -⟩ :=
    reader_of_quiet hcourse.reach.locked hcourse.reach.scripted hquiet hstalled
  · exact hended
  · exact absurd (full_of_quiet hquiet hreader) (Nat.not_le.mpr hroom)
  · obtain ⟨stream, htelling, hread⟩ := h.reads end_
    have hgoing := htelling.outlook_of_reading hreader (act_of_quiet hquiet).1 hd
    rw [hspent.2, List.append_nil] at hread
    rw [outlook_of_decodeAll hread] at hgoing
    exact nomatch ((h.stopped_iff end_).mpr hspent.1).symm.trans (congrArg Outlook.stopped hgoing)

end Facing

end Pair

end WebSocket
