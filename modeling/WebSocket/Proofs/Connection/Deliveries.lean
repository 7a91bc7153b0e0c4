import WebSocket.Proofs.Connection.Arrivals
import WebSocket.Proofs.Connection.Departures
import WebSocket.Proofs.Connection.Hauls
import WebSocket.Proofs.Handshake.Written
import WebSocket.Proofs.Message.Splits

/-!
# What one connection tells another

Every haul that a connection sends tells the other end one event: its message, or the ping or the
pong that it is. So a connection which gets the bytes of another one, and which takes frames and
messages of that size, has nothing but these events to offer, in the order in which the other one's
tasks took the writer lock, and its reader finds no reason to stop.

## Main results

* `Outlook.ofFrames_hauls`: hauls tell **their events**.
* `Connection.told_of_run`: what a connection offers is what **the hauls of the other one** tell.
-/

namespace WebSocket

/-- The message of an event, if it brings one. -/
def Event.message? : Event → Option Message
  | .message m => some m
  | _ => none

/-- The event that a frame is **by itself**. -/
def Frame.event? (f : Frame) : Option Event :=
  match f.opcode with
  | .ping => some (.ping f.payload)
  | .pong => some (.pong f.payload)
  | .continuation | .text | .binary | .close => none

/-- The event that a haul **tells the other end**: its message, or else the control frame that it
is. -/
def Haul.event? (haul : Haul) : Option Event :=
  match haul.message? with
  | some m => some (.message m)
  | none => haul.frames.head?.bind Frame.event?

/-- The events of hauls bring **the messages of the hauls**. -/
theorem Haul.message?_event? (haul : Haul) : haul.event?.bind Event.message? = haul.message? := by
  obtain ⟨frames, message⟩ := haul
  cases message with
  | some m => rfl
  | none =>
      match frames with
      | [] => rfl
      | f :: _ =>
          simp only [event?, List.head?_cons, Option.bind_some, Frame.event?]
          cases f.opcode <;> rfl

theorem Haul.filterMap_message? (hauls : List Haul) :
    (hauls.filterMap event?).filterMap Event.message? = hauls.filterMap message? := by
  rw [List.filterMap_filterMap]
  exact congrArg (List.filterMap · hauls) (funext message?_event?)

namespace Outlook

/-! ### Frames behind frames -/

variable {a : Assembly} {limit : Option Nat}

theorem andThen_assoc (o next last : Outlook) :
    (o.andThen next).andThen last = o.andThen (next.andThen last) := by
  obtain ⟨items, stopped⟩ := o
  obtain ⟨items', stopped'⟩ := next
  cases stopped with
  | true => rfl
  | false =>
      cases stopped' with
      | true => rfl
      | false => simp only [mk_false_andThen, List.append_assoc]

/-- Frames tell what they tell **and then** what the frames behind them tell. -/
theorem ofFrames_append (a : Assembly) (frames more : List Frame) (fault : Option Fault) :
    ofFrames a (frames ++ more) fault =
      (ofFrames a frames none).andThen (ofFrames (a.after frames) more fault) := by
  induction frames generalizing a with
  | nil => rfl
  | cons f frames ih =>
      rw [List.cons_append, ofFrames, ofFrames, ih, andThen_assoc, Assembly.after_cons]

/-- An outlook that does not stop has not stopped **earlier** either. -/
theorem stopped_of_andThen {o next : Outlook} (h : (o.andThen next).stopped = false) :
    o.stopped = false ∧ next.stopped = false := by
  obtain ⟨items, stopped⟩ := o
  cases stopped with
  | true => cases h
  | false => exact ⟨rfl, h⟩

/-! ### Masks -/

/-- Of a frame that was on the wire an assembly makes **what it makes of the frame itself**. -/
theorem feed_received (a : Assembly) (role : Role) (key : Mask) (f : Frame) :
    (a.feed (Codec.received role key f)).1 = (a.feed f).1 ∧
      ofAssembled (a.feed (Codec.received role key f)).2 = ofAssembled (a.feed f).2 := by
  by_cases hcontrol : f.opcode.isControl = true
  · rw [Assembly.feed_control a hcontrol,
      Assembly.feed_control a (f := Codec.received role key f) hcontrol]
    exact ⟨rfl, rfl⟩
  · have hsame : a.feed (Codec.received role key f) = a.feed f := by
      obtain ⟨limit, pending⟩ := a
      obtain ⟨fin, rsv, opcode, mask, payload⟩ := f
      cases opcode with
      | close | ping | pong => exact absurd rfl hcontrol
      | _ => cases pending <;> rfl
    rw [hsame]
    exact ⟨rfl, rfl⟩

/-- Frames that were on the wire tell **what the frames tell**. -/
theorem ofFrames_receivedAll (a : Assembly) (role : Role) (keys : Nat → Mask) (drawn : Nat)
    (frames : List Frame) (fault : Option Fault) :
    ofFrames a (Codec.receivedAll role keys drawn frames) fault = ofFrames a frames fault := by
  induction frames generalizing a drawn with
  | nil => rfl
  | cons f frames ih =>
      obtain ⟨hassembly, htells⟩ := feed_received a role (keys drawn) f
      rw [Codec.receivedAll, ofFrames, ofFrames, hassembly, htells, ih]

/-! ### Hauls -/

/-- What frames tell can be read off **what an assembly gives** for them. -/
theorem ofFrames_eq_foldr (a : Assembly) (frames : List Frame) :
    ofFrames a frames none =
      (a.outputs frames).foldr (fun output next => (ofAssembled output).andThen next) silent := by
  induction frames generalizing a with
  | nil => rfl
  | cons f frames ih => rw [ofFrames, ih, Assembly.outputs, List.foldr_cons]

/-- The fragments of a message tell **the message**. -/
theorem ofFrames_fragments {m : Message} (h : m.Admitted limit) (size : Nat) :
    ofFrames (.fresh limit) (m.fragments size) none = event (.message m) ∧
      (Assembly.fresh limit).after (m.fragments size) = .fresh limit := by
  obtain ⟨count, houtputs, hafter⟩ := Message.outputs_fragments h size
  refine ⟨?_, hafter⟩
  rw [ofFrames_eq_foldr, houtputs]
  clear houtputs
  induction count with
  | zero => rfl
  | succ count ih =>
      rw [List.replicate_succ, List.cons_append, List.foldr_cons, ih]
      rfl

/-- **A haul tells one event**, and leaves no message unfinished. -/
theorem ofFrames_haul {haul : Haul} (h : haul.Regular)
    (hadmitted : ∀ m ∈ haul.message?, m.Admitted limit) :
    (∃ e, haul.event? = some e ∧ ofFrames (.fresh limit) haul.frames none = event e) ∧
      (Assembly.fresh limit).after haul.frames = .fresh limit := by
  cases h with
  | @message m size =>
      obtain ⟨htells, hafter⟩ := ofFrames_fragments (hadmitted m rfl) size
      exact ⟨⟨.message m, rfl, htells⟩, hafter⟩
  | @ping payload => exact ⟨⟨.ping payload, rfl, rfl⟩, rfl⟩
  | @pong payload => exact ⟨⟨.pong payload, rfl, rfl⟩, rfl⟩

/-- **Hauls tell their events**, one each and in order, and nothing stops the stream. -/
theorem ofFrames_hauls {hauls : List Haul} (h : ∀ haul ∈ hauls, haul.Regular)
    (hadmitted : ∀ m ∈ hauls.filterMap Haul.message?, m.Admitted limit) :
    ofFrames (.fresh limit) (hauls.flatMap Haul.frames) none =
      ⟨(hauls.filterMap Haul.event?).map .ok, false⟩ := by
  induction hauls with
  | nil => rfl
  | cons haul hauls ih =>
      obtain ⟨hfirst, hrest⟩ := List.forall_mem_cons.mp h
      have hown : ∀ m ∈ haul.message?, m.Admitted limit := fun m hm =>
        hadmitted m (List.mem_filterMap.mpr ⟨haul, List.mem_cons_self .., hm⟩)
      have hothers : ∀ m ∈ hauls.filterMap Haul.message?, m.Admitted limit := by
        intro m hm
        obtain ⟨other, hother, hm⟩ := List.mem_filterMap.mp hm
        exact hadmitted m (List.mem_filterMap.mpr ⟨other, List.mem_cons_of_mem _ hother, hm⟩)
      obtain ⟨⟨e, hevent, htells⟩, hafter⟩ := ofFrames_haul hfirst hown
      rw [List.flatMap_cons, ofFrames_append, htells, hafter, ih hrest hothers,
        List.filterMap_cons_some hevent]
      rfl

end Outlook

/-- **What an end has to take** of the other one, which has sent some messages and handed some
frames to its writer: every control frame, every data frame so far, and every message. -/
structure Options.Takes (options : Options) (frames : List Frame) (messages : List Message) : Prop
    where
  control : Frame.maxControlPayload ≤ options.maxFrameSize
  data : ∀ f ∈ frames, f.isControl = false → f.payload.length ≤ options.maxFrameSize
  admits : ∀ m ∈ messages, m.Admitted options.maxMessageSize

/-- What is taken later is **taken now**. -/
theorem Options.Takes.mono {options : Options} {frames frames' : List Frame}
    {messages messages' : List Message} (h : options.Takes frames' messages')
    (hframes : frames <+: frames') (hmessages : messages <+: messages') :
    options.Takes frames messages where
  control := h.control
  data := fun f hf => h.data f (hframes.subset hf)
  admits := fun m hm => h.admits m (hmessages.subset hm)

/-- The control frames of hauls are **short**. -/
theorem Haul.Regular.length_le {haul : Haul} (h : haul.Regular) {f : Frame} (hf : f ∈ haul.frames)
    (hcontrol : f.isControl = true) : f.payload.length ≤ Frame.maxControlPayload := by
  cases h with
  | message =>
      obtain ⟨opcode, part, fin, rfl, hdata, -⟩ := Message.piece_of_mem_fragments hf
      rw [show (Frame.piece opcode part fin).isControl = opcode.isControl from rfl, hdata]
        at hcontrol
      cases hcontrol
  | ping hlength =>
      obtain rfl := List.mem_singleton.mp hf
      exact hlength
  | pong hlength =>
      obtain rfl := List.mem_singleton.mp hf
      exact hlength

/-- So are those of all hauls. -/
theorem Haul.Proper.length_le {haul : Haul} (h : haul.Proper) {f : Frame} (hf : f ∈ haul.frames)
    (hcontrol : f.isControl = true) : f.payload.length ≤ Frame.maxControlPayload := by
  obtain hregular | ⟨status, rfl⟩ := h
  · exact hregular.length_le hf hcontrol
  · obtain rfl := List.mem_singleton.mp hf
    exact Frame.length_close_le status

namespace Connection

variable {c d : Connection} {role : Role} {options options' : Options} {keys keys' : Nat → Mask}
  {moves moves' : List Move}

/-- The frames that were handed to the writer **can be sent and taken**. -/
theorem fits_of_hauling (hrun : (new role options keys).run moves = some d)
    (hhauling : Hauling (((new role options keys).hauls moves).flatMap Haul.frames) d)
    (htakes : options'.Takes d.sentFrames ((new role options keys).sends moves)) :
    ∀ f ∈ d.sentFrames, (∃ key written, d.codec.encode key f = .ok written) ∧
      f.payload.length ≤ options'.maxFrameSize := by
  intro f hf
  have hproper := proper_of_run hrun
  have hmem := hhauling.isPrefix.subset hf
  have hsendable : f.IsSendable := by
    obtain ⟨s, hs, rfl⟩ := List.mem_map.mp (List.mem_reverse.mp hf)
    exact ((reachable_new role options keys).run hrun).sendable.sent s hs
  refine ⟨⟨Mask.zero, hsendable d.codec Mask.zero⟩, ?_⟩
  by_cases hcontrol : f.isControl = true
  · obtain ⟨haul, hhaul, hin⟩ := List.mem_flatMap.mp hmem
    exact Nat.le_trans ((hproper haul hhaul).length_le hin hcontrol) htakes.control
  · exact htakes.data f hf (Bool.eq_false_iff.mpr hcontrol)

/-- They tell **the events of the hauls**, as far as the hauls have got. -/
theorem tells_of_run (hrun : (new role options keys).run moves = some d)
    (hsteady : (new role options keys).steadily moves = true) (hphase : d.phase.isEnding = false)
    (hunbroken : d.transport.broken = false)
    (htakes : options'.Takes d.sentFrames ((new role options keys).sends moves)) :
    ∃ next, (Outlook.ofFrames (.fresh options'.maxMessageSize) d.sentFrames none).andThen next =
      ⟨(((new role options keys).hauls moves).filterMap Haul.event?).map .ok, false⟩ := by
  obtain ⟨hregular, hhauling⟩ := hauling_of_run hrun hsteady hphase hunbroken
  obtain ⟨later, hlater⟩ := hhauling.isPrefix
  have hwhole := Outlook.ofFrames_hauls hregular htakes.admits
  rw [← hlater, Outlook.ofFrames_append] at hwhole
  exact ⟨_, hwhole⟩

/-- **What has come and what is still on its way** are the frames that the other end has handed to
its writer, behind the head that it wrote in its handshake. -/
theorem decodeAll_of_departing {departed greeted head stream : Bytes} {limit : Nat}
    (hdeparting : Departing departed greeted d) (hgreeting : Handshake.IsHead greeted)
    (hhead : Handshake.headProgress limit departed = .done head stream)
    (hrole : c.role = d.role.opposite)
    (hfits : ∀ f ∈ d.sentFrames, (∃ key written, d.codec.encode key f = .ok written) ∧
      f.payload.length ≤ c.options.maxFrameSize) :
    c.codec.decodeAll (stream ++ (d.transport.outgoing ++ d.held)) =
      ⟨Codec.receivedAll d.role d.keys 0 d.sentFrames, none, []⟩ := by
  obtain ⟨-, written, hwritten, hgone⟩ := hdeparting
  have hstream : written = stream ++ (d.transport.outgoing ++ d.held) := by
    have hsent := Handshake.headProgress_append hhead (d.transport.outgoing ++ d.held)
    rw [hgone] at hsent
    exact (Handshake.rest_of_isHead hgreeting hsent).symm
  have hopposite : c.codec.role = d.codec.role.opposite := hrole
  obtain ⟨bytes, hbytes, hdecoded⟩ := Codec.decodeAll_encodeAll hopposite d.keys 0 d.sentFrames
    (fun f hf => (hfits f hf).1) (fun f hf => (hfits f hf).2)
  obtain rfl : bytes = written := Except.ok.inj (hbytes.symm.trans hwritten)
  rw [← hstream]
  exact hdecoded

/-- A stream that is read as some frames **tells what they tell**. -/
theorem outlook_of_decodeAll {b : Bytes} {sender : Role} {drawn : Nat → Mask} {frames : List Frame}
    (h : c.codec.decodeAll b = ⟨Codec.receivedAll sender drawn 0 frames, none, []⟩) :
    c.outlook b = Outlook.ofFrames (.fresh c.options.maxMessageSize) frames none := by
  rw [outlook, Outlook.ofStream, h]
  exact Outlook.ofFrames_receivedAll ..

/-- **What one end offers is what the hauls of the other end tell**, each once and in order, and its
reader goes on. The other end is in use, what it writes in its handshake is one head, and the bytes
that came from it are those that went out of it. -/
theorem told_of_run (hsender : (new role.opposite options' keys').run moves' = some d)
    (hsteady : (new role.opposite options' keys').steadily moves' = true)
    (hphase : d.phase.isEnding = false) (hunbroken' : d.transport.broken = false)
    (htakes : options.Takes d.sentFrames ((new role.opposite options' keys').sends moves'))
    (hgreeting : Handshake.IsHead ((new role.opposite options' keys').greetings moves'))
    (hpipe : peerBytes moves = (new role.opposite options' keys').departures moves')
    (hreceiver : (new role options keys).run moves = some c) (hopen : c.phase = .opened)
    (hunbroken : c.transport.broken = false) (huncancelled : c.cancelled = false)
    (hending : c.transport.ending = none) :
    c.offered.reverse <+:
        (((new role.opposite options' keys').hauls moves').filterMap Haul.event?).map .ok ∧
      c.reader.outlook.stopped = false := by
  have hsettings := settings_of_run (reachable_new role.opposite options' keys') hsender
  obtain ⟨hrole, hoptions, -, head, stream, hhead, htelling⟩ :=
    telling_of_run hreceiver hopen hunbroken huncancelled
  rw [hpipe] at hhead
  obtain ⟨next, htells⟩ := tells_of_run hsender hsteady hphase hunbroken' htakes
  have hfits := fits_of_hauling hsender
    (hauling_of_run hsender hsteady hphase hunbroken').2 htakes
  have hread := outlook_of_decodeAll (decodeAll_of_departing (c := c)
    (departing_of_run hsender hsteady hphase hunbroken') hgreeting hhead
    (by rw [hrole, hsettings.1]; exact (Role.opposite_opposite role).symm)
    (by rw [hoptions]; exact hfits))
  cases htelling with
  | ended _ hends => exact absurd hending hends
  | going h =>
      have hwhole := h (d.transport.outgoing ++ d.held)
      rw [hread, hoptions] at hwhole
      rw [hwhole, Outlook.andThen_assoc, Outlook.mk_false_andThen] at htells
      obtain ⟨hitems, hstopped⟩ := Outlook.mk.inj htells
      refine ⟨?_, ?_⟩
      · rw [← hitems]
        exact List.prefix_append _ _
      · have hgoing := Outlook.stopped_of_andThen hstopped
        exact (Outlook.stopped_of_andThen hgoing.1).1

end Connection

end WebSocket
