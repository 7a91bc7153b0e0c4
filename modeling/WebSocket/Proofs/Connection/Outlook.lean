import WebSocket.Connection.State
import WebSocket.Proofs.Frame.Stream

/-!
# What a stream has to tell

A stream of bytes, cut into frames and put together into messages, amounts to a list of items for
the application: events, and at most one error. The list ends with a close event or with the error,
if one of them comes. This **outlook** of a stream depends on its bytes alone: not on how they
arrive, nor on when they are read, nor on what is done with the items.

A script has an outlook too: the items that it is about to offer, and whether the reader goes on
behind them.

## Main results

* `Outlook.ofStream_of_found`: the outlook of a stream is that of **its first frame and then** that
  of the rest.
* `Script.outlook_ofAssembled`: what the reader does about a frame offers what the frame tells.
-/

namespace WebSocket

/-- What a stream **has to tell**. -/
structure Outlook where
  /-- The events, and perhaps an error at the end. -/
  items : List (Except ConnectionError Event)
  /-- Whether the last item ended the stream. -/
  stopped : Bool

namespace Outlook

/-- Nothing, for the time being. -/
def silent : Outlook := ⟨[], false⟩

/-- An event, with more to come. -/
def event (e : Event) : Outlook := ⟨[.ok e], false⟩

/-- The item that is the last one. -/
def last (item : Except ConnectionError Event) : Outlook := ⟨[item], true⟩

/-- One outlook **and then** another; behind the end there is nothing. -/
def andThen (o next : Outlook) : Outlook :=
  if o.stopped then o else ⟨o.items ++ next.items, next.stopped⟩

theorem mk_true_andThen (items : List (Except ConnectionError Event)) (o : Outlook) :
    (Outlook.mk items true).andThen o = ⟨items, true⟩ := rfl

theorem mk_false_andThen (items : List (Except ConnectionError Event)) (o : Outlook) :
    (Outlook.mk items false).andThen o = ⟨items ++ o.items, o.stopped⟩ := rfl

/-- What one outlook tells first can be told **before it**. -/
theorem cons_andThen (told items : List (Except ConnectionError Event)) (stopped : Bool)
    (item : Except ConnectionError Event) (next : Outlook) :
    (Outlook.mk told false).andThen ((Outlook.mk (item :: items) stopped).andThen next) =
      (Outlook.mk (told ++ [item]) false).andThen ((Outlook.mk items stopped).andThen next) := by
  cases stopped with
  | true => simp only [mk_false_andThen, mk_true_andThen, List.append_assoc, List.singleton_append]
  | false => simp only [mk_false_andThen, List.append_assoc, List.cons_append, List.nil_append]

/-- What a **control frame** tells. A close frame ends the stream, whether its payload can be read
or not. -/
def ofControl (f : Frame) : Outlook :=
  match f.opcode with
  | .ping => event (.ping f.payload)
  | .pong => event (.pong f.payload)
  | .close =>
    match Close.parse f.payload with
    | .error v => last (.error (.codec (.violation v)))
    | .ok reading => last (.ok (.close reading.status?))
  | .continuation | .text | .binary => silent

/-- What a frame tells, by what it **completes**. -/
def ofAssembled : Except Fault (Option Assembled) → Outlook
  | .error fault => last (.error (.codec fault))
  | .ok none => silent
  | .ok (some (.message m)) => event (.message m)
  | .ok (some (.control f)) => ofControl f

/-- What a list of **frames** tells, with a fault behind them if there is one. -/
def ofFrames (a : Assembly) : List Frame → Option Fault → Outlook
  | [], none => silent
  | [], some fault => last (.error (.codec fault))
  | f :: more, fault => (ofAssembled (a.feed f).2).andThen (ofFrames (a.feed f).1 more fault)

/-- What a **stream of bytes** tells: it is cut into frames, and each frame is fed to an
assembly. -/
def ofStream (codec : Codec) (a : Assembly) (b : Bytes) : Outlook :=
  ofFrames a (codec.decodeAll b).frames (codec.decodeAll b).fault

variable {codec : Codec} {b rest : Bytes}

/-- While the first frame is not whole, there is nothing to tell. -/
theorem ofStream_of_incomplete (a : Assembly) (h : codec.decode b = .incomplete) :
    ofStream codec a b = silent := by
  rw [ofStream, Codec.decodeAll_of_incomplete h]
  rfl

/-- Bytes that are no frame end the stream. -/
theorem ofStream_of_fault (a : Assembly) {fault : Fault} (h : codec.decode b = .fault fault) :
    ofStream codec a b = last (.error (.codec fault)) := by
  rw [ofStream, Codec.decodeAll_of_fault h]
  rfl

/-- A stream tells what **its first frame** tells, and then what the rest tells. -/
theorem ofStream_of_found (a : Assembly) {f : Frame} (h : codec.decode b = .found f rest) :
    ofStream codec a b =
      (ofAssembled (a.feed f).2).andThen (ofStream codec (a.feed f).1 rest) := by
  rw [ofStream, Codec.decodeAll_of_found h]
  rfl

end Outlook

/-! ### What a script has to tell -/

namespace Script

/-- What a script of the reader **has to tell**: what it is about to offer, and whether the reader
goes on behind that. -/
def outlook (script : Script) : Outlook where
  items := script.filterMap fun
    | .offer item => some item
    | _ => none
  stopped := !script.any fun
    | .readFrame => true
    | _ => false

/-- What the reader does about **what a frame completes** offers what the frame tells. -/
theorem outlook_ofAssembled (assembled : Except Fault (Option Assembled)) :
    (ofAssembled assembled).outlook = Outlook.ofAssembled assembled := by
  match assembled with
  | .error fault => rfl
  | .ok none => rfl
  | .ok (some (.message m)) => rfl
  | .ok (some (.control f)) =>
      simp only [ofAssembled, ofControl, Outlook.ofAssembled, Outlook.ofControl]
      cases f.opcode with
      | close =>
          simp only [ofClose]
          cases Close.parse f.payload <;> rfl
      | _ => rfl

end Script

end WebSocket
