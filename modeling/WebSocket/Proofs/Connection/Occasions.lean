import WebSocket.Proofs.Connection.Outlook

/-!
# What a stream calls for

Some frames of a stream call for a frame in return: a ping calls for a pong, and whatever ends the
stream calls for a close frame. These **occasions** depend on the bytes of the stream alone. They
are told here in the words of the wire, with the numbers of the codes.

## Main results

* `Occasion.ofFrames_eq`: the occasions of a stream are those of **the items that it tells**.
* `Script.ahead_ofAssembled`: what the reader does about a frame has the occasion of the frame ahead
  of it.
-/

namespace WebSocket

/-- What **calls for a frame** of the reader. -/
inductive Occasion where
  /-- A ping with some payload. -/
  | ping (payload : Bytes)
  /-- The end of the stream, which calls for a close frame with some payload. -/
  | stop (payload : Bytes)
  deriving DecidableEq, Repr

namespace Occasion

/-- The **frame called for**: a pong with the payload of the ping, or the close frame. -/
def frame : Occasion → Frame
  | ping payload => ⟨true, 0, .pong, none, payload⟩
  | stop payload => ⟨true, 0, .close, none, payload⟩

/-- The number of the code that tells the peer of a fault; a transport that failed has none. -/
def number? : Fault → Option Nat
  | .frameTooLarge _ | .messageTooLarge .. => some 1009
  | .violation .invalidUtf8 => some 1007
  | .violation _ => some 1002
  | .transport _ => none

/-- A **fault** calls for its number, with as much of its text as fits behind it. -/
def ofFault? (fault : Fault) : Option Occasion :=
  (number? fault).map fun number =>
    .stop (Bytes.bigEndian 2 number ++ Utf8.truncate 123 (Utf8.encode fault.message))

/-- A **close frame** calls for one with the same code and no reason, or with a normal closure in
place of a code that is never to be sent; without a code it calls for an empty one. -/
def ofClose? : Bytes → Option Occasion
  | [] => some (.stop [])
  | [_] => ofFault? (.violation .invalidClosePayload)
  | high :: low :: _ =>
    let number := 256 * high.toNat + low.toNat
    some (.stop (Bytes.bigEndian 2
      (if number = 1005 ∨ number = 1006 ∨ number = 1015 then 1000 else number)))

/-- The occasions of a list of **frames**, with a fault behind them if there is one. Behind a close
frame or a fault there are none. -/
def ofFrames (a : Assembly) : List Frame → Option Fault → List Occasion
  | [], none => []
  | [], some fault => (ofFault? fault).toList
  | f :: more, fault =>
    match (a.feed f).2 with
    | .error broken => (ofFault? broken).toList
    | .ok (some (.control g)) =>
      match g.opcode with
      | .ping => .ping g.payload :: ofFrames (a.feed f).1 more fault
      | .close => (ofClose? g.payload).toList
      | .pong | .continuation | .text | .binary => ofFrames (a.feed f).1 more fault
    | .ok (some (.message _)) | .ok none => ofFrames (a.feed f).1 more fault

/-- The occasions of a **stream of bytes**. -/
def ofStream (codec : Codec) (a : Assembly) (b : Bytes) : List Occasion :=
  ofFrames a (codec.decodeAll b).frames (codec.decodeAll b).fault

/-! ### Occasions and items -/

/-- The occasion that an **item** goes with. -/
def ofItem? : Except ConnectionError Event → Option Occasion
  | .ok (.ping payload) => some (.ping payload)
  | .ok (.close status) =>
    some (.stop (Frame.close (status.map fun s => ⟨Script.replyCode s.code, ""⟩)).payload)
  | .error (.codec fault) => ofFault? fault
  | _ => none

/-- The close frame about a fault is the one that the fault calls for. -/
theorem ofFault?_eq (fault : Fault) :
    ofFault? fault = fault.closeCode?.map fun code =>
      .stop (Frame.close (some ⟨code, fault.message⟩)).payload := by
  cases fault with
  | violation v => cases v <;> rfl
  | _ => rfl

/-- The codes that are never to be sent, **by their numbers**. -/
theorem isReserved_ofNumber (n : UInt16) :
    (Close.Code.ofNumber n).isReserved = true ↔ n = 1005 ∨ n = 1006 ∨ n = 1015 := by
  constructor
  · intro h
    have hnumber := Close.Code.toNumber_ofNumber n
    generalize Close.Code.ofNumber n = code at h hnumber
    cases code with
    | noStatusReceived => exact .inl hnumber.symm
    | abnormalClosure => exact .inr (.inl hnumber.symm)
    | tlsHandshake => exact .inr (.inr hnumber.symm)
    | _ => cases h
  · rintro (rfl | rfl | rfl) <;> rfl

/-- The number of the reply to a close frame. -/
theorem toNumber_replyCode (n : Nat) (h : n < 65536) :
    (Script.replyCode (Close.Code.ofNumber (UInt16.ofNat n))).toNumber.toNat =
      if n = 1005 ∨ n = 1006 ∨ n = 1015 then 1000 else n := by
  have hnat : (UInt16.ofNat n).toNat = n := UInt16.toNat_ofNat_of_lt' h
  have hiff : (Close.Code.ofNumber (UInt16.ofNat n)).isReserved = true ↔
      n = 1005 ∨ n = 1006 ∨ n = 1015 := by
    rw [isReserved_ofNumber, ← UInt16.toNat_inj, ← UInt16.toNat_inj, ← UInt16.toNat_inj, hnat]
    rfl
  unfold Script.replyCode
  by_cases hreserved : n = 1005 ∨ n = 1006 ∨ n = 1015
  · rw [if_pos hreserved, if_pos (hiff.mpr hreserved)]
    rfl
  · rw [if_neg hreserved, if_neg fun hcode => hreserved (hiff.mp hcode),
      Close.Code.toNumber_ofNumber, hnat]

end Occasion

/-! ### What a script still has to look at -/

/-- The occasion that an action of the reader **looks at**. -/
def Action.occasion? : Action → Option Occasion
  | .answerPing payload => some (.ping payload)
  | .reportFault fault => Occasion.ofFault? fault
  | .claimClose status _ => some (.stop (Frame.close status).payload)
  | _ => none

/-- The occasions that a script of the reader **has ahead** of it. -/
def Script.ahead (script : Script) : List Occasion := script.filterMap Action.occasion?

/-- What the reader does about **what a frame completes** has the occasions ahead of it that go with
the items it will offer. -/
theorem Script.ahead_ofAssembled (assembled : Except Fault (Option Assembled)) :
    (Script.ofAssembled assembled).ahead =
      (Script.ofAssembled assembled).outlook.items.filterMap Occasion.ofItem? := by
  match assembled with
  | .error fault => rfl
  | .ok none => rfl
  | .ok (some (.message m)) => rfl
  | .ok (some (.control f)) =>
      simp only [ofAssembled, ofControl]
      cases f.opcode with
      | close =>
          simp only [ofClose]
          cases Close.parse f.payload <;> rfl
      | _ => rfl

end WebSocket
