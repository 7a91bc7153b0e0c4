import WebSocket.Frame.Output
import WebSocket.Proofs.Frame.Rewriting

/-!
# What a frame leaves in the buffer

Frames wait in a buffer until they are sent, and every sender puts its own behind those of others.
Putting a frame there takes several steps, and a step that fails does not undo the ones before it.
So every check has to come before the first byte is written, and the mask has to be laid over the
payload of the new frame and over nothing else. Each step is described by what it leaves in the
buffer; together they leave what `Codec.encode` says, or the buffer as it was.

## Main results

* `Codec.result_put`: a frame is put **behind the bytes that are there**, or nothing happens.
* `Codec.refused_iff`: which frames are refused, and **for which reason** when there are several.
* `Codec.put_exactly`: what is put there, **byte by byte**.
-/

namespace WebSocket

namespace Output

variable {α β : Type} {program : Output α} {next : α → Output β} {a : α} {e : Fault}
  {out after : Bytes}

@[simp] theorem result_pure : (pure a : Output α).result out = (.ok a, out) := rfl

@[simp] theorem result_throw : (throw e : Output α).result out = (.error e, out) := rfl

@[simp] theorem result_append (b : Bytes) : (append b).result out = (.ok (), out ++ b) := rfl

@[simp] theorem result_size : size.result out = (.ok out.length, out) := rfl

@[simp] theorem result_maskFrom (start : Nat) (key : Mask) :
    (maskFrom start key).result out =
      (.ok (), out.take start ++ key.apply (out.drop start)) := rfl

/-- A program goes on **with the buffer that the one before it has left**. -/
theorem result_bind_of_ok (h : program.result out = (.ok a, after)) :
    (program >>= next).result out = (next a).result after := by
  have hrun : ExceptT.run program out = (.ok a, after) := h
  simp only [result, ExceptT.run_bind, StateT.run_bind]
  simp only [StateT.run, hrun]
  rfl

/-- A program ends where the one before it **has failed**. -/
theorem result_bind_of_error (h : program.result out = (.error e, after)) :
    (program >>= next).result out = (.error e, after) := by
  have hrun : ExceptT.run program out = (.error e, after) := h
  simp only [result, ExceptT.run_bind, StateT.run_bind]
  simp only [StateT.run, hrun]
  rfl

end Output

namespace Codec

open Output

variable {role : Role} {drawn : Mask} {f : Frame} {out : Bytes}

/-! ### The steps -/

theorem result_checkFrame : (checkFrame f).result out =
    if f.rsv ≠ 0 then (.error (.violation (.reservedBits f.rsv)), out)
    else match Frame.controlViolation? f.opcode f.fin f.payload.length with
      | some v => (.error (.violation v), out)
      | none => (.ok (), out) := by
  unfold checkFrame
  by_cases hrsv : f.rsv = 0
  · rw [if_neg (not_not.mpr hrsv), if_neg (not_not.mpr hrsv)]
    cases Frame.controlViolation? f.opcode f.fin f.payload.length <;> rfl
  · rw [if_pos hrsv, if_pos hrsv]
    rfl

theorem result_chooseKey : (chooseKey role drawn f).result out =
    if role = .server ∧ f.mask.isSome then
      (.error (.violation (.maskPolicy .serverSendsUnmasked)), out)
    else (.ok (wireMask role drawn f), out) := by
  cases role with
  | client => rfl
  | server => cases hmask : f.mask <;> simp [chooseKey, wireMask, hmask]

theorem result_putHeader (first : UInt8) (masked : Bool) (length : Nat) (out : Bytes) :
    (putHeader first masked length).result out = match lengthField? masked length with
      | some field => (.ok (), out ++ first :: field)
      | none => (.error (.frameTooLarge length), out) := by
  have htwo : ∀ b c : Bytes, (append b >>= fun _ => append c).result out =
      (.ok (), out ++ b ++ c) := fun b c => result_bind_of_ok (result_append b)
  unfold putHeader lengthField?
  by_cases hshort : length ≤ 125
  · simp only [if_pos hshort, result_append]
  · by_cases hmiddle : length ≤ 0xFFFF
    · simp only [if_neg hshort, if_pos hmiddle, htwo]
      simp
    · by_cases hlong : length < 0x8000000000000000
      · simp only [if_neg hshort, if_neg hmiddle, if_pos hlong, htwo]
        simp
      · simp only [if_neg hshort, if_neg hmiddle, if_neg hlong, result_throw]

/-- The mask is laid over **the payload alone**. -/
theorem result_putPayload (key : Option Mask) (payload : Bytes) :
    (putPayload key payload).result out = (.ok (), out ++ unmask key payload) := by
  unfold putPayload
  rw [result_bind_of_ok result_size, result_bind_of_ok (result_append payload)]
  cases key with
  | none => rfl
  | some key => simp [unmask]

/-- What the checks come to together: a frame that may not be sent **stops here**. -/
theorem result_checks (next : Option Mask → Output Unit) :
    (checkFrame f >>= fun _ => chooseKey role drawn f >>= next).result out =
      match sendViolation? role f with
      | some v => (.error (.violation v), out)
      | none => (next (wireMask role drawn f)).result out := by
  have hcheck : (checkFrame f).result out = _ := result_checkFrame
  unfold sendViolation?
  by_cases hrsv : f.rsv = 0
  · rw [if_neg (not_not.mpr hrsv)] at hcheck ⊢
    cases hcontrol : Frame.controlViolation? f.opcode f.fin f.payload.length with
    | some v =>
        rw [hcontrol] at hcheck
        exact result_bind_of_error hcheck
    | none =>
        rw [hcontrol] at hcheck
        rw [result_bind_of_ok hcheck]
        by_cases hmask : role = .server ∧ f.mask.isSome
        · simp only [if_pos hmask]
          exact result_bind_of_error (result_chooseKey.trans (if_pos hmask))
        · simp only [if_neg hmask]
          exact result_bind_of_ok (result_chooseKey.trans (if_neg hmask))
  · rw [if_pos hrsv] at hcheck ⊢
    exact result_bind_of_error hcheck

/-- A frame is put **behind the bytes that are there**, or the buffer stays as it is. -/
theorem result_put (codec : Codec) (drawn : Mask) (f : Frame) (out : Bytes) :
    (codec.put drawn f).result out = match codec.encode drawn f with
      | .ok b => (.ok (), out ++ b)
      | .error e => (.error e, out) := by
  unfold put encode
  rw [result_checks]
  cases sendViolation? codec.role f with
  | some v => rfl
  | none =>
      dsimp only
      have hheader := result_putHeader (firstByte f.fin f.opcode)
        (wireMask codec.role drawn f).isSome f.payload.length out
      cases hfield : lengthField? (wireMask codec.role drawn f).isSome f.payload.length with
      | none =>
          rw [hfield] at hheader
          exact result_bind_of_error hheader
      | some field =>
          rw [hfield] at hheader
          rw [result_bind_of_ok hheader, result_bind_of_ok (result_append _), result_putPayload]
          simp

/-! ### Refusals -/

/-- The reason for which a frame **is refused**: the first of the rules that it breaks. -/
inductive Refused (role : Role) (f : Frame) : Violation → Prop
  | reservedBits (hrsv : f.rsv ≠ 0) : Refused role f (.reservedBits f.rsv)
  | tooLarge (hrsv : f.rsv = 0) (hcontrol : f.isControl = true) (hlong : 125 < f.payload.length) :
      Refused role f (.controlFrameTooLarge f.payload.length)
  | fragmented (hrsv : f.rsv = 0) (hcontrol : f.isControl = true)
      (hshort : f.payload.length ≤ 125) (hfin : f.fin = false) :
      Refused role f (.fragmentedControlFrame f.opcode)
  | masked (hrsv : f.rsv = 0)
      (hkeeps : f.isControl = true → f.payload.length ≤ 125 ∧ f.fin = true)
      (hrole : role = .server) (hmask : f.mask.isSome = true) :
      Refused role f (.maskPolicy .serverSendsUnmasked)

theorem controlViolation?_eq_none :
    Frame.controlViolation? f.opcode f.fin f.payload.length = none ↔
      (f.isControl = true → f.payload.length ≤ 125 ∧ f.fin = true) := by
  refine ⟨fun h hcontrol => ?_, fun h => ?_⟩
  · exact ⟨Frame.length_control_le h hcontrol, Frame.fin_of_control h hcontrol⟩
  · unfold Frame.controlViolation?
    split
    · rename_i hcontrol
      obtain ⟨hshort, hfin⟩ := h hcontrol
      exact (if_neg (Nat.not_lt.mpr hshort)).trans (if_pos hfin)
    · rfl

theorem controlViolation?_eq_some {v : Violation} :
    Frame.controlViolation? f.opcode f.fin f.payload.length = some v ↔ f.isControl = true ∧
      ((125 < f.payload.length ∧ v = .controlFrameTooLarge f.payload.length) ∨
        (f.payload.length ≤ 125 ∧ f.fin = false ∧ v = .fragmentedControlFrame f.opcode)) := by
  unfold Frame.controlViolation? Frame.isControl Frame.maxControlPayload
  by_cases hcontrol : f.opcode.isControl = true
  · by_cases hlong : 125 < f.payload.length
    · simp only [hcontrol, hlong, Nat.not_le.mpr hlong, if_true, true_and, false_and, or_false,
        Option.some.injEq]
      exact eq_comm
    · cases hfin : f.fin with
      | true => simp [hcontrol, hlong]
      | false =>
          simp only [hcontrol, hlong, Nat.le_of_not_lt hlong, Bool.false_eq_true, if_true, if_false,
            true_and, false_and, false_or, Option.some.injEq]
          exact eq_comm
  · simp [hcontrol]

theorem sendViolation?_eq_some {v : Violation} :
    sendViolation? role f = some v ↔ Refused role f v := by
  constructor
  · intro h
    unfold sendViolation? at h
    split at h
    · rename_i hrsv
      obtain rfl := Option.some.inj h
      exact .reservedBits hrsv
    · rename_i hrsv
      have hzero : f.rsv = 0 := of_not_not hrsv
      split at h
      · rename_i broken hbroken
        obtain rfl := Option.some.inj h
        obtain ⟨hcontrol, ⟨hlong, rfl⟩ | ⟨hshort, hfin, rfl⟩⟩ :=
          controlViolation?_eq_some.mp hbroken
        · exact .tooLarge hzero hcontrol hlong
        · exact .fragmented hzero hcontrol hshort hfin
      · rename_i hkeeps
        split at h
        · rename_i hmask
          obtain rfl := Option.some.inj h
          exact .masked hzero (controlViolation?_eq_none.mp hkeeps) hmask.1 hmask.2
        · cases h
  · intro h
    cases h with
    | reservedBits hrsv => exact if_pos hrsv
    | tooLarge hrsv hcontrol hlong =>
        have hbroken := controlViolation?_eq_some.mpr ⟨hcontrol, .inl ⟨hlong, rfl⟩⟩
        simp [sendViolation?, hrsv, hbroken]
    | fragmented hrsv hcontrol hshort hfin =>
        have hbroken := controlViolation?_eq_some.mpr ⟨hcontrol, .inr ⟨hshort, hfin, rfl⟩⟩
        simp [sendViolation?, hrsv, hbroken]
    | masked hrsv hkeeps hrole hmask =>
        simp [sendViolation?, hrsv, controlViolation?_eq_none.mpr hkeeps, hrole, hmask]

/-- **Which frames are refused.** -/
theorem refused_iff : (∃ v, Refused role f v) ↔ f.rsv ≠ 0 ∨
    (f.isControl = true ∧ (125 < f.payload.length ∨ f.fin = false)) ∨
      (role = .server ∧ f.mask.isSome = true) := by
  constructor
  · rintro ⟨v, hv⟩
    cases hv with
    | reservedBits hrsv => exact .inl hrsv
    | tooLarge _ hcontrol hlong => exact .inr (.inl ⟨hcontrol, .inl hlong⟩)
    | fragmented _ hcontrol _ hfin => exact .inr (.inl ⟨hcontrol, .inr hfin⟩)
    | masked _ _ hrole hmask => exact .inr (.inr ⟨hrole, hmask⟩)
  · intro h
    by_cases hrsv : f.rsv = 0
    · by_cases hcontrol : f.isControl = true
      · by_cases hlong : 125 < f.payload.length
        · exact ⟨_, .tooLarge hrsv hcontrol hlong⟩
        · have hshort := Nat.le_of_not_lt hlong
          cases hfin : f.fin with
          | false => exact ⟨_, .fragmented hrsv hcontrol hshort hfin⟩
          | true =>
              obtain hreserved | ⟨-, hbroken | hbroken⟩ | ⟨hrole, hmask⟩ := h
              · exact absurd hrsv hreserved
              · exact absurd hbroken hlong
              · rw [hfin] at hbroken; cases hbroken
              · exact ⟨_, .masked hrsv (fun _ => ⟨hshort, hfin⟩) hrole hmask⟩
      · obtain hreserved | ⟨hbroken, -⟩ | ⟨hrole, hmask⟩ := h
        · exact absurd hrsv hreserved
        · exact absurd hbroken hcontrol
        · exact ⟨_, .masked hrsv (fun hbroken => absurd hbroken hcontrol) hrole hmask⟩
    · exact ⟨_, .reservedBits hrsv⟩

/-! ### What is put -/

/-- **The bytes of a frame**: two bytes that hold the final bit, the opcode and the mask bit, the
shortest length field in network byte order, the key of a client, and the payload, byte `i` of which
is combined with byte `i % 4` of the key. -/
inductive Written (role : Role) (drawn : Mask) (f : Frame) : Bytes → Prop
  | intro {first second : UInt8} {digits key payload : Bytes}
      (fin : decide (first &&& 0x80 ≠ 0) = f.fin)
      (rsv : (first &&& 0x70) >>> 4 = 0)
      (opcode : first &&& 0x0F = f.opcode.code)
      (maskBit : second &&& 0x80 ≠ 0 ↔ role = .client)
      (width : digits.length = Header.lengthWidth (second &&& 0x7F))
      (length : Header.lengthValue (second &&& 0x7F) digits = f.payload.length)
      (shortest : Header.Shortest digits.length f.payload.length)
      (client : role = .client → key = (f.mask.getD drawn).bytes ∧
        ∀ i, payload[i]? = f.payload[i]?.map fun byte => byte ^^^ key.getD (i % 4) 0)
      (server : role = .server → key = [] ∧ payload = f.payload) :
      Written role drawn f (first :: second :: (digits ++ (key ++ payload)))

/-- A length field that is written is **the shortest one**, and it holds the length. -/
theorem lengthField?_shortest {masked : Bool} {length : Nat} {field : Bytes}
    (h : lengthField? masked length = some field) :
    ∃ second digits, field = second :: digits ∧ decide (second &&& 0x80 ≠ 0) = masked ∧
      digits.length = Header.lengthWidth (second &&& 0x7F) ∧
      Header.lengthValue (second &&& 0x7F) digits = length ∧
      Header.Shortest digits.length length := by
  obtain ⟨n, digits, hn, rfl, hparse⟩ := Header.lengthField_parts h
  obtain ⟨hmasked, hshort⟩ := Header.secondByte_parts masked n hn
  obtain ⟨digits', hwidth, happend, hvalue, hword⟩ :=
    Header.parseLength_eq_found.mp (hparse [])
  obtain rfl : digits = digits' := by simpa using happend
  rw [← hshort] at hwidth hvalue
  refine ⟨_, digits, rfl, hmasked, hwidth, hvalue.symm, ?_⟩
  obtain ⟨field, hfield, -, hlonger⟩ := Header.lengthField?_of_value hwidth hvalue hword
  rw [hmasked, h] at hfield
  by_contra hnot
  exact absurd (hlonger hnot) (by rw [← Option.some.inj hfield]; exact Nat.lt_irrefl _)

/-- A frame that is encoded is **written byte by byte** as it should be. -/
theorem written_of_encode {codec : Codec} {b : Bytes} (h : codec.encode drawn f = .ok b) :
    Written codec.role drawn f b := by
  unfold encode at h
  split at h
  · cases h
  · dsimp only at h
    split at h
    · cases h
    · rename_i field hfield
      obtain rfl := Except.ok.inj h
      obtain ⟨second, digits, rfl, hmasked, hwidth, hvalue, hshortest⟩ :=
        lengthField?_shortest hfield
      obtain ⟨hrsv, hopcode, hfin⟩ := Header.firstByte_parts f.fin f.opcode
      refine .intro hfin hrsv hopcode ?_ hwidth hvalue hshortest (fun hrole => ?_) fun hrole => ?_
      · have hbit := decide_eq_true_iff.symm.trans (Bool.eq_iff_iff.mp hmasked)
        refine hbit.trans ?_
        cases codec.role <;> simp [wireMask]
      · rw [hrole]
        exact ⟨rfl, Mask.getElem?_apply (f.mask.getD drawn) f.payload⟩
      · rw [hrole]
        exact ⟨rfl, rfl⟩

/-- **What a frame leaves in the buffer**, if it has less than 2⁶³ bytes. It is refused exactly if
it has reserved bits, is a control frame that is too long or not final, or comes from a server with
a mask; the first of these is reported, and the buffer stays as it was. Otherwise the frame is put
behind the bytes that are there, and they stay as they were. -/
theorem put_exactly (codec : Codec) (drawn : Mask) {f : Frame} (out : Bytes)
    (hlength : f.payload.length < 0x8000000000000000) :
    ((∃ v, Refused codec.role f v) ↔ f.rsv ≠ 0 ∨
        (f.isControl = true ∧ (125 < f.payload.length ∨ f.fin = false)) ∨
          (codec.role = .server ∧ f.mask.isSome = true)) ∧
      (∀ v, Refused codec.role f v →
        (codec.put drawn f).result out = (.error (.violation v), out)) ∧
      ((¬∃ v, Refused codec.role f v) → ∃ b,
        (codec.put drawn f).result out = (.ok (), out ++ b) ∧ Written codec.role drawn f b) := by
  refine ⟨refused_iff, fun v hv => ?_, fun hnone => ?_⟩
  · have hsend := sendViolation?_eq_some.mpr hv
    simp only [result_put, encode, hsend]
  · have hsend : sendViolation? codec.role f = none := by
      refine Option.eq_none_iff_forall_ne_some.mpr fun v hv => hnone ⟨v, ?_⟩
      exact sendViolation?_eq_some.mp hv
    obtain ⟨field, hfield⟩ := exists_lengthField? (wireMask codec.role drawn f).isSome hlength
    have hencode : ∃ b, codec.encode drawn f = .ok b := by
      simp only [encode, hsend, hfield]
      exact ⟨_, rfl⟩
    obtain ⟨b, hb⟩ := hencode
    exact ⟨b, by simp only [result_put, hb], written_of_encode hb⟩

/-- A client puts a ping behind a frame that waits to be sent. -/
theorem put_exactly_of_ping :
    let f := Frame.ping [1, 2, 3, 4, 5]
    f.payload.length < 0x8000000000000000 ∧
      ∃ b, (put ⟨.client, 0⟩ ⟨9, 8, 7, 6⟩ f).result [0x81, 0] = (.ok (), [0x81, 0] ++ b) ∧
        Written .client ⟨9, 8, 7, 6⟩ f b := by
  intro f
  have hlength : f.payload.length < 0x8000000000000000 := by decide
  obtain ⟨hrefused, -, hput⟩ := put_exactly ⟨.client, 0⟩ ⟨9, 8, 7, 6⟩ [0x81, 0] hlength
  exact ⟨hlength, hput fun h => absurd (hrefused.mp h) (by decide)⟩

/-- A server that is given a mask **leaves the buffer alone**. -/
example : (put ⟨.server, 0⟩ Mask.zero { Frame.ping [1] with mask := some Mask.zero }).result
      [0x81, 0] = (.error (.violation (.maskPolicy .serverSendsUnmasked)), [0x81, 0]) := rfl

end Codec

end WebSocket
