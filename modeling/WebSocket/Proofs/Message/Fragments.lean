import WebSocket.Proofs.Message.Pieces
import WebSocket.Proofs.Message.Rulings

/-!
# The fragments of a message

The fragments of a message are a frame that opens the message, with the first piece of the payload,
and then continuations with the other pieces; the last frame is final. This holds for pieces of
every size, and for the message of no bytes. An assembly takes each of them where it stands, and
nowhere else.

## Main results

* `Message.fragments_eq`: what the fragments of a message are.
* `Assembly.feed_in_place`, `Assembly.isStray_of_reopens`: which frames are **in their place**.
-/

namespace WebSocket

/-! ### What fragments are -/

/-- A frame that carries **a piece of a message**. -/
def Frame.piece (opcode : Opcode) (part : Bytes) (fin : Bool) : Frame :=
  { Frame.ofPayload opcode part with fin := fin }

namespace Message

/-- The frames that **go on with a message**, one for each piece; the last one is final. -/
def continuations (parts : List Bytes) : List Frame :=
  parts.mapIdx fun i part => Frame.piece .continuation part (i + 1 == parts.length)

@[simp] theorem continuations_nil : continuations [] = [] := rfl

theorem continuations_cons (part : Bytes) (parts : List Bytes) :
    continuations (part :: parts) =
      Frame.piece .continuation part parts.isEmpty :: continuations parts := by
  have hlast : (0 + 1 == parts.length + 1) = parts.isEmpty := by
    cases parts <;> simp
  simp only [continuations, List.mapIdx_cons, List.length_cons, hlast]
  simp

/-- **The fragments of a message** open it with a first piece and go on with the others, none of
which is longer. -/
theorem fragments_eq (m : Message) (size : Nat) :
    ∃ first parts, first ++ parts.flatten = m.payload ∧
      m.fragments size = Frame.piece m.kind.opcode first parts.isEmpty :: continuations parts ∧
      ∀ part ∈ parts, part.length ≤ first.length := by
  have hsize : 0 < max size 1 := Nat.lt_of_lt_of_le Nat.zero_lt_one (Nat.le_max_right size 1)
  have hpieces := Bytes.flatten_pieces hsize m.payload
  simp only [fragments]
  by_cases hshort : m.payload.length ≤ max size 1
  · rw [if_pos hshort]
    exact ⟨m.payload, [], List.append_nil _, rfl, nofun⟩
  · rw [if_neg hshort]
    have hlengths : ∀ first parts, Bytes.pieces (max size 1) m.payload = first :: parts →
        ∀ part ∈ parts, part.length ≤ first.length := fun first parts =>
      Bytes.length_le_of_pieces hsize (Nat.lt_of_not_le hshort)
    generalize Bytes.pieces (max size 1) m.payload = parts at hpieces hlengths
    match parts with
    | [] =>
        rw [← hpieces] at hshort
        exact absurd (Nat.zero_le _) hshort
    | first :: parts =>
        have hlast : (0 + 1 == parts.length + 1) = parts.isEmpty := by
          cases parts <;> simp
        refine ⟨first, parts, hpieces, ?_, hlengths first parts rfl⟩
        simp only [List.mapIdx_cons, List.length_cons, hlast, continuations, Frame.piece]
        simp

/-- The fragments of a message are **pieces** of it. -/
theorem piece_of_mem_fragments {m : Message} {size : Nat} {f : Frame}
    (h : f ∈ m.fragments size) : ∃ opcode part fin, f = Frame.piece opcode part fin ∧
      opcode.isControl = false ∧ part.length ≤ m.payload.length := by
  obtain ⟨first, parts, hpayload, hfragments, -⟩ := m.fragments_eq size
  have hparts : ∀ part ∈ parts, part.length ≤ m.payload.length := by
    intro part hpart
    have hle := (List.sublist_flatten_of_mem hpart).length_le
    rw [← hpayload, List.length_append]
    omega
  rw [hfragments, List.mem_cons] at h
  obtain rfl | hmem := h
  · refine ⟨m.kind.opcode, first, parts.isEmpty, rfl, ?_, ?_⟩
    · cases m.kind <;> rfl
    · rw [← hpayload, List.length_append]
      omega
  · obtain ⟨i, hi, rfl⟩ := List.mem_mapIdx.mp hmem
    exact ⟨_, _, _, rfl, rfl, hparts _ (List.getElem_mem hi)⟩

/-- A message that an assembly **takes**: no longer than the limit, and UTF-8 if it is a text. -/
structure Admitted (limit : Option Nat) (m : Message) : Prop where
  fits : ∀ most ∈ limit, m.payload.length ≤ most
  valid : m.kind = .text → Utf8.isValid m.payload = true

end Message

namespace Assembly

variable {limit : Option Nat}

/-! ### Frames in their place -/

/-- A piece within the limit is taken in. -/
theorem advance_of_fits {p : Pending} (hfits : ∀ most ∈ limit, p.size ≤ most) (a : Assembly)
    (ha : a.limit = limit) (fin : Bool) : a.advance p fin =
      if fin then (fresh limit, (complete p.kind p.payload).map some)
      else (⟨limit, some p⟩, .ok none) := by
  subst ha
  have hsize : a.sizeFault? p.size = none := by
    rw [sizeFault?_eq, Option.map_eq_none_iff, Option.filter_eq_none_iff]
    intro most hmost
    simpa using hfits most hmost
  rw [advance, hsize]

/-- Whether an output tells of a frame **out of place**: a message that begins while another one is
unfinished, or a continuation while none is. -/
def IsStray (out : Except Fault (Option Assembled)) : Prop :=
  out = .error (.violation .unexpectedDataFrame) ∨
    out = .error (.violation .unexpectedContinuation)

/-- Without a limit a piece is taken in, whatever its size, and the message is unfinished **until
its final frame** has come. -/
theorem advance_of_unlimited {a : Assembly} (ha : a.limit = none) (p : Pending) (fin : Bool) :
    ¬IsStray (a.advance p fin).2 ∧ (a.advance p fin).1.inProgress = !fin := by
  have hfits : ∀ most ∈ (none : Option Nat), p.size ≤ most := nofun
  rw [advance_of_fits hfits a ha]
  cases fin with
  | false =>
      refine ⟨?_, rfl⟩
      rintro (h | h) <;> cases h
  | true =>
      refine ⟨?_, rfl⟩
      rw [if_pos rfl]
      unfold complete
      split <;> rintro (h | h) <;> cases h

/-- **In its place** is a frame that opens a message while none is unfinished, and one that goes on
with a message while one is. -/
theorem feed_in_place {a : Assembly} {f : Frame} (ha : a.limit = none)
    (h : if a.inProgress then f.opcode = .continuation else f.opens?.isSome) :
    ¬IsStray (a.feed f).2 ∧ (a.feed f).1.inProgress = !f.fin := by
  cases hpending : a.pending with
  | none =>
      rw [inProgress, hpending] at h
      obtain ⟨kind, hkind⟩ := Option.isSome_iff_exists.mp h
      rw [feed_of_opens hpending hkind]
      exact advance_of_unlimited ha _ _
  | some p =>
      rw [inProgress, hpending] at h
      rw [feed_of_continues hpending h]
      exact advance_of_unlimited ha _ _

/-- **Out of place** is a frame that opens a message while another one is unfinished. -/
theorem isStray_of_reopens {a : Assembly} {f : Frame} (ha : a.inProgress = true)
    (hf : f.opens?.isSome) : IsStray (a.feed f).2 := by
  obtain ⟨p, hp⟩ := Option.isSome_iff_exists.mp ha
  rw [feed_of_reopens hp hf]
  exact .inl rfl

end Assembly

end WebSocket
