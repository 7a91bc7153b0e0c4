import WebSocket.Frame.Codec

/-!
# Reading a stream of frames

A stream arrives in chunks of any size. Whatever has come is read until no more can be read, and
what is left waits for the next chunk (`Codec.deliver`). This module shows that the cuts make no
difference: once a buffer tells what it holds, every longer buffer tells the same, with the further
bytes behind it (`Codec.decode_append`). Hence the chunks of a stream give what the whole stream
gives at once (`Codec.deliver_eq_decodeAll`).

## Main results

* `Codec.decode_append`: **more bytes change no verdict** that is not `incomplete`.
* `Codec.decodeAll_append`: reading on behind what was read is reading the whole.
* `Codec.deliver_eq_decodeAll`: how a stream is cut into chunks makes no difference.
* `Codec.foldl_resume_of_fault`, `Codec.frames_prefix_foldl_resume`: what was read of the first
  chunks stays when more chunks come.
* `Codec.cuts_invisible`: the three together, for **any two ways of cutting** a stream.
-/

namespace WebSocket

/-- An outcome of reading, seen in a buffer with **more bytes behind it**. -/
def Scan.behind {ε α : Type} (s : Scan ε α) (c : Bytes) : Scan ε α :=
  match s with
  | incomplete => incomplete
  | found value rest => found value (rest ++ c)
  | fault e => fault e

namespace Bytes

/-- A cut that succeeds also succeeds on a longer byte string. -/
theorem split?_append {n : Nat} {b front rest : Bytes} (h : split? n b = some (front, rest))
    (c : Bytes) : split? n (b ++ c) = some (front, rest ++ c) := by
  obtain ⟨hn, rfl⟩ := (split?_eq_some n b front rest).mp h
  exact (split?_eq_some n _ _ _).mpr ⟨hn, List.append_assoc front rest c⟩

end Bytes

namespace Header

/-! ### More bytes change no verdict -/

theorem parseLength_append {short : UInt8} {b : Bytes} (h : parseLength short b ≠ .incomplete)
    (c : Bytes) : parseLength short (b ++ c) = (parseLength short b).behind c := by
  unfold parseLength at h ⊢
  by_cases h₁ : short ≤ 125
  · rw [if_pos h₁, if_pos h₁]
    rfl
  rw [if_neg h₁] at h ⊢
  rw [if_neg h₁]
  by_cases h₂ : short = 126
  · rw [if_pos h₂] at h ⊢
    rw [if_pos h₂]
    cases hcut : Bytes.split? 2 b with
    | none => rw [hcut] at h; exact absurd rfl h
    | some parts => rw [Bytes.split?_append hcut c]; rfl
  · rw [if_neg h₂] at h ⊢
    rw [if_neg h₂]
    cases hcut : Bytes.split? 8 b with
    | none => rw [hcut] at h; exact absurd rfl h
    | some parts =>
        rw [Bytes.split?_append hcut c]
        by_cases h₃ : 0x8000000000000000 ≤ Bytes.toNat parts.1
        · simp only [if_pos h₃]; rfl
        · simp only [if_neg h₃]; rfl

/-- What a header tells does not change when more bytes come. -/
theorem parse_append {codec : Codec} {b : Bytes} (h : parse codec b ≠ .incomplete) (c : Bytes) :
    parse codec (b ++ c) = (parse codec b).behind c := by
  match b with
  | [] | [_] => exact absurd rfl h
  | first :: second :: tail =>
      simp only [parse, List.cons_append] at h ⊢
      by_cases hrsv : (first &&& 0x70) >>> 4 ≠ 0
      · rw [if_pos hrsv, if_pos hrsv]
        rfl
      rw [if_neg hrsv] at h ⊢
      rw [if_neg hrsv]
      cases hopcode : Opcode.ofCode? (first &&& 0x0F) with
      | none => rfl
      | some opcode =>
          simp only [hopcode] at h
          cases hmask : maskViolation? codec.role (second &&& 0x80 ≠ 0) with
          | some rule => rfl
          | none =>
              simp only [hmask] at h
              have hlength : parseLength (second &&& 0x7F) tail ≠ .incomplete := by
                intro hwait
                rw [hwait] at h
                exact h rfl
              rw [parseLength_append hlength c]
              cases hscan : parseLength (second &&& 0x7F) tail with
              | incomplete => exact absurd hscan hlength
              | fault e => rfl
              | found length behind =>
                  simp only [Scan.behind]
                  split
                  · rfl
                  · split <;> rfl

end Header

namespace Codec

theorem parseMask_append {masked : Bool} {b : Bytes} {parts : Option Mask × Bytes}
    (h : parseMask masked b = some parts) (c : Bytes) :
    parseMask masked (b ++ c) = some (parts.1, parts.2 ++ c) := by
  unfold parseMask at h ⊢
  cases masked with
  | false =>
      obtain rfl : (none, b) = parts := by simpa using h
      rfl
  | true =>
      match b with
      | [] | [_] | [_, _] | [_, _, _] => simp at h
      | k₀ :: k₁ :: k₂ :: k₃ :: tail =>
          obtain rfl : (some ⟨k₀, k₁, k₂, k₃⟩, tail) = parts := by simpa using h
          rfl

/-- **More bytes change no verdict**: a frame that was found is found in every longer buffer, and a
fault stays the same fault. -/
theorem decode_append {codec : Codec} {b : Bytes} (h : codec.decode b ≠ .incomplete) (c : Bytes) :
    codec.decode (b ++ c) = (codec.decode b).behind c := by
  unfold decode at h ⊢
  have hheader : Header.parse codec b ≠ .incomplete := by
    intro hwait
    rw [hwait] at h
    exact h rfl
  rw [Header.parse_append hheader c]
  cases hparse : Header.parse codec b with
  | incomplete => exact absurd hparse hheader
  | fault e => rfl
  | found header rest =>
      simp only [hparse, Scan.behind] at h ⊢
      cases hmask : parseMask header.masked rest with
      | none => rw [hmask] at h; exact absurd rfl h
      | some parts =>
          rw [parseMask_append hmask c]
          simp only [hmask] at h ⊢
          cases hcut : Bytes.split? header.length parts.2 with
          | none => rw [hcut] at h; exact absurd rfl h
          | some halves => rw [Bytes.split?_append hcut c]

theorem decode_append_of_found {codec : Codec} {b rest : Bytes} {f : Frame}
    (h : codec.decode b = .found f rest) (c : Bytes) :
    codec.decode (b ++ c) = .found f (rest ++ c) := by
  rw [decode_append (by rw [h]; exact nofun) c, h]
  rfl

theorem decode_append_of_fault {codec : Codec} {b : Bytes} {e : Fault}
    (h : codec.decode b = .fault e) (c : Bytes) : codec.decode (b ++ c) = .fault e := by
  rw [decode_append (by rw [h]; exact nofun) c, h]
  rfl

/-! ### Everything in a buffer -/

/-- **Induction along a buffer**: it ends in front of something that is not a frame, or it begins
with a frame and goes on behind it. -/
@[elab_as_elim]
theorem decode_induction (codec : Codec) {P : Bytes → Prop}
    (incomplete : ∀ b, codec.decode b = .incomplete → P b)
    (fault : ∀ b e, codec.decode b = .fault e → P b)
    (found : ∀ b f rest, codec.decode b = .found f rest → P rest → P b) (b : Bytes) : P b := by
  match h : codec.decode b with
  | .incomplete => exact incomplete b h
  | .fault e => exact fault b e h
  | .found f rest =>
      have : rest.length < b.length := decode_rest_length_lt codec b f rest h
      exact found b f rest h (decode_induction codec incomplete fault found rest)
  termination_by b.length

theorem decodeOnto_of_incomplete {codec : Codec} {b : Bytes} (h : codec.decode b = .incomplete)
    (done : List Frame) : codec.decodeOnto done b = ⟨done.reverse, none, b⟩ := by
  rw [decodeOnto.eq_def]
  split <;> simp_all

theorem decodeOnto_of_fault {codec : Codec} {b : Bytes} {e : Fault} (h : codec.decode b = .fault e)
    (done : List Frame) : codec.decodeOnto done b = ⟨done.reverse, some e, b⟩ := by
  rw [decodeOnto.eq_def]
  split <;> simp_all

theorem decodeOnto_of_found {codec : Codec} {b rest : Bytes} {f : Frame}
    (h : codec.decode b = .found f rest) (done : List Frame) :
    codec.decodeOnto done b = codec.decodeOnto (f :: done) rest := by
  rw [decodeOnto.eq_def]
  split <;> simp_all

/-- The frames read before stand in front of those still to be read. -/
theorem decodeOnto_eq (codec : Codec) (done : List Frame) (b : Bytes) :
    codec.decodeOnto done b =
      ⟨done.reverse ++ (codec.decodeAll b).frames, (codec.decodeAll b).fault,
        (codec.decodeAll b).rest⟩ := by
  unfold decodeAll
  induction b using decode_induction codec generalizing done with
  | incomplete b h =>
      rw [decodeOnto_of_incomplete h, decodeOnto_of_incomplete h]
      simp only [List.reverse_nil, List.append_nil]
  | fault b e h =>
      rw [decodeOnto_of_fault h, decodeOnto_of_fault h]
      simp only [List.reverse_nil, List.append_nil]
  | found b f rest h ih =>
      rw [decodeOnto_of_found h, decodeOnto_of_found h, ih (f :: done), ih [f]]
      simp only [List.reverse_cons, List.reverse_nil, List.nil_append, List.append_assoc]

theorem decodeAll_of_incomplete {codec : Codec} {b : Bytes} (h : codec.decode b = .incomplete) :
    codec.decodeAll b = ⟨[], none, b⟩ :=
  decodeOnto_of_incomplete h []

theorem decodeAll_of_fault {codec : Codec} {b : Bytes} {e : Fault}
    (h : codec.decode b = .fault e) : codec.decodeAll b = ⟨[], some e, b⟩ :=
  decodeOnto_of_fault h []

/-- A frame in front is the first one read. -/
theorem decodeAll_of_found {codec : Codec} {b rest : Bytes} {f : Frame}
    (h : codec.decode b = .found f rest) :
    codec.decodeAll b =
      ⟨f :: (codec.decodeAll rest).frames, (codec.decodeAll rest).fault,
        (codec.decodeAll rest).rest⟩ := by
  rw [decodeAll, decodeOnto_of_found h, decodeOnto_eq]
  rfl

/-! ### Chunks -/

/-- What has been read of a stream when **one more chunk** comes: everything is read that can be
read. Behind a fault nothing is read any more. -/
def resume (codec : Codec) (so : Frames) (chunk : Bytes) : Frames :=
  match so.fault with
  | some _ => { so with rest := so.rest ++ chunk }
  | none =>
    let more := codec.decodeAll (so.rest ++ chunk)
    ⟨so.frames ++ more.frames, more.fault, more.rest⟩

/-- What a codec makes of a stream that comes **in chunks**. -/
def deliver (codec : Codec) (chunks : List Bytes) : Frames :=
  chunks.foldl codec.resume ⟨[], none, []⟩

/-- **Reading on** when more bytes have come is reading the whole. -/
theorem decodeAll_append (codec : Codec) (b c : Bytes) :
    codec.decodeAll (b ++ c) = codec.resume (codec.decodeAll b) c := by
  induction b using decode_induction codec with
  | incomplete b h =>
      rw [decodeAll_of_incomplete h]
      rfl
  | fault b e h =>
      rw [decodeAll_of_fault h, decodeAll_of_fault (decode_append_of_fault h c)]
      rfl
  | found b f rest h ih =>
      rw [decodeAll_of_found h, decodeAll_of_found (decode_append_of_found h c), ih]
      unfold resume
      cases (codec.decodeAll rest).fault <;> rfl

theorem foldl_resume (codec : Codec) (b : Bytes) (chunks : List Bytes) :
    chunks.foldl codec.resume (codec.decodeAll b) = codec.decodeAll (b ++ chunks.flatten) := by
  induction chunks generalizing b with
  | nil => rw [List.flatten_nil, List.append_nil]; rfl
  | cons chunk chunks ih =>
      rw [List.foldl_cons, ← decodeAll_append, ih, List.flatten_cons, List.append_assoc]

/-- **How a stream is cut** into chunks makes no difference to what is read. -/
theorem deliver_eq_decodeAll (codec : Codec) (chunks : List Bytes) :
    codec.deliver chunks = codec.decodeAll chunks.flatten := by
  have hempty : codec.decodeAll [] = ⟨[], none, []⟩ := decodeAll_of_incomplete rfl
  rw [deliver, ← hempty, foldl_resume, List.nil_append]

/-- Behind a **fault** the bytes only pile up. -/
theorem foldl_resume_of_fault (codec : Codec) (frames : List Frame) (e : Fault) (rest : Bytes)
    (chunks : List Bytes) :
    chunks.foldl codec.resume ⟨frames, some e, rest⟩ =
      ⟨frames, some e, rest ++ chunks.flatten⟩ := by
  induction chunks generalizing rest with
  | nil => rw [List.flatten_nil, List.append_nil]; rfl
  | cons chunk chunks ih =>
      have hresume : codec.resume ⟨frames, some e, rest⟩ chunk = ⟨frames, some e, rest ++ chunk⟩ :=
        rfl
      rw [List.foldl_cons, hresume, ih, List.flatten_cons, List.append_assoc]

/-- The frames that were read **stay** when more chunks come. -/
theorem frames_prefix_foldl_resume (codec : Codec) (so : Frames) (chunks : List Bytes) :
    so.frames <+: (chunks.foldl codec.resume so).frames := by
  induction chunks generalizing so with
  | nil => exact List.prefix_rfl
  | cons chunk chunks ih =>
      have hchunk : so.frames <+: (codec.resume so chunk).frames := by
        unfold resume
        cases so.fault with
        | some e => exact List.prefix_rfl
        | none => exact List.prefix_append ..
      exact hchunk.trans (ih _)

/-- **The cuts of a stream do not show.** Two ways of cutting one stream give the same frames, the
same first fault, and leave the same bytes. For a single look at a buffer this means that a frame
or a fault is never changed by the bytes that come behind it; for a stream, that the frames read of
its first chunks come first whatever follows, and that a fault found in them is the fault of the
whole. -/
theorem cuts_invisible (codec : Codec) :
    (∀ chunks chunks' : List Bytes, chunks.flatten = chunks'.flatten →
      codec.deliver chunks = codec.deliver chunks') ∧
    (∀ b c f rest, codec.decode b = .found f rest → codec.decode (b ++ c) = .found f (rest ++ c)) ∧
    (∀ b c e, codec.decode b = .fault e → codec.decode (b ++ c) = .fault e) ∧
    (∀ chunks more, (codec.deliver chunks).frames <+: (codec.deliver (chunks ++ more)).frames) ∧
    (∀ chunks more frames e rest, codec.deliver chunks = ⟨frames, some e, rest⟩ →
      codec.deliver (chunks ++ more) = ⟨frames, some e, rest ++ more.flatten⟩) := by
  refine ⟨?same, ?frame, ?error, ?frames, ?fault⟩
  case same =>
    intro chunks chunks' hflatten
    rw [deliver_eq_decodeAll, deliver_eq_decodeAll, hflatten]
  case frame =>
    intro b c f rest h
    exact decode_append_of_found h c
  case error =>
    intro b c e h
    exact decode_append_of_fault h c
  case frames =>
    intro chunks more
    have hmore := frames_prefix_foldl_resume codec (codec.deliver chunks) more
    rwa [deliver, ← List.foldl_append] at hmore
  case fault =>
    intro chunks more frames e rest h
    rw [deliver, List.foldl_append, ← deliver, h]
    exact foldl_resume_of_fault codec frames e rest more

/-- A masked ping and, behind it, a header with a **reserved bit** set, in one chunk and in five: a
server reads the same, and the fault stays when another ping comes. -/
theorem cuts_invisible_of_reservedBit :
    deliver ⟨.server, 125⟩ [[0x89], [0x81, 1, 2, 3], [], [4, 5, 0xC1], [0x80]] =
        deliver ⟨.server, 125⟩ [[0x89, 0x81, 1, 2, 3, 4, 5, 0xC1, 0x80]] ∧
      decode ⟨.server, 125⟩ ([0x89, 0x81, 1, 2, 3, 4, 5] ++ [0xC1]) =
        .found { Frame.ping [4] with mask := some ⟨1, 2, 3, 4⟩ } ([] ++ [0xC1]) ∧
      decode ⟨.server, 125⟩ ([0xC1, 0x80] ++ [9]) = .fault (.violation (.reservedBits 4)) ∧
      deliver ⟨.server, 125⟩ ([[0xC1], [0x80]] ++ [[0x89], [0x80]]) =
        ⟨[], some (.violation (.reservedBits 4)), [0xC1, 0x80] ++ [[0x89], [0x80]].flatten⟩ := by
  obtain ⟨same, frame, error, -, fault⟩ := cuts_invisible ⟨.server, 125⟩
  refine ⟨same _ _ rfl, frame _ _ _ _ rfl, error _ _ _ rfl, fault _ _ _ _ _ ?_⟩
  rw [deliver_eq_decodeAll]
  exact decodeAll_of_fault rfl

end Codec

end WebSocket
