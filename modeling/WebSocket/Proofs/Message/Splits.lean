import WebSocket.Proofs.Message.Fragments

/-!
# Messages in pieces

A message may be cut into pieces anywhere, inside a character too, and a piece may be empty. The
first piece goes out in a frame that tells what the message is, the others in continuations, and
control frames may come between them. Whatever the cuts, an assembly says the same of the message,
and says it when the last piece comes: the message, or that its text is not UTF-8. Until then all
that comes out are the control frames, as they went in.

The fragments of a message are one such split, into pieces of one size.

## Main results

* `Assembly.outputs_of_split`: what an assembly says of **a message in pieces**, with control frames
  between them.
* `Message.split_fragments`: the fragments of a message are a split.
* `Message.mem_fragments`, `Message.length_fragments`: **how long** they are, and how many.
* `Message.assembled_of_split`: the four together.
-/

namespace WebSocket

namespace Message

/-! ### Splits -/

/-- **A split of a message**: frames of which the first tells what the message is and the others are
continuations; only the last is final, and the payload is theirs, one behind the other. -/
structure Split (m : Message) (frames : List Frame) : Prop where
  ne_nil : frames ≠ []
  opcode : ∀ i (h : i < frames.length),
    frames[i].opcode = if i = 0 then m.kind.opcode else .continuation
  fin : ∀ i (h : i < frames.length), frames[i].fin = decide (i + 1 = frames.length)
  payloads : Frame.payloads frames = m.payload

/-- **What is said of a frame** when the message is sent in pieces. A control frame is passed on and
nothing is said of a piece before the last one; then the message is complete, unless it is a text
that is not UTF-8. -/
def said (m : Message) (f : Frame) : Except Fault (Option Assembled) :=
  if f.isControl then .ok (some (.control f))
  else if f.fin = false then .ok none
  else if m.kind = .text ∧ Utf8.isValid m.payload = false then .error (.violation .invalidUtf8)
  else .ok (some (.message m))

namespace Split

variable {m : Message} {opened more frames : List Frame} {f : Frame}

theorem opcode_eq (h : m.Split (opened ++ f :: more)) :
    f.opcode = if opened = [] then m.kind.opcode else .continuation := by
  simpa [List.length_eq_zero_iff] using h.opcode opened.length (by simp)

/-- **Only the last** frame of a split is final. -/
theorem fin_eq (h : m.Split (opened ++ f :: more)) : f.fin = decide (more = []) := by
  have hfin := h.fin opened.length (by simp)
  simpa [← List.length_eq_zero_iff, eq_comm] using hfin

/-- The frames of a split are **data frames**. -/
theorem isControl_eq (h : m.Split frames) (hf : f ∈ frames) : f.isControl = false := by
  obtain ⟨opened, more, rfl⟩ := List.append_of_mem hf
  rw [Frame.isControl, h.opcode_eq]
  cases m.kind <;> split <;> rfl

/-- The first frame of a split **opens the message**. -/
theorem opens?_head (h : m.Split (opened ++ f :: more)) :
    (opened.headD f).opens? = some m.kind := by
  have hfirst : ∀ {first others}, m.Split (first :: others) → first.opens? = some m.kind := by
    intro first others hsplit
    rw [Frame.opens?, @opcode_eq m [] others first hsplit, if_pos rfl]
    cases m.kind <;> rfl
  cases opened with
  | nil => exact hfirst h
  | cons first others => exact hfirst h

theorem isOpened (h : m.Split (opened ++ f :: more)) : Assembly.IsOpened opened := by
  intro first hmem
  have hhead := h.opens?_head
  rw [List.headD_eq_head?_getD, Option.mem_def.mp hmem] at hhead
  exact Option.isSome_of_eq_some hhead

/-- Of a message that is not refused **nothing is said** before its last frame, and there it is
given. -/
theorem map_said (h : m.Split frames) (hvalid : m.kind = .text → Utf8.isValid m.payload = true) :
    ∃ count, frames.map m.said = List.replicate count (.ok none) ++ [.ok (some (.message m))] := by
  obtain ⟨before, last, rfl⟩ := (List.eq_nil_or_concat frames).resolve_left h.ne_nil
  rw [List.concat_eq_append] at h ⊢
  have hbefore : ∀ f ∈ before, m.said f = .ok none := by
    intro f hf
    have hdata := h.isControl_eq (List.mem_append_left [last] hf)
    obtain ⟨opened, more, rfl⟩ := List.append_of_mem hf
    rw [List.append_assoc, List.cons_append] at h
    have hfin : f.fin = false := by simpa using h.fin_eq
    rw [said, if_neg (by simp [hdata]), if_pos hfin]
  have hlast : m.said last = .ok (some (.message m)) := by
    have hdata : last.isControl = false := h.isControl_eq (by simp)
    have hfin : last.fin = true := by simpa using h.fin_eq
    have hnot : ¬(m.kind = .text ∧ Utf8.isValid m.payload = false) := by
      rintro ⟨hkind, hinvalid⟩
      rw [hvalid hkind] at hinvalid
      cases hinvalid
    rw [said, if_neg (by simp [hdata]), if_neg (by simp [hfin]), if_neg hnot]
  refine ⟨before.length, ?_⟩
  rw [List.map_append, List.map_singleton, hlast, List.map_eq_replicate_iff.mpr hbefore]

/-- **The verdict** on a frame of a split: nothing before the last frame, and of that one what is
said of the message. -/
theorem verdict_eq {limit : Option Nat} (h : m.Split (opened ++ f :: more))
    (hfits : ∀ most ∈ limit, m.payload.length ≤ most) : Message.verdict limit opened f =
      if f.fin = false then .ok none
      else if m.kind = .text ∧ Utf8.isValid m.payload = false then .error (.violation .invalidUtf8)
      else .ok (some m) := by
  have hfollows : ¬(opened ≠ [] ∧ f.opens?.isSome) := by
    rintro ⟨hne, hsome⟩
    rw [Frame.opens?, h.opcode_eq, if_neg hne] at hsome
    cases hsome
  have hpayload : Frame.payloads (opened ++ [f]) ++ Frame.payloads more = m.payload := by
    rw [← h.payloads]
    simp [Frame.payloads]
  have hroom : limit.filter (· < (Frame.payloads (opened ++ [f])).length) = none := by
    refine Option.filter_eq_none_iff.mpr fun most hmost => ?_
    have hall := hfits most hmost
    rw [← hpayload, List.length_append] at hall
    simpa using Nat.le_of_add_right_le hall
  have hfin := h.fin_eq
  simp only [Message.verdict, h.opens?_head, if_neg hfollows, hroom]
  cases more with
  | nil =>
      have hwhole : Frame.payloads (opened ++ [f]) = m.payload := by
        simpa [Frame.payloads] using hpayload
      rw [hwhole]
  | cons next more =>
      have hmore : f.fin = false := by simpa using hfin
      rw [if_pos hmore, if_pos hmore]

end Split

end Message

namespace Assembly

open Message

variable {limit : Option Nat} {m : Message}

/-! ### What an assembly makes of a split -/

/-- **One frame of a split** is said of what is to be said; a final one leaves nothing behind, and
any other one is held with those before. -/
theorem feed_of_split {opened more : List Frame} {f : Frame} (h : m.Split (opened ++ f :: more))
    (hfits : ∀ most ∈ limit, m.payload.length ≤ most) : (holding limit opened).feed f =
      (holding limit (if f.fin then [] else opened ++ [f]), m.said f) := by
  have hdata : f.isControl = false := h.isControl_eq (by simp)
  rw [feed_holding limit h.isOpened hdata, stillOpened, h.verdict_eq hfits, said, hdata]
  cases f.fin with
  | false => rfl
  | true =>
      by_cases hinvalid : m.kind = .text ∧ Utf8.isValid m.payload = false
      · simp [hinvalid, Except.map]
      · simp [hinvalid, Except.map]

/-- **Control frames alone** come out as they went in. -/
theorem outputs_of_control (a : Assembly) {frames : List Frame}
    (h : frames.filter (!·.isControl) = []) :
    a.outputs frames = frames.map m.said ∧ a.after frames = a := by
  induction frames with
  | nil => exact ⟨rfl, rfl⟩
  | cons f frames ih =>
      cases hf : f.isControl with
      | true =>
          rw [List.filter_cons_of_neg (by simp [hf])] at h
          obtain ⟨houtputs, hafter⟩ := ih h
          rw [outputs, after_cons, feed_control a hf, houtputs, List.map_cons, said, if_pos hf]
          exact ⟨rfl, hafter⟩
      | false =>
          rw [List.filter_cons_of_pos (by simp [hf])] at h
          cases h

/-- **A message in pieces**, some of which have come: of each frame is said what is to be said, and
the assembly is fresh when all have come. -/
theorem outputs_of_split {opened frames : List Frame}
    (h : m.Split (opened ++ frames.filter (!·.isControl)))
    (hmore : frames.filter (!·.isControl) ≠ [])
    (hfits : ∀ most ∈ limit, m.payload.length ≤ most) :
    (holding limit opened).outputs frames = frames.map m.said ∧
      (holding limit opened).after frames = fresh limit := by
  induction frames generalizing opened with
  | nil => exact absurd rfl hmore
  | cons f frames ih =>
      cases hf : f.isControl with
      | true =>
          rw [List.filter_cons_of_neg (by simp [hf])] at h hmore
          obtain ⟨houtputs, hafter⟩ := ih h hmore
          rw [outputs, after_cons, feed_control _ hf, houtputs, List.map_cons, said, if_pos hf]
          exact ⟨rfl, hafter⟩
      | false =>
          rw [List.filter_cons_of_pos (by simp [hf])] at h
          have hfin := h.fin_eq
          rw [outputs, after_cons, feed_of_split h hfits, List.map_cons, hfin]
          -- Behind the last piece only control frames come; before it, the pieces are held.
          by_cases hlast : frames.filter (!·.isControl) = []
          · obtain ⟨houtputs, hafter⟩ := @outputs_of_control m (fresh limit) frames hlast
            rw [decide_eq_true hlast, if_pos rfl]
            exact ⟨congrArg _ houtputs, hafter⟩
          · rw [List.append_cons] at h
            obtain ⟨houtputs, hafter⟩ := ih h hlast
            rw [decide_eq_false hlast, if_neg Bool.false_ne_true]
            exact ⟨congrArg _ houtputs, hafter⟩

end Assembly

namespace Message

/-! ### Fragments -/

variable {m : Message} {size : Nat}

/-- **The payloads of fragments**: all bytes, if they fit into one, and otherwise pieces. -/
theorem map_payload_fragments (m : Message) (hsize : 0 < size) :
    (m.fragments size).map Frame.payload =
      if m.payload.length ≤ size then [m.payload] else Bytes.pieces size m.payload := by
  have hmax : max size 1 = size := Nat.max_eq_left hsize
  simp only [fragments, hmax]
  split
  · rfl
  · refine List.ext_getElem (by simp) fun i _ _ => ?_
    simp [Frame.ofPayload]

theorem flatten_continuations (parts : List Bytes) :
    ((continuations parts).map Frame.payload).flatten = parts.flatten := by
  induction parts with
  | nil => rfl
  | cons part parts ih =>
      rw [continuations_cons, List.map_cons, List.flatten_cons, ih]
      rfl

/-- **The fragments of a message** are a split of it. -/
theorem split_fragments (m : Message) (size : Nat) : m.Split (m.fragments size) := by
  obtain ⟨first, parts, hpayload, hfragments, -⟩ := m.fragments_eq size
  rw [hfragments]
  refine ⟨List.cons_ne_nil _ _, fun i hi => ?opcode, fun i hi => ?fin, ?payloads⟩
  case opcode =>
    cases i with
    | zero => rfl
    | succ i => simp [continuations, Frame.piece, Frame.ofPayload]
  case fin =>
    cases i with
    | zero => cases parts <;> simp [continuations, Frame.piece]
    | succ i => simp [continuations, Frame.piece, beq_eq_decide]
  case payloads =>
    rw [Frame.payloads, List.map_cons, List.flatten_cons, flatten_continuations]
    exact hpayload

/-- **How many fragments** a message has. -/
theorem length_fragments (m : Message) (hsize : 0 < size) :
    (m.fragments size).length = max 1 ((m.payload.length + size - 1) / size) := by
  rw [← List.length_map Frame.payload, map_payload_fragments m hsize]
  split
  · rename_i hshort
    have hone : (m.payload.length + size - 1) / size < 2 :=
      Nat.div_lt_of_lt_mul (by omega)
    exact (Nat.max_eq_left (Nat.le_of_lt_succ hone)).symm
  · rename_i hlong
    have hone : 0 < (m.payload.length + size - 1) / size :=
      Nat.div_pos (by omega) hsize
    rw [Bytes.length_pieces hsize, Nat.max_eq_right hone]

/-- **A fragment** is not too long, and not empty unless the message is. -/
theorem mem_fragments (hsize : 0 < size) {f : Frame} (hf : f ∈ m.fragments size) :
    f.payload.length ≤ size ∧ (m.payload ≠ [] → f.payload ≠ []) := by
  have hpayload : f.payload ∈ (m.fragments size).map Frame.payload := List.mem_map_of_mem hf
  rw [map_payload_fragments m hsize] at hpayload
  split at hpayload
  · rename_i hshort
    rw [List.mem_singleton.mp hpayload]
    exact ⟨hshort, id⟩
  · obtain ⟨hne, hlength⟩ := Bytes.mem_pieces hsize hpayload
    exact ⟨hlength, fun _ => hne⟩

/-- A message that an assembly takes **is given at its last fragment**, and nothing before. -/
theorem outputs_fragments {limit : Option Nat} (h : m.Admitted limit) (size : Nat) :
    ∃ count, (Assembly.fresh limit).outputs (m.fragments size) =
        List.replicate count (.ok none) ++ [.ok (some (.message m))] ∧
      (Assembly.fresh limit).after (m.fragments size) = Assembly.fresh limit := by
  have hsplit := m.split_fragments size
  have hdata : (m.fragments size).filter (!·.isControl) = m.fragments size := by
    refine List.filter_eq_self.mpr fun f hf => ?_
    rw [hsplit.isControl_eq hf]
    rfl
  have hframes : m.Split ([] ++ (m.fragments size).filter (!·.isControl)) := by
    rwa [List.nil_append, hdata]
  obtain ⟨houtputs, hafter⟩ := Assembly.outputs_of_split hframes hframes.ne_nil h.fits
  obtain ⟨count, hsaid⟩ := hsplit.map_said h.valid
  exact ⟨count, houtputs.trans hsaid, hafter⟩

/-- **A message is put together however it is split.** When its payload fits, control frames that
come between the pieces are passed on, nothing is said of the pieces before the last one, and of the
last one the message, or that its text is not UTF-8; then the assembly is fresh. The fragments of a
message are such a split. None of them is too long, and none is empty unless the message is; there
are as many as it takes, and a message that fits into one frame is that frame. -/
theorem assembled_of_split (m : Message) :
    (∀ (limit : Option Nat) (frames : List Frame), (∀ most ∈ limit, m.payload.length ≤ most) →
      m.Split (frames.filter (!·.isControl)) →
      (Assembly.fresh limit).outputs frames = frames.map m.said ∧
        (Assembly.fresh limit).after frames = Assembly.fresh limit) ∧
    (∀ n, 0 < n → m.Split (m.fragments n) ∧
      (∀ f ∈ m.fragments n, f.isControl = false ∧ f.payload.length ≤ n ∧
        (m.payload ≠ [] → f.payload ≠ [])) ∧
      (m.fragments n).length = max 1 ((m.payload.length + n - 1) / n) ∧
      (m.payload.length ≤ n → m.fragments n = [Frame.ofPayload m.kind.opcode m.payload])) := by
  refine ⟨fun limit frames hfits hsplit => ?split, fun n hn => ?fragments⟩
  case split =>
    exact @Assembly.outputs_of_split limit m [] frames hsplit hsplit.ne_nil hfits
  case fragments =>
    have hsplit := m.split_fragments n
    refine ⟨hsplit, fun f hf => ⟨hsplit.isControl_eq hf, mem_fragments hn hf⟩,
      m.length_fragments hn, fun hshort => ?_⟩
    exact if_pos (Nat.le_trans hshort (Nat.le_max_left n 1))

/-- A text in **three pieces**, one of them empty, and a ping among them. The first byte begins a
character of two bytes. -/
def cutText (second : UInt8) : List Frame :=
  [{ Frame.text [0xC3] with fin := false }, Frame.ping [1],
    { Frame.continuation [] with fin := false }, Frame.continuation [second]]

/-- The text is put together when its last piece has come, or is said not to be UTF-8 there; five
bytes are sent in three fragments of two bytes at most. -/
theorem assembled_of_split_of_cutText :
    (Assembly.fresh (some 2)).outputs (cutText 0xA9) = [.ok none,
        .ok (some (.control (Frame.ping [1]))), .ok none,
        .ok (some (.message ⟨.text, [0xC3, 0xA9]⟩))] ∧
      (Assembly.fresh none).outputs (cutText 0x28) = [.ok none,
        .ok (some (.control (Frame.ping [1]))), .ok none, .error (.violation .invalidUtf8)] ∧
      (Message.ofBytes [1, 2, 3, 4, 5]).Split ((Message.ofBytes [1, 2, 3, 4, 5]).fragments 2) ∧
      ((Message.ofBytes [1, 2, 3, 4, 5]).fragments 2).length = 3 ∧
      (Message.ofBytes [1, 2]).fragments 2 = [Frame.binary [1, 2]] := by
  obtain ⟨hvalid, -⟩ := assembled_of_split ⟨.text, [0xC3, 0xA9]⟩
  obtain ⟨hinvalid, -⟩ := assembled_of_split ⟨.text, [0xC3, 0x28]⟩
  obtain ⟨-, hfragments⟩ := assembled_of_split (Message.ofBytes [1, 2, 3, 4, 5])
  obtain ⟨-, hsingle⟩ := assembled_of_split (Message.ofBytes [1, 2])
  obtain ⟨hsplit, -, hcount, -⟩ := hfragments 2 (by decide)
  obtain ⟨-, -, -, hone⟩ := hsingle 2 (by decide)
  have hcut : ∀ second,
      Split ⟨.text, [0xC3, second]⟩ ((cutText second).filter (!·.isControl)) := by
    intro second
    refine ⟨nofun, fun i hi => ?_, fun i hi => ?_, rfl⟩
    · match i, hi with
      | 0, _ | 1, _ | 2, _ => rfl
    · match i, hi with
      | 0, _ | 1, _ | 2, _ => rfl
  exact ⟨(hvalid (some 2) (cutText 0xA9) (by simp) (hcut 0xA9)).1,
    (hinvalid none (cutText 0x28) nofun (hcut 0x28)).1, hsplit, hcount, hone (Nat.le_refl 2)⟩

end Message

end WebSocket
