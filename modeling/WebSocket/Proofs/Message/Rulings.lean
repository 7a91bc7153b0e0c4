import Mathlib.Data.List.Induction
import WebSocket.Proofs.Message.Assembly

/-!
# What is to be said of each frame

An assembly keeps a buffer and a count. What it gives can also be told from the frames alone: as
long as a message is unfinished, remember the data frames that have come of it; when the next one
comes, judge the message as a whole (`Message.verdict`). A message that is settled, by being
complete or by breaking a rule, is forgotten. This is the reference `Message.rulings`, and here it
is shown that an assembly gives the same outputs for every sequence of frames.

The state of an assembly after some frames is computed from the frames of the unfinished message
(`Assembly.holding`), not by running the assembly; each step takes what is held before to what is
held after (`Assembly.feed_holding`).

## Main results

* `Assembly.outputs_holding`: an assembly gives the outputs **of the reference**.
* `Assembly.outputs_filter`: control frames have no influence on the other outputs.
* `Assembly.feed_fst_of_isSettled`: a settled message leaves the assembly **fresh**.
* `Assembly.inProgress_after_iff`: when a message is in progress.
* `Assembly.outputs_eq_rulings`: the four together.
-/

namespace WebSocket

/-- The kind of message that a frame **opens**, if it opens one. -/
def Frame.opens? (f : Frame) : Option MessageKind :=
  match f.opcode with
  | .text => some .text
  | .binary => some .binary
  | .continuation | .close | .ping | .pong => none

/-- The payloads of frames, one behind the other. -/
def Frame.payloads (frames : List Frame) : Bytes := (frames.map Frame.payload).flatten

namespace Message

/-- The **verdict** on a data frame that comes behind the frames of an unfinished message; there are
none of these when no message is in progress. The message is judged as a whole, with the new
frame. -/
def verdict (limit : Option Nat) (opened : List Frame) (f : Frame) :
    Except Fault (Option Message) :=
  match (opened.headD f).opens? with
  | none => .error (.violation .unexpectedContinuation)
  | some kind =>
    let payload := Frame.payloads (opened ++ [f])
    if opened ≠ [] ∧ f.opens?.isSome then .error (.violation .unexpectedDataFrame)
    else match limit.filter (· < payload.length) with
      | some limit => .error (.messageTooLarge payload.length limit)
      | none =>
        if f.fin = false then .ok none
        else if kind = .text ∧ Utf8.isValid payload = false then .error (.violation .invalidUtf8)
        else .ok (some ⟨kind, payload⟩)

/-- The frames of the message that is unfinished **after** one more data frame. -/
def stillOpened (limit : Option Nat) (opened : List Frame) (f : Frame) : List Frame :=
  match verdict limit opened f with
  | .ok none => opened ++ [f]
  | .ok (some _) | .error _ => []

/-- **What is to be said of each frame**, behind the frames of an unfinished message. A control
frame is said to have come; of every other frame the verdict is told. -/
def rulings (limit : Option Nat) :
    List Frame → List Frame → List (Except Fault (Option Assembled))
  | _, [] => []
  | opened, f :: frames =>
    if f.isControl then .ok (some (.control f)) :: rulings limit opened frames
    else
      (verdict limit opened f).map (Option.map .message) ::
        rulings limit (stillOpened limit opened f) frames

end Message

namespace Assembly

/-! ### Several frames -/

/-- The assembly **after** several frames. -/
def after (a : Assembly) (frames : List Frame) : Assembly :=
  frames.foldl (fun a f => (a.feed f).1) a

/-- **What several frames give**, one output for each. -/
def outputs : Assembly → List Frame → List (Except Fault (Option Assembled))
  | _, [] => []
  | a, f :: frames => (a.feed f).2 :: (a.feed f).1.outputs frames

@[simp] theorem after_nil (a : Assembly) : a.after [] = a := rfl

@[simp] theorem after_cons (a : Assembly) (f : Frame) (frames : List Frame) :
    a.after (f :: frames) = (a.feed f).1.after frames := rfl

theorem after_append (a : Assembly) (frames more : List Frame) :
    a.after (frames ++ more) = (a.after frames).after more :=
  List.foldl_append ..

theorem outputs_append (a : Assembly) (frames more : List Frame) :
    a.outputs (frames ++ more) = a.outputs frames ++ (a.after frames).outputs more := by
  induction frames generalizing a with
  | nil => rfl
  | cons f frames ih =>
      simp only [List.cons_append, outputs, after_cons]
      rw [ih]

/-! ### What is held of an unfinished message -/

/-- The assembly that **holds** the frames of an unfinished message. -/
def holding (limit : Option Nat) : List Frame → Assembly
  | [] => fresh limit
  | first :: more =>
    ⟨limit, first.opens?.map fun kind =>
      ⟨kind, ((first :: more).map Frame.payload).reverse,
        (Frame.payloads (first :: more)).length,
        by simp [Frame.payloads, Function.comp_def, Nat.add_comm]⟩⟩

/-- Whatever has the right kind and the right pieces is what is held. -/
theorem holding_eq (limit : Option Nat) {first : Frame} {more : List Frame} {p : Pending}
    (hkind : first.opens? = some p.kind)
    (hpieces : p.pieces = ((first :: more).map Frame.payload).reverse) :
    holding limit (first :: more) = ⟨limit, some p⟩ := by
  obtain ⟨kind, pieces, size, hsize⟩ := p
  subst hpieces hsize
  simp [holding, hkind, Frame.payloads, Function.comp_def, List.sum_reverse, Nat.add_comm]

/-- The frames of an unfinished message begin with a frame that opens one. -/
def IsOpened (opened : List Frame) : Prop := ∀ first ∈ opened.head?, first.opens?.isSome

theorem isOpened_append {opened : List Frame} {f : Frame} (h : IsOpened opened)
    (hf : (opened.headD f).opens?.isSome) : IsOpened (opened ++ [f]) := by
  cases opened with
  | nil => simpa [IsOpened] using hf
  | cons first more => simpa [IsOpened] using h

/-- A frame that neither opens a message nor controls goes on with one. -/
theorem continuation_of_opens {f : Frame} (hdata : f.isControl = false) (h : f.opens? = none) :
    f.opcode = .continuation := by
  cases hopcode : f.opcode <;> simp_all [Frame.opens?, Frame.isControl, Opcode.isControl]

theorem sizeFault?_eq (a : Assembly) (size : Nat) :
    a.sizeFault? size = (a.limit.filter (· < size)).map (Fault.messageTooLarge size) := by
  unfold sizeFault?
  cases a.limit with
  | none => rfl
  | some limit => by_cases h : limit < size <;> simp [Option.filter, h]

/-- A frame that opens a message, when none is in progress. -/
theorem feed_of_opens {a : Assembly} {f : Frame} {kind : MessageKind} (ha : a.pending = none)
    (h : f.opens? = some kind) : a.feed f = a.advance (.start kind f.payload) f.fin := by
  unfold Frame.opens? at h
  unfold feed
  split at h <;> simp_all

/-- A frame that opens a message, when one is in progress. -/
theorem feed_of_reopens {a : Assembly} {f : Frame} {p : Pending} (ha : a.pending = some p)
    (h : f.opens?.isSome) :
    a.feed f = (fresh a.limit, .error (.violation .unexpectedDataFrame)) := by
  unfold Frame.opens? at h
  unfold feed
  split at h <;> simp_all

/-- A frame that goes on with a message, when none is in progress. -/
theorem feed_of_stray {a : Assembly} {f : Frame} (ha : a.pending = none)
    (h : f.opcode = .continuation) :
    a.feed f = (fresh a.limit, .error (.violation .unexpectedContinuation)) := by
  unfold feed
  simp only [h, ha]

/-- A frame that goes on with the message in progress. -/
theorem feed_of_continues {a : Assembly} {f : Frame} {p : Pending} (ha : a.pending = some p)
    (h : f.opcode = .continuation) : a.feed f = a.advance (p.add f.payload) f.fin := by
  unfold feed
  simp only [h, ha]

/-- **A piece that is taken in** settles the message or not, as the verdict on its frames says. -/
theorem advance_holding (a : Assembly) (opened : List Frame) {f : Frame} {p : Pending}
    (hkind : (opened.headD f).opens? = some p.kind) (hfollows : opened = [] ∨ f.opens? = none)
    (hpieces : p.pieces = ((opened ++ [f]).map Frame.payload).reverse) :
    a.advance p f.fin = (holding a.limit (Message.stillOpened a.limit opened f),
      (Message.verdict a.limit opened f).map (Option.map .message)) := by
  have hpayload : p.payload = Frame.payloads (opened ++ [f]) := by
    rw [Pending.payload, hpieces, List.reverse_reverse, Frame.payloads]
  have hsize : p.size = (Frame.payloads (opened ++ [f])).length := by
    rw [p.size_eq, hpieces, Frame.payloads]
    simp [List.length_flatten, List.sum_reverse, Nat.add_comm]
  have hnot : ¬ (opened ≠ [] ∧ f.opens?.isSome) := by
    rintro ⟨hne, hsome⟩
    obtain hnil | hnone := hfollows
    · exact hne hnil
    · rw [hnone] at hsome
      cases hsome
  have hheld : holding a.limit (opened ++ [f]) = ⟨a.limit, some p⟩ := by
    cases opened with
    | nil => exact holding_eq a.limit hkind hpieces
    | cons first more => exact holding_eq a.limit hkind hpieces
  have hverdict : Message.verdict a.limit opened f =
      match a.limit.filter (· < p.size) with
      | some most => .error (.messageTooLarge p.size most)
      | none =>
        if f.fin = false then .ok none
        else if p.kind = .text ∧ Utf8.isValid p.payload = false then
          .error (.violation .invalidUtf8)
        else .ok (some ⟨p.kind, p.payload⟩) := by
    simp only [Message.verdict, hkind, if_neg hnot, hsize, hpayload]
  rw [advance, sizeFault?_eq, Message.stillOpened, hverdict]
  cases a.limit.filter (· < p.size) with
  | some most => rfl
  | none =>
      cases hfin : f.fin with
      | true =>
          simp only [Option.map_none, if_true, complete, Bool.true_eq_false, if_false]
          split <;> rfl
      | false =>
          simp only [Option.map_none, if_true, Bool.false_eq_true, if_false, hheld]
          rfl

/-- **One data frame** takes what is held before to what is held after, and gives the verdict. -/
theorem feed_holding (limit : Option Nat) {opened : List Frame} {f : Frame}
    (hopened : IsOpened opened) (hdata : f.isControl = false) :
    (holding limit opened).feed f = (holding limit (Message.stillOpened limit opened f),
      (Message.verdict limit opened f).map (Option.map .message)) := by
  cases opened with
  | nil =>
      cases hkind : f.opens? with
      | some kind =>
          rw [feed_of_opens rfl hkind]
          exact advance_holding (fresh limit) [] hkind (.inl rfl) rfl
      | none =>
          have hverdict : Message.verdict limit [] f =
              .error (.violation .unexpectedContinuation) := by
            simp only [Message.verdict, List.headD_nil, hkind]
          rw [feed_of_stray rfl (continuation_of_opens hdata hkind), Message.stillOpened, hverdict]
          rfl
  | cons first more =>
      obtain ⟨kind, hfirst⟩ := Option.isSome_iff_exists.mp (hopened first rfl)
      obtain ⟨p, hkind, hpieces, hheld⟩ : ∃ p : Pending, p.kind = kind ∧
          p.pieces = ((first :: more).map Frame.payload).reverse ∧
          holding limit (first :: more) = ⟨limit, some p⟩ :=
        ⟨⟨kind, _, _, rfl⟩, rfl, rfl, holding_eq limit hfirst rfl⟩
      cases hf : f.opens? with
      | some again =>
          have hverdict : Message.verdict limit (first :: more) f =
              .error (.violation .unexpectedDataFrame) := by
            simp [Message.verdict, hfirst, hf]
          rw [hheld, feed_of_reopens rfl (Option.isSome_of_eq_some hf), Message.stillOpened,
            hverdict]
          rfl
      | none =>
          rw [hheld, feed_of_continues rfl (continuation_of_opens hdata hf)]
          refine advance_holding ⟨limit, some p⟩ (first :: more) ?_ (.inr hf) ?_
          · rw [List.headD_cons, hfirst]
            exact congrArg some hkind.symm
          · simp [Pending.add, hpieces]

/-- What is still opened begins with a frame that opens a message. -/
theorem isOpened_stillOpened (limit : Option Nat) {opened : List Frame} (f : Frame)
    (h : IsOpened opened) : IsOpened (Message.stillOpened limit opened f) := by
  unfold Message.stillOpened
  split
  · rename_i hverdict
    refine isOpened_append h ?_
    unfold Message.verdict at hverdict
    split at hverdict
    · cases hverdict
    · rename_i kind hkind
      exact Option.isSome_of_eq_some hkind
  · exact nofun
  · exact nofun

/-- **An assembly gives the outputs of the reference.** -/
theorem outputs_holding (limit : Option Nat) (opened frames : List Frame) (h : IsOpened opened) :
    (holding limit opened).outputs frames = Message.rulings limit opened frames := by
  induction frames generalizing opened with
  | nil => rfl
  | cons f frames ih =>
      cases hf : f.isControl with
      | true =>
          rw [outputs, Message.rulings, if_pos hf, feed_control _ hf, ih opened h]
      | false =>
          rw [outputs, Message.rulings, if_neg (by simp [hf]), feed_holding limit h hf,
            ih _ (isOpened_stillOpened limit f h)]

/-! ### Control frames -/

/-- **Deleting the control frames** of the input deletes their outputs, and nothing else changes. -/
theorem outputs_filter (a : Assembly) (frames : List Frame) :
    a.outputs (frames.filter (!·.isControl)) =
      ((frames.zip (a.outputs frames)).filter (!·.1.isControl)).map Prod.snd := by
  induction frames generalizing a with
  | nil => rfl
  | cons f frames ih =>
      rw [outputs, List.zip_cons_cons]
      cases hf : f.isControl with
      | true =>
          rw [List.filter_cons_of_neg (by simp [hf]), List.filter_cons_of_neg (by simp [hf]),
            feed_control a hf, ih]
      | false =>
          rw [List.filter_cons_of_pos (by simp [hf]), List.filter_cons_of_pos (by simp [hf]),
            List.map_cons, outputs, ih]

/-! ### Settled messages -/

/-- Whether an output **settles** the message in progress: it is the message, or a fault. -/
def IsSettled (out : Except Fault (Option Assembled)) : Prop :=
  (∃ e, out = .error e) ∨ ∃ m, out = .ok (some (.message m))

/-- Whether an output leaves the message in progress as it is, or lets it grow. -/
def IsQuiet (out : Except Fault (Option Assembled)) : Prop :=
  out = .ok none ∨ ∃ f, out = .ok (some (.control f))

/-- What `advance` does: it settles the message, or takes the piece in. -/
theorem advance_cases (a : Assembly) (p : Pending) (fin : Bool) :
    ((a.advance p fin).1 = fresh a.limit ∧ IsSettled (a.advance p fin).2) ∨
      (fin = false ∧ a.advance p fin = ({ a with pending := some p }, .ok none)) := by
  unfold advance
  split
  · exact .inl ⟨rfl, .inl ⟨_, rfl⟩⟩
  · cases fin with
    | false => exact .inr ⟨rfl, rfl⟩
    | true =>
        refine .inl ⟨rfl, ?_⟩
        rw [if_pos rfl]
        unfold complete
        split
        · exact .inl ⟨_, rfl⟩
        · exact .inr ⟨_, rfl⟩

/-- **What a data frame does**: it settles the message, and the assembly is fresh; or it is the
start or the continuation of a message that stays in progress. -/
theorem feed_cases (a : Assembly) {f : Frame} (hdata : f.isControl = false) :
    ((a.feed f).1 = fresh a.limit ∧ IsSettled (a.feed f).2) ∨
      ((a.feed f).1.inProgress = true ∧ (a.feed f).2 = .ok none ∧ f.fin = false ∧
        (a.inProgress = false → f.opens?.isSome)) := by
  cases hkind : f.opens? with
  | some kind =>
      cases hpending : a.pending with
      | none =>
          rw [feed_of_opens hpending hkind]
          obtain hsettled | ⟨hfin, hgrown⟩ := advance_cases a (.start kind f.payload) f.fin
          · exact .inl hsettled
          · rw [hgrown]
            exact .inr ⟨rfl, rfl, hfin, fun _ => rfl⟩
      | some p =>
          rw [feed_of_reopens hpending (Option.isSome_of_eq_some hkind)]
          exact .inl ⟨rfl, .inl ⟨_, rfl⟩⟩
  | none =>
      have hopcode := continuation_of_opens hdata hkind
      cases hpending : a.pending with
      | none =>
          rw [feed_of_stray hpending hopcode]
          exact .inl ⟨rfl, .inl ⟨_, rfl⟩⟩
      | some p =>
          rw [feed_of_continues hpending hopcode]
          obtain hsettled | ⟨hfin, hgrown⟩ := advance_cases a (p.add f.payload) f.fin
          · exact .inl hsettled
          · rw [hgrown]
            refine .inr ⟨rfl, rfl, hfin, fun hidle => ?_⟩
            rw [inProgress, hpending] at hidle
            cases hidle

theorem not_isQuiet_of_isSettled {out : Except Fault (Option Assembled)} (h : IsSettled out) :
    ¬ IsQuiet out := by
  rintro (rfl | ⟨f, rfl⟩) <;> obtain ⟨e, he⟩ | ⟨m, hm⟩ := h
  · cases he
  · cases hm
  · cases he
  · cases hm

/-- **A settled message** leaves the assembly fresh. -/
theorem feed_fst_of_isSettled {a : Assembly} {f : Frame} (h : IsSettled (a.feed f).2) :
    (a.feed f).1 = fresh a.limit := by
  cases hf : f.isControl with
  | true =>
      rw [feed_control a hf] at h
      exact absurd (.inr ⟨f, rfl⟩) (not_isQuiet_of_isSettled h)
  | false =>
      obtain ⟨hfresh, -⟩ | ⟨-, hquiet, -⟩ := feed_cases a hf
      · exact hfresh
      · exact absurd (.inl hquiet) (not_isQuiet_of_isSettled h)

@[simp] theorem limit_feed (a : Assembly) (f : Frame) : (a.feed f).1.limit = a.limit := by
  unfold feed advance
  repeat' split
  all_goals rfl

@[simp] theorem limit_after (a : Assembly) (frames : List Frame) :
    (a.after frames).limit = a.limit := by
  induction frames generalizing a with
  | nil => rfl
  | cons f frames ih => rw [after_cons, ih, limit_feed]

/-! ### When a message is in progress -/

/-- A message in progress stays in progress as long as all is quiet. -/
theorem inProgress_after_of_isQuiet {a : Assembly} {frames : List Frame}
    (ha : a.inProgress = true) (h : ∀ out ∈ a.outputs frames, IsQuiet out) :
    (a.after frames).inProgress = true := by
  induction frames generalizing a with
  | nil => exact ha
  | cons f frames ih =>
      have hnext : (a.feed f).1.inProgress = true := by
        cases hf : f.isControl with
        | true => rwa [feed_control a hf]
        | false =>
            obtain ⟨-, hsettled⟩ | ⟨hgrown, -⟩ := feed_cases a hf
            · exact absurd (h _ (List.mem_cons_self ..)) (not_isQuiet_of_isSettled hsettled)
            · exact hgrown
      exact ih hnext fun out hout => h out (List.mem_cons_of_mem _ hout)

/-- **A message is in progress** exactly when some frame, at which none was, opened one without
being final, and all has been quiet from there on. -/
theorem inProgress_after_iff (limit : Option Nat) (frames : List Frame) :
    ((fresh limit).after frames).inProgress = true ↔
      ∃ before first more, frames = before ++ first :: more ∧
        ((fresh limit).after before).inProgress = false ∧ first.opens?.isSome ∧ first.fin = false ∧
        ∀ out ∈ ((fresh limit).after before).outputs (first :: more), IsQuiet out := by
  constructor
  · intro h
    induction frames using List.reverseRecOn with
    | nil => cases h
    | append_singleton frames f ih =>
        rw [after_append] at h
        -- The message was in progress before the last frame, or it is the last frame that opens it.
        have hlast : IsQuiet (((fresh limit).after frames).feed f).2 := by
          cases hf : f.isControl with
          | true => rw [feed_control _ hf]; exact .inr ⟨f, rfl⟩
          | false =>
              obtain ⟨hfresh, -⟩ | ⟨-, hquiet, -⟩ := feed_cases ((fresh limit).after frames) hf
              · rw [after_cons, after_nil, hfresh] at h
                cases h
              · exact .inl hquiet
        cases hbefore : ((fresh limit).after frames).inProgress with
        | true =>
            obtain ⟨before, first, more, rfl, hidle, hopens, hfin, hquiet⟩ := ih hbefore
            refine ⟨before, first, more ++ [f], by simp, hidle, hopens, hfin, ?_⟩
            intro out hout
            rw [← List.cons_append, outputs_append, List.mem_append] at hout
            obtain hout | hout := hout
            · exact hquiet out hout
            · rw [← after_append] at hout
              obtain rfl := List.mem_singleton.mp hout
              exact hlast
        | false =>
            cases hf : f.isControl with
            | true =>
                rw [after_cons, after_nil, feed_control _ hf, hbefore] at h
                cases h
            | false =>
                obtain ⟨hfresh, -⟩ | ⟨-, -, hfin, hopens⟩ :=
                  feed_cases ((fresh limit).after frames) hf
                · rw [after_cons, after_nil, hfresh] at h
                  cases h
                · refine ⟨frames, f, [], rfl, hbefore, hopens hbefore, hfin, ?_⟩
                  intro out hout
                  obtain rfl := List.mem_singleton.mp hout
                  exact hlast
  · rintro ⟨before, first, more, rfl, hidle, hopens, hfin, hquiet⟩
    have hdata : first.isControl = false := by
      cases hopcode : first.opcode <;>
        simp_all [Frame.opens?, Frame.isControl, Opcode.isControl]
    rw [after_append, after_cons]
    obtain ⟨-, hsettled⟩ | ⟨hgrown, -⟩ := feed_cases ((fresh limit).after before) hdata
    · exact absurd (hquiet _ (List.mem_cons_self ..)) (not_isQuiet_of_isSettled hsettled)
    · exact inProgress_after_of_isQuiet hgrown
        fun out hout => hquiet out (List.mem_cons_of_mem _ hout)

/-- **What an assembly says of each frame** is the verdict on the message that the frame belongs
to. Control frames come out as they went in and have no influence on the rest; what settles a
message leaves the assembly as fresh as it was at first; and a message is in progress exactly from
a frame that opens it without being final up to the output that settles it. -/
theorem outputs_eq_rulings (limit : Option Nat) (frames : List Frame) :
    (fresh limit).outputs frames = Message.rulings limit [] frames ∧
    (fresh limit).outputs (frames.filter (!·.isControl)) =
      ((frames.zip ((fresh limit).outputs frames)).filter (!·.1.isControl)).map Prod.snd ∧
    (∀ f, IsSettled (((fresh limit).after frames).feed f).2 →
      (((fresh limit).after frames).feed f).1 = fresh limit) ∧
    (((fresh limit).after frames).inProgress = true ↔
      ∃ before first more, frames = before ++ first :: more ∧
        ((fresh limit).after before).inProgress = false ∧ first.opens?.isSome ∧ first.fin = false ∧
        ∀ out ∈ ((fresh limit).after before).outputs (first :: more), IsQuiet out) := by
  refine ⟨?reference, outputs_filter _ frames, ?settled, inProgress_after_iff limit frames⟩
  case reference =>
    exact outputs_holding limit [] frames nofun
  case settled =>
    intro f hsettled
    have hfresh := feed_fst_of_isSettled hsettled
    rwa [limit_after] at hfresh

/-- The first half of a character, and a ping behind it. -/
def splitText : List Frame := [{ Frame.text [0xC3] with fin := false }, Frame.ping [1]]

/-- The text is in progress behind the ping, and its second half **settles** it: the message has
both bytes, and the assembly is fresh. -/
theorem outputs_eq_rulings_of_splitText :
    (fresh (some 2)).outputs splitText = [.ok none, .ok (some (.control (Frame.ping [1])))] ∧
      ((fresh (some 2)).after splitText).inProgress = true ∧
      (((fresh (some 2)).after splitText).feed (Frame.continuation [0xA9])).2 =
        .ok (some (.message ⟨.text, [0xC3, 0xA9]⟩)) ∧
      (((fresh (some 2)).after splitText).feed (Frame.continuation [0xA9])).1 = fresh (some 2) := by
  obtain ⟨reference, -, settled, progress⟩ := outputs_eq_rulings (some 2) splitText
  refine ⟨?_, ?_, rfl, settled _ (.inr ⟨_, rfl⟩)⟩
  · rw [reference]
    rfl
  · refine progress.mpr ⟨[], _, _, rfl, rfl, rfl, rfl, ?_⟩
    intro out hout
    obtain rfl | hout := List.mem_cons.mp hout
    · exact .inl rfl
    · obtain rfl := List.mem_singleton.mp hout
      exact .inr ⟨_, rfl⟩

end Assembly

end WebSocket
