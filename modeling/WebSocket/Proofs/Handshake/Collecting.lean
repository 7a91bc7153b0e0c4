import WebSocket.Proofs.Handshake.Judgements

/-!
# Collecting a head piece by piece

A head ends with two line ends in a row, four bytes that may come in as many pieces. `readHead`
looks for them in everything that has come; `collectHead` goes on where it had come to, and this
finds the same: four bytes that end behind the place where the search has come to begin at most
three bytes in front of it.

What is collected depends on the stream and not on its pieces. A head that ends within the limit is
found as soon as its last byte has come, whatever comes in the same piece, and a stream with no such
head runs over the limit, or ends, at the same byte however it is cut.

## Main results

* `Handshake.headEnd?_eq_some`: what the search finds is **the first place** where a head ends.
* `Handshake.seekHead_eq_readHead`: to go on with a search is **to search everything again**.
* `Handshake.readHead_cases`: a stream that comes in pieces is read **as if it came at once**.
* `Handshake.head_of_stream`: what is collected of a stream, **however it is cut**.
-/

namespace WebSocket

namespace Handshake

open Http

/-! ### The first place -/

/-- A head **ends at** a place of a stream: two line ends stand there, and none stand before. -/
def EndsAt (stream : Bytes) (e : Nat) : Prop :=
  Whole (stream.take e) ∧ ∀ n < e, ¬Whole (stream.take n)

section Place

variable {b stream : Bytes} {e e' n limit scanned skipped start : Nat}

theorem EndsAt.unique (h : EndsAt stream e) (h' : EndsAt stream e') : e = e' := by
  obtain hlt | heq | hgt := Nat.lt_trichotomy e e'
  · exact absurd h.1 (h'.2 e hlt)
  · exact heq
  · exact absurd h'.1 (h.2 e' hgt)

/-- Two line ends that stand in a stream are found there, **or others before them**. -/
theorem exists_headEnd? (h : Whole (stream.take n)) : ∃ e ≤ n, headEnd? stream = some e := by
  obtain ⟨e, hfound⟩ := headEndFrom_of_whole h 0
  have hbound := (headEndFrom_bounds hfound).2
  rw [List.length_take] at hbound
  have hsame := headEndFrom_append hfound (stream.drop n)
  rw [List.take_append_drop] at hsame
  exact ⟨e, by omega, hsame⟩

/-- What the search finds is **the first place** where a head ends. -/
theorem headEnd?_eq_some : headEnd? stream = some e ↔ EndsAt stream e := by
  have hfirst : ∀ {e}, headEnd? stream = some e → EndsAt stream e := by
    intro e hend
    refine ⟨whole_of_headEndFrom hend, fun n hn hwhole => ?_⟩
    obtain ⟨e', hle, hend'⟩ := exists_headEnd? hwhole
    have heq : e = e' := Option.some.inj (hend.symm.trans hend')
    omega
  refine ⟨hfirst, fun h => ?_⟩
  obtain ⟨e', -, hend⟩ := exists_headEnd? h.1
  rw [hend, h.unique (hfirst hend)]

theorem headEnd?_eq_none_iff : headEnd? stream = none ↔ ∀ e, ¬EndsAt stream e := by
  simp only [Option.eq_none_iff_forall_ne_some, ne_eq, headEnd?_eq_some]

/-! ### Going on with a search -/

/-- Bytes in which no head begins and ends **may be skipped**. -/
theorem headEndFrom_drop (h : ∀ n < skipped + 4, ¬Whole (b.take n)) (start : Nat) :
    headEndFrom (start + skipped) (b.drop skipped) = headEndFrom start b := by
  induction skipped generalizing b start with
  | zero => rfl
  | succ skipped ih =>
      cases b with
      | nil => rfl
      | cons byte b =>
          have hrest : ∀ n < skipped + 4, ¬Whole (b.take n) := fun n hn hwhole =>
            h (n + 1) (by omega) (hwhole.trans (List.suffix_cons ..))
          have hnot : (newline ++ newline).isPrefixOf (byte :: b) ≠ true := by
            intro hfront
            obtain ⟨more, hmore⟩ := List.isPrefixOf_iff_prefix.mp hfront
            refine h 4 (by omega) ?_
            rw [← hmore]
            exact List.suffix_refl _
          rw [List.drop_succ_cons, headEndFrom, if_neg hnot, ← ih hrest (start + 1)]
          congr 1
          omega

/-- To look **behind** bytes in which no head ends is to look at all bytes. -/
theorem headEndBehind?_eq (h : headEnd? (b.take scanned) = none) :
    headEndBehind? scanned b = headEnd? b := by
  obtain hshort | hlong := Nat.le_total scanned 3
  · rw [headEndBehind?, Nat.sub_eq_zero_of_le hshort, List.drop_zero, headEnd?]
  · have hnone : ∀ n < scanned - 3 + 4, ¬Whole (b.take n) := by
      intro n hn hwhole
      have htake : (b.take scanned).take n = b.take n := by
        rw [List.take_take, Nat.min_eq_left (by omega)]
      obtain ⟨e, -, hend⟩ := exists_headEnd? (htake.symm ▸ hwhole)
      cases h.symm.trans hend
    have hskip := headEndFrom_drop hnone 0
    rwa [Nat.zero_add] at hskip

/-- **To go on with a search** is to search everything again. -/
theorem seekHead_eq_readHead {collected : Bytes} (h : headEnd? (collected.take scanned) = none)
    (reads : List Read) :
    seekHead limit scanned collected reads = readHead limit collected reads := by
  induction reads generalizing scanned collected with
  | nil =>
      rw [seekHead.eq_def, readHead.eq_def, headEndBehind?_eq h, headProgress]
      cases headEnd? collected with
      | some e => dsimp only; split <;> rfl
      | none => dsimp only; split <;> rfl
  | cons read reads ih =>
      rw [seekHead.eq_def, readHead.eq_def, headEndBehind?_eq h, headProgress]
      cases hend : headEnd? collected with
      | some e => dsimp only; split <;> rfl
      | none =>
          dsimp only
          split
          · rfl
          · cases read with
            | error reason => rfl
            | ok piece =>
                cases piece with
                | nil => rfl
                | cons byte piece => exact ih (by rw [List.take_left, hend])

/-- **Collecting a head** gives what is read when everything is looked at again and again. -/
theorem collectHead_eq_readHead (limit : Nat) (reads : List Read) :
    collectHead limit reads = readHead limit [] reads :=
  seekHead_eq_readHead rfl reads

end Place

/-! ### Streams in pieces -/

/-- The reads of a stream **that comes in pieces** and then ends. -/
def readsOf (pieces : List Bytes) (ending : Ending) : List Read :=
  pieces.map .ok ++
    [match ending with
      | .ended => .ok []
      | .failed reason => .error reason]

/-- A stream that comes in pieces is read **as if it came at once**: the head is cut off, the limit
is exceeded, or the stream ends before either. -/
theorem readHead_cases (limit : Nat) {pieces : List Bytes} (hpieces : ∀ piece ∈ pieces, piece ≠ [])
    (ending : Ending) (collected : Bytes) :
    (∃ head rest later, headProgress limit (collected ++ pieces.flatten) =
          .done head (rest ++ later.flatten) ∧ later <:+ pieces ∧
        readHead limit collected (readsOf pieces ending) = .ok (head, rest, readsOf later ending)) ∨
      (headProgress limit (collected ++ pieces.flatten) = .tooLarge ∧
        readHead limit collected (readsOf pieces ending) = .error (.tooLarge limit)) ∨
      (headProgress limit (collected ++ pieces.flatten) = .wait ∧
        readHead limit collected (readsOf pieces ending) = .error (failureOf ending)) := by
  induction pieces generalizing collected with
  | nil =>
      rw [List.flatten_nil, List.append_nil, readHead.eq_def]
      cases headProgress limit collected with
      | tooLarge => exact .inr (.inl ⟨rfl, rfl⟩)
      | done head rest => exact .inl ⟨head, rest, [], by simp, List.suffix_refl _, rfl⟩
      | wait => cases ending <;> exact .inr (.inr ⟨rfl, rfl⟩)
  | cons piece pieces ih =>
      obtain ⟨hpiece, hothers⟩ := List.forall_mem_cons.mp hpieces
      rw [readHead.eq_def]
      cases hprogress : headProgress limit collected with
      | tooLarge => exact .inr (.inl ⟨headProgress_append_tooLarge hprogress _, rfl⟩)
      | done head rest =>
          exact .inl ⟨head, rest, _, headProgress_append hprogress _, List.suffix_refl _, rfl⟩
      | wait =>
          obtain ⟨byte, more, rfl⟩ := List.exists_cons_of_ne_nil hpiece
          obtain ⟨head, rest, later, hdone, hlater, hread⟩ | hfails :=
            ih hothers (collected ++ (byte :: more))
          · refine .inl ⟨head, rest, later, ?_, hlater.trans (List.suffix_cons ..), hread⟩
            rwa [List.append_assoc, ← List.flatten_cons] at hdone
          · rw [List.append_assoc, ← List.flatten_cons] at hfails
            exact .inr hfails

/-- **What is collected of a stream** depends on the stream alone, however it is cut into pieces. A
head that ends within the limit is cut off, and what was read behind it, with what is read later,
is the stream from there on. A stream that ends or fails, with no head and within the limit, is
reported as such. In every other case the head is reported as too large. -/
theorem head_of_stream (limit : Nat) {pieces : List Bytes} (hpieces : ∀ piece ∈ pieces, piece ≠ [])
    (ending : Ending) :
    (∀ e ≤ limit, EndsAt pieces.flatten e →
      ∃ rest later, later <:+ pieces ∧ rest ++ later.flatten = pieces.flatten.drop e ∧
        collectHead limit (readsOf pieces ending) =
          .ok (pieces.flatten.take e, rest, readsOf later ending)) ∧
    ((∀ e, ¬EndsAt pieces.flatten e) → pieces.flatten.length ≤ limit →
      collectHead limit (readsOf pieces ending) = .error (failureOf ending)) ∧
    ((∃ e, limit < e ∧ EndsAt pieces.flatten e) ∨
        (∀ e, ¬EndsAt pieces.flatten e) ∧ limit < pieces.flatten.length →
      collectHead limit (readsOf pieces ending) = .error (.tooLarge limit)) := by
  have hcases := readHead_cases limit hpieces ending []
  rw [← collectHead_eq_readHead, List.nil_append] at hcases
  refine ⟨fun e hlimit hend => ?head, fun hnone hlength => ?ended, fun hlarge => ?tooLarge⟩
  case head =>
    have hprogress : headProgress limit pieces.flatten =
        .done (pieces.flatten.take e) (pieces.flatten.drop e) := by
      rw [headProgress, headEnd?_eq_some.mpr hend]
      exact if_neg (by omega)
    rw [hprogress] at hcases
    obtain ⟨head, rest, later, hdone, hlater, hcollect⟩ | ⟨hwrong, -⟩ | ⟨hwrong, -⟩ := hcases
    · obtain ⟨rfl, hrest⟩ := HeadProgress.done.inj hdone
      exact ⟨rest, later, hlater, hrest.symm, hcollect⟩
    · cases hwrong
    · cases hwrong
  case ended =>
    have hprogress : headProgress limit pieces.flatten = .wait := by
      rw [headProgress, headEnd?_eq_none_iff.mpr hnone]
      exact if_neg (by omega)
    rw [hprogress] at hcases
    obtain ⟨_, _, _, hwrong, -⟩ | ⟨hwrong, -⟩ | ⟨-, hcollect⟩ := hcases
    · cases hwrong
    · cases hwrong
    · exact hcollect
  case tooLarge =>
    have hprogress : headProgress limit pieces.flatten = .tooLarge := by
      rw [headProgress]
      obtain ⟨e, hlimit, hend⟩ | ⟨hnone, hlength⟩ := hlarge
      · rw [headEnd?_eq_some.mpr hend]
        exact if_pos hlimit
      · rw [headEnd?_eq_none_iff.mpr hnone]
        exact if_pos hlength
    rw [hprogress] at hcases
    obtain ⟨_, _, _, hwrong, -⟩ | ⟨-, hcollect⟩ | ⟨hwrong, -⟩ := hcases
    · cases hwrong
    · exact hcollect
    · cases hwrong

/-- A head whose two line ends come **in four reads**, the last of which brings the first byte of a
frame. -/
def fourReads : List Bytes :=
  [Bytes.ascii "GET / HTTP/1.1\r", [lineFeed], [carriageReturn], [lineFeed, 0x81]]

/-- The head is collected under a limit that it meets exactly, and is too large for a limit of one
byte less; without its last byte it is waited for until the stream fails. -/
theorem head_of_stream_of_fourReads :
    (∀ piece ∈ fourReads, piece ≠ []) ∧ EndsAt fourReads.flatten 18 ∧
      (∃ rest later, later <:+ fourReads ∧ rest ++ later.flatten = fourReads.flatten.drop 18 ∧
        collectHead 18 (readsOf fourReads .ended) =
          .ok (fourReads.flatten.take 18, rest, readsOf later .ended)) ∧
      collectHead 17 (readsOf fourReads .ended) = .error (.tooLarge 17) ∧
      collectHead 18 (readsOf (fourReads.take 3) (.failed "reset")) =
        .error (.transport "reset") := by
  have hpieces : ∀ piece ∈ fourReads, piece ≠ [] := by decide
  have hend : EndsAt fourReads.flatten 18 := headEnd?_eq_some.mp (by decide)
  obtain ⟨hhead, -, -⟩ := head_of_stream 18 hpieces .ended
  obtain ⟨-, -, hlarge⟩ := head_of_stream 17 hpieces .ended
  have hcut : ∀ piece ∈ fourReads.take 3, piece ≠ [] := by decide
  obtain ⟨-, hfails, -⟩ := head_of_stream 18 hcut (.failed "reset")
  refine ⟨hpieces, hend, hhead 18 (Nat.le_refl _) hend, hlarge (.inl ⟨18, by decide, hend⟩), ?_⟩
  exact hfails (headEnd?_eq_none_iff.mp (by decide)) (by decide)

end Handshake

end WebSocket
