import WebSocket.Handshake.Response
import WebSocket.Proofs.Handshake.Reading
import WebSocket.Proofs.Handshake.Written

/-!
# How far a head is read

Two pieces of code decide where a head ends. The collector looks for four bytes, two line ends in a
row; the readers of requests and responses follow a grammar of lines, in which a line feed alone
ends a line too. The collector hands over a head that ends with two line ends, and this is what
keeps a reader from running out of bytes: a part of a start line or of a header line holds no
carriage return, so it stops in front of the two line ends at the latest, and a reading that stops
at one line end leaves at least the other.

The two agree on where the head ends unless an empty line before the last one ends with a line feed
alone; then the reader stops early, and the bytes up to the two line ends are lost. They agree on
what a head is unless it has empty lines only, where a reader still waits for a start line.

## Main results

* `Handshake.readHead_sound`: what is collected is **one head**, and no byte is lost around it.
* `Http.parseRequestHead_settles`, `Http.parseResponseHead_settles`: a reader of a head waits for
  more only when there are **empty lines only**, and stops behind an empty line.
* `Handshake.extent_of_readHead`: what requests and responses are **read of a head that was
  collected**.
-/

namespace WebSocket

deriving instance DecidableEq for Scan

namespace Scan

variable {ε α β : Type} {P Q : Bytes → Prop} {s : Scan ε α}

/-- A reading that **does not wait for more**, and leaves bytes with a property behind what it
finds. -/
def Settles (P : Bytes → Prop) : Scan ε α → Prop
  | .incomplete => False
  | .found _ rest => P rest
  | .fault _ => True

theorem Settles.mono (h : s.Settles P) (hPQ : ∀ rest, P rest → Q rest) : s.Settles Q := by
  cases s with
  | incomplete => exact h
  | found value rest => exact hPQ rest h
  | fault e => trivial

/-- One reading **behind another**. -/
theorem Settles.andThen {next : α → Bytes → Scan ε β} (h : s.Settles P)
    (hnext : ∀ value rest, P rest → (next value rest).Settles Q) : (s.andThen next).Settles Q := by
  cases s with
  | incomplete => exact h.elim
  | found value rest => exact hnext value rest h
  | fault e => trivial

theorem Settles.map {f : α → β} (h : s.Settles P) : (s.map f).Settles P :=
  h.andThen fun _ _ hrest => hrest

end Scan

namespace Http

variable {b front rest : Bytes}

/-! ### Bytes in front of two line ends -/

/-- Bytes that **end with two line ends**. -/
def Whole (b : Bytes) : Prop := newline ++ newline <:+ b

/-- What is left of such bytes behind **the end of a line**: two line ends, or the last one. -/
def Ending (b : Bytes) : Prop := Whole b ∨ b = newline

theorem Whole.tail {byte : UInt8} (h : Whole (byte :: b)) (hbyte : byte ≠ carriageReturn) :
    Whole b := by
  obtain heq | hsuffix := List.suffix_cons_iff.mp h
  · exact absurd (List.cons.inj heq).1.symm hbyte
  · exact hsuffix

/-- A part of a line leaves **the two line ends** behind it. -/
theorem Whole.behind (h : Whole (front ++ rest)) (hfront : OneLine front) : Whole rest := by
  induction front with
  | nil => exact h
  | cons byte front ih =>
      have hbyte : byte ≠ carriageReturn := fun heq => hfront (heq ▸ List.mem_cons_self ..)
      exact ih (h.tail hbyte) fun hmem => hfront (List.mem_cons_of_mem _ hmem)

theorem Whole.dropWhile (h : Whole b) {member : UInt8 → Bool}
    (hmember : member carriageReturn = false) : Whole (b.dropWhile member) := by
  rw [← List.takeWhile_append_dropWhile (p := member) (l := b)] at h
  exact h.behind (.of_all hmember (List.all_takeWhile ..))

theorem Whole.ne_nil (h : Whole b) : b ≠ [] := by
  rintro rfl
  exact absurd h (by unfold Whole; decide)

/-- Nothing but **empty lines**. -/
inductive EmptyLines : Bytes → Prop
  | nil : EmptyLines []
  | feed {b : Bytes} : EmptyLines b → EmptyLines (lineFeed :: b)
  | line {b : Bytes} : EmptyLines b → EmptyLines (carriageReturn :: lineFeed :: b)

theorem skipEmptyLines_of_emptyLines (h : EmptyLines b) : skipEmptyLines b = .incomplete := by
  induction h with
  | nil => rfl
  | feed _ ih => rw [skipEmptyLines.eq_def]; exact ih
  | line _ ih => rw [skipEmptyLines.eq_def]; exact ih

/-! ### Start lines -/

/-- What a part of a start line leaves **behind it**. -/
def Follows (b rest : Bytes) : Prop := rest <:+ b ∧ Whole rest

/-- What the end of a line leaves behind it, **after its line feed**. -/
def FollowsLine (b rest : Bytes) : Prop := lineFeed :: rest <:+ b ∧ Ending rest

theorem Follows.trans {c : Bytes} (h : Follows b c) (hrest : Follows c rest) : Follows b rest :=
  ⟨hrest.1.trans h.1, hrest.2⟩

theorem Follows.line {c : Bytes} (h : Follows b c) (hrest : FollowsLine c rest) :
    FollowsLine b rest :=
  ⟨hrest.1.trans h.1, hrest.2⟩

theorem parseLineEnd_settles (h : Whole b) (flaw : Flaw) :
    (parseLineEnd flaw b).Settles (FollowsLine b) := by
  match b, h with
  | [], h => exact absurd rfl h.ne_nil
  | [byte], h => exact absurd h.length_le (by simp [newline])
  | byte :: next :: more, h =>
      rw [parseLineEnd]
      split
      · rename_i hfeed
        subst hfeed
        exact ⟨List.suffix_refl _, .inl (h.tail (by decide))⟩
      · split
        · rename_i hreturn
          split
          · rename_i hfeed
            subst hreturn hfeed
            refine ⟨List.suffix_cons .., ?_⟩
            obtain heq | hlater := List.suffix_cons_iff.mp h
            · exact .inr (List.cons.inj (List.cons.inj heq).2).2.symm
            · exact .inl (Whole.tail hlater (by decide))
          · trivial
        · trivial

/-- Two line ends in a row are **one line end and what is left of them**. -/
theorem Ending.of_line (h : Ending (carriageReturn :: lineFeed :: b)) : Ending b ∨ b = [] := by
  obtain hwhole | heq := h
  · obtain heq | hlater := List.suffix_cons_iff.mp hwhole
    · exact .inl (.inr (List.cons.inj (List.cons.inj heq).2).2.symm)
    · exact .inl (.inl (Whole.tail hlater (by decide)))
  · exact .inr (List.cons.inj (List.cons.inj heq).2).2

theorem Ending.of_ne {byte : UInt8} (h : Ending (byte :: b)) (hbyte : byte ≠ carriageReturn) :
    Whole (byte :: b) :=
  h.resolve_right fun heq => hbyte (List.cons.inj heq).1

/-- What is skipped in front of a start line is **empty lines**; they are all there is, or a start
line stands behind them. -/
theorem skipEmptyLines_settles (h : Ending b) :
    EmptyLines b ∨ (skipEmptyLines b).Settles (Follows b) := by
  have hback : ∀ (lead : Bytes) {rest : Bytes}, (skipEmptyLines rest).Settles (Follows rest) →
      (skipEmptyLines rest).Settles (Follows (lead ++ rest)) := fun _ _ hrest =>
    hrest.mono fun _ hleft => ⟨hleft.1.trans (List.suffix_append ..), hleft.2⟩
  induction b using skipEmptyLines.induct with
  | case1 => exact .inl .nil
  | case2 rest ih =>
      have hrest : Ending rest := .inl ((h.of_ne (by decide)).tail (by decide))
      rw [skipEmptyLines.eq_def]
      exact (ih hrest).imp .feed (hback [lineFeed])
  | case3 =>
      obtain hwhole | heq := h
      · exact absurd hwhole.length_le (by decide)
      · cases heq
  | case4 rest _ ih =>
      rw [skipEmptyLines.eq_def]
      obtain hrest | rfl := h.of_line
      · exact (ih hrest).imp .line (hback newline)
      · exact .inl (.line .nil)
  | case5 next rest hnext _ =>
      right
      rw [skipEmptyLines.eq_def]
      dsimp only
      rw [if_neg (by decide), if_pos rfl, if_neg hnext]
      trivial
  | case6 byte rest hfeed hreturn =>
      rw [skipEmptyLines_cons hfeed hreturn]
      exact .inr ⟨List.suffix_refl _, h.of_ne hreturn⟩

/-- Reading a class of bytes ends **in front of the line end**, if not before. -/
theorem parseUntil_settles {α : Type} {Q : Bytes → Prop} {member : UInt8 → Bool}
    {next : Bytes × UInt8 → Bytes → Scan Flaw α} (h : Whole b)
    (hmember : member carriageReturn = false)
    (hnext : ∀ part mark rest, mark :: rest <:+ b → Whole (mark :: rest) →
      (next (part, mark) rest).Settles Q) :
    ((parseUntil member b).andThen next).Settles Q := by
  have hwhole := h.dropWhile hmember
  have hsuffix := List.dropWhile_suffix (l := b) fun byte => member byte
  rw [parseUntil]
  cases hdrop : b.dropWhile member with
  | nil => exact absurd hdrop hwhole.ne_nil
  | cons mark rest =>
      rw [hdrop] at hwhole hsuffix
      exact hnext _ mark rest hsuffix hwhole

/-- A part of a line is followed **behind the mark** that ends it. -/
theorem mark_settles {α : Type} {mark wanted : UInt8} {accept : Prop}
    [Decidable (mark = wanted ∧ accept)] {value : α} {flaw : Flaw}
    (hwanted : wanted ≠ carriageReturn) (hsuffix : mark :: rest <:+ b) (h : Whole (mark :: rest)) :
    (if mark = wanted ∧ accept then Scan.found value rest
      else .fault flaw).Settles (Follows b) := by
  split
  · rename_i hmark
    exact ⟨(List.suffix_cons ..).trans hsuffix, h.tail (hmark.1 ▸ hwanted)⟩
  · trivial

theorem parseMethod_settles (h : Whole b) : (parseMethod b).Settles (Follows b) :=
  parseUntil_settles h (by decide) fun _ _ _ => mark_settles (by decide)

theorem parseTarget_settles (h : Whole b) : (parseTarget b).Settles (Follows b) :=
  parseUntil_settles h (by decide) fun _ _ _ => mark_settles (by decide)

theorem parseName_settles (h : Whole b) : (parseName b).Settles (Follows b) :=
  parseUntil_settles h (by decide) fun _ _ _ => mark_settles (by decide)

/-- A front part of fixed length **that stays in its line**. -/
theorem Follows.of_split {n : Nat} (h : Whole b) (hsplit : Bytes.split? n b = some (front, rest))
    (hfront : OneLine front) : Follows b rest := by
  obtain ⟨-, rfl⟩ := (Bytes.split?_eq_some ..).mp hsplit
  exact ⟨List.suffix_append .., h.behind hfront⟩

theorem parseVersion_settles (h : Whole b) : (parseVersion b).Settles (Follows b) := by
  rw [parseVersion]
  split
  · rename_i digits rest hsplit
    split
    · rename_i hdigits
      exact .of_split h hsplit (hdigits ▸ by decide)
    · split
      · rename_i hdigits
        exact .of_split h hsplit (hdigits ▸ by decide)
      · trivial
  · split
    · rename_i hfront
      -- the line end in the bytes is no part of a version
      have hline : OneLine b := OneLine.mono (c := Bytes.ascii "HTTP/1.") (by decide)
        fun byte hbyte => (List.isPrefixOf_iff_prefix.mp hfront).subset hbyte
      exact absurd (h.subset (List.mem_cons_self ..)) hline
    · trivial

theorem parseStatus_settles (h : Whole b) : (parseStatus b).Settles (Follows b) := by
  rw [parseStatus]
  split
  · rename_i hdigits
    have hline : OneLine (b.take 3) := .of_all (by decide) hdigits
    split
    · rename_i hshort
      -- with fewer than three bytes, all of them would be digits
      have hlength := (Bytes.split?_eq_none ..).mp hshort
      rw [List.take_of_length_le (by omega)] at hline
      exact absurd (h.subset (List.mem_cons_self ..)) hline
    · rename_i digits rest hsplit
      obtain ⟨hlength, rfl⟩ := (Bytes.split?_eq_some ..).mp hsplit
      rw [List.take_left' hlength] at hline
      exact .of_split h hsplit hline
  · trivial

/-- A text is followed by **the end of its line**. -/
theorem parseText_settles (h : Whole b) (flaw : Flaw) :
    (parseLineEnd flaw (b.dropWhile isText)).Settles (FollowsLine b) :=
  (parseLineEnd_settles (h.dropWhile (by decide)) flaw).mono fun _ hrest =>
    ⟨hrest.1.trans (List.dropWhile_suffix _), hrest.2⟩

theorem parseValue_settles (h : Whole b) : (parseValue b).Settles (FollowsLine b) :=
  (parseText_settles h .headerValue).map

theorem parseAfterStatus_settles (h : Whole b) : (parseAfterStatus b).Settles (FollowsLine b) := by
  cases b with
  | nil => exact absurd rfl h.ne_nil
  | cons next rest =>
      rw [parseAfterStatus]
      split
      · rename_i hspace
        have hrest : Whole rest := h.tail (hspace ▸ by decide)
        refine (parseText_settles hrest .status).map.mono fun _ hleft => ?_
        exact ⟨hleft.1.trans (List.suffix_cons ..), hleft.2⟩
      · exact (parseLineEnd_settles h .status).map

/-! ### Header lines -/

/-- Bytes that end with **an empty line**, behind the line feed of the line before. -/
def EndsEmpty (used : Bytes) : Prop :=
  [lineFeed, lineFeed] <:+ used ∨ [lineFeed, carriageReturn, lineFeed] <:+ used

theorem EndsEmpty.append {used : Bytes} (h : EndsEmpty used) (front : Bytes) :
    EndsEmpty (front ++ used) :=
  h.imp (·.trans (List.suffix_append ..)) (·.trans (List.suffix_append ..))

/-- What is left behind **the first empty line**. -/
def FollowsEmpty (b left : Bytes) : Prop := ∃ used, b = used ++ left ∧ EndsEmpty used

theorem FollowsEmpty.mono {c left : Bytes} (hsuffix : b <:+ c) (h : FollowsEmpty b left) :
    FollowsEmpty c left := by
  obtain ⟨front, rfl⟩ := hsuffix
  obtain ⟨used, rfl, hused⟩ := h
  exact ⟨front ++ used, (List.append_assoc ..).symm, hused.append front⟩

/-- The empty line that ends a head is found **where it begins**. -/
theorem parseLineEnd_empty {byte : UInt8} (h : Ending (byte :: b))
    (hbyte : byte = carriageReturn ∨ byte = lineFeed) (flaw : Flaw) :
    (parseLineEnd flaw (byte :: b)).Settles (FollowsEmpty (lineFeed :: byte :: b)) := by
  obtain rfl | rfl := hbyte
  · cases b with
    | nil =>
        obtain hwhole | heq := h
        · exact absurd hwhole.length_le (by decide)
        · cases heq
    | cons next rest =>
        rw [parseLineEnd, if_neg (by decide), if_pos rfl]
        split
        · rename_i hnext
          subst hnext
          exact ⟨[lineFeed, carriageReturn, lineFeed], rfl, .inr (List.suffix_refl _)⟩
        · trivial
  · rw [parseLineEnd.eq_def]
    exact ⟨[lineFeed, lineFeed], rfl, .inl (List.suffix_refl _)⟩

/-- What stands behind **one header line**. -/
theorem parseLine_settles {α : Type} {Q : Bytes → Prop} {next : Bytes → Bytes → Bytes → Scan Flaw α}
    (h : Whole b)
    (hnext : ∀ name value rest, FollowsLine b rest → (next name value rest).Settles Q) :
    ((parseName b).andThen fun name rest =>
      (parseValue rest).andThen fun value rest => next name value rest).Settles Q :=
  (parseName_settles h).andThen fun name _ hname =>
    (parseValue_settles hname.2).andThen fun value rest hvalue =>
      hnext name value rest (hname.line hvalue)

/-- Header lines are read up to **the first empty line**. -/
theorem parseFields_settles (h : Ending b) (slots : Nat) :
    (parseFields slots b).Settles (FollowsEmpty (lineFeed :: b)) := by
  induction slots generalizing b with
  | zero =>
      cases b with
      | nil => exact h.elim (fun hwhole => hwhole.ne_nil rfl) nofun
      | cons byte b =>
          rw [parseFields.eq_def]
          dsimp only
          split
          · rename_i hbyte
            exact (parseLineEnd_empty h hbyte .newLine).map
          · rename_i hbyte
            have hwhole := h.of_ne (not_or.mp hbyte).1
            exact parseLine_settles hwhole fun _ _ _ _ => trivial
  | succ slots ih =>
      cases b with
      | nil => exact h.elim (fun hwhole => hwhole.ne_nil rfl) nofun
      | cons byte b =>
          rw [parseFields.eq_def]
          dsimp only
          split
          · rename_i hbyte
            exact (parseLineEnd_empty h hbyte .newLine).map
          · rename_i hbyte
            have hwhole := h.of_ne (not_or.mp hbyte).1
            refine parseLine_settles hwhole fun _ _ rest hrest => ?_
            exact (ih hrest.2).map.mono fun _ hleft =>
              hleft.mono (hrest.1.trans (List.suffix_cons ..))

/-! ### Heads -/

/-- The header lines behind **a start line**. -/
theorem FollowsLine.fields {c : Bytes} (h : FollowsLine b c) (slots : Nat) :
    (parseFields slots c).Settles (FollowsEmpty b) :=
  (parseFields_settles h.2 slots).mono fun _ hleft => hleft.mono h.1

/-- A request head waits for more only when there are **empty lines only**, and is read up to its
first empty line. -/
theorem parseRequestHead_settles (h : Whole b) :
    EmptyLines b ∨ (parseRequestHead b).Settles (FollowsEmpty b) :=
  (skipEmptyLines_settles (.inl h)).imp_right fun hskip =>
    hskip.andThen fun _ _ hstart =>
    (parseMethod_settles hstart.2).andThen fun _ _ hmethod =>
    (parseTarget_settles hmethod.2).andThen fun _ _ htarget =>
    (parseVersion_settles htarget.2).andThen fun _ _ hversion =>
    (parseLineEnd_settles hversion.2 .newLine).andThen fun _ _ hline =>
    ((((hstart.trans hmethod).trans htarget).trans hversion).line hline).fields maxFields |>.map

/-- So does a response head, and so it is. -/
theorem parseResponseHead_settles (h : Whole b) :
    EmptyLines b ∨ (parseResponseHead b).Settles (FollowsEmpty b) := by
  refine (skipEmptyLines_settles (.inl h)).imp_right fun hskip => ?_
  refine hskip.andThen fun _ _ hstart => ?_
  refine (parseVersion_settles hstart.2).andThen fun _ rest hversion => ?_
  cases rest with
  | nil => exact absurd rfl hversion.2.ne_nil
  | cons next rest =>
      dsimp only
      split
      · trivial
      · rename_i hspace
        have hnext : next = space := of_not_not hspace
        have hrest : Follows (next :: rest) rest :=
          ⟨List.suffix_cons .., hversion.2.tail (hnext ▸ by decide)⟩
        refine (parseStatus_settles hrest.2).andThen fun _ _ hstatus => ?_
        refine (parseAfterStatus_settles hstatus.2).andThen fun _ _ hline => ?_
        have hfollows := (((hstart.trans hversion).trans hrest).trans hstatus).line hline
        exact (FollowsLine.fields hfollows maxFields).map

/-- Lines that all end with **a carriage return and a line feed**: no line feed stands alone. -/
def StrictLines (b : Bytes) : Prop :=
  ∀ front, front ++ [lineFeed] <+: b → [carriageReturn] <:+ front

/-- An empty line between such lines ends with **two line ends**. -/
theorem EndsEmpty.whole {used : Bytes} (h : EndsEmpty used) (hstrict : StrictLines used) :
    Whole used := by
  obtain ⟨front, rfl⟩ | ⟨front, rfl⟩ := h
  · have hreturn := hstrict (front ++ [lineFeed]) (by simp)
    obtain ⟨lead, heq⟩ := hreturn
    cases (List.append_inj' heq rfl).2
  · obtain ⟨lead, rfl⟩ := hstrict front ⟨[carriageReturn, lineFeed], by simp⟩
    exact ⟨lead, by simp [newline]⟩

end Http

namespace Handshake

open Http

/-! ### Collected heads -/

section Collected

variable {b head rest : Bytes} {start e limit : Nat}

/-- A head that is found ends with **two line ends**. -/
theorem whole_of_headEndFrom (h : headEndFrom start b = some e) : Whole (b.take (e - start)) := by
  induction b generalizing start with
  | nil => cases h
  | cons byte b ih =>
      rw [headEndFrom] at h
      split at h
      · rename_i hend
        cases h
        obtain ⟨more, hmore⟩ := List.isPrefixOf_iff_prefix.mp hend
        rw [← hmore, Nat.add_sub_cancel_left]
        exact List.suffix_refl _
      · have hbounds := (headEndFrom_bounds h).1
        rw [show e - start = (e - (start + 1)) + 1 by omega, List.take_succ_cons]
        exact (ih h).trans (List.suffix_cons ..)

/-- Two line ends are **found**, if no others are found before. -/
theorem headEndFrom_of_whole (h : Whole b) (start : Nat) : ∃ e, headEndFrom start b = some e := by
  induction b generalizing start with
  | nil => exact absurd rfl h.ne_nil
  | cons byte b ih =>
      rw [headEndFrom]
      split
      · exact ⟨_, rfl⟩
      · rename_i hnot
        refine ih ?_ _
        exact (List.suffix_cons_iff.mp h).resolve_left fun heq =>
          hnot (List.isPrefixOf_iff_prefix.mpr (heq ▸ List.prefix_refl _))

/-- What is cut off in front is **one head within the limit**. -/
theorem isHead_of_headProgress (h : headProgress limit b = .done head rest) :
    IsHead head ∧ Whole head ∧ head.length ≤ limit := by
  have happend := append_of_headProgress h
  unfold headProgress at h
  split at h
  · rename_i e hend
    split at h
    · cases h
    · rename_i hlimit
      obtain ⟨hhead, -⟩ := HeadProgress.done.inj h
      have hlength : head.length = e := by
        rw [← hhead, List.length_take]
        have := (headEndFrom_bounds hend).2
        omega
      have hwhole : Whole head := hhead ▸ whole_of_headEndFrom hend
      obtain ⟨e', hfound⟩ := headEndFrom_of_whole hwhole 0
      -- an end that is found in the head stays where it is when the rest comes
      have hsame := headEndFrom_append hfound rest
      rw [happend] at hsame
      have heq : e' = e := Option.some.inj (hsame.symm.trans hend)
      refine ⟨?_, hwhole, by omega⟩
      rw [IsHead, hlength, ← heq]
      exact hfound
  · split at h <;> cases h

/-- What is collected is **one head**, and no byte is lost around it. -/
theorem readHead_sound {collected : Bytes} {reads later : List Read}
    (h : readHead limit collected reads = .ok (head, rest, later)) :
    (∃ b, headProgress limit b = .done head rest) ∧
      head ++ (rest ++ readRest later) = collected ++ readRest reads := by
  induction reads generalizing collected with
  | nil =>
      rw [readHead] at h
      split at h
      · cases h
      · rename_i hdone
        cases h
        exact ⟨⟨_, hdone⟩, by rw [← List.append_assoc, append_of_headProgress hdone]⟩
      · cases h
  | cons read reads ih =>
      rw [readHead.eq_def] at h
      split at h
      · cases h
      · rename_i hdone
        cases h
        exact ⟨⟨_, hdone⟩, by rw [← List.append_assoc, append_of_headProgress hdone]⟩
      · match read with
        | .error reason => cases h
        | .ok [] => cases h
        | .ok (byte :: piece) =>
            obtain ⟨hdone, happend⟩ := ih h
            refine ⟨hdone, happend.trans ?_⟩
            simp [readRest]

end Collected

/-! ### What is read of a collected head -/

/-- A failure over **a line that is wrong**. -/
def Malformed (failure : Failure) : Prop :=
  ∃ text, failure = .malformedHeader text ∨ failure = .malformedStartLine text

/-- How a reader of requests or responses **turns what it reads into what it gives**. -/
inductive ReadBy {α β : Type} (scan : Scan Flaw α) : Except Failure β → Prop
  | incomplete : scan = .incomplete → ReadBy scan (.error .incomplete)
  | flaw {flaw : Flaw} : scan = .fault flaw → ReadBy scan (.error (.ofFlaw flaw))
  | malformed {parts : α} {left : Bytes} {failure : Failure} : scan = .found parts left →
      Malformed failure → ReadBy scan (.error failure)
  | found {parts : α} {left : Bytes} (value : β) : scan = .found parts left →
      ReadBy scan (.ok value)

theorem malformed_ofFlaw (flaw : Flaw) : Malformed (.ofFlaw flaw) := by
  unfold Failure.ofFlaw
  split
  · exact ⟨_, .inl rfl⟩
  · exact ⟨_, .inr rfl⟩

theorem Malformed.ne_incomplete {failure : Failure} (h : Malformed failure) :
    failure ≠ .incomplete := by
  obtain ⟨text, rfl | rfl⟩ := h <;> exact nofun

/-- Header lines that cannot be collected are **malformed**. -/
theorem malformed_of_collectFields {fields : List Field} {failure : Failure}
    (h : collectFields fields = .error failure) : Malformed failure := by
  unfold collectFields at h
  generalize Headers.empty = headers at h
  induction fields generalizing headers with
  | nil => cases h
  | cons field fields ih =>
      rw [List.foldlM_cons] at h
      by_cases hname : Headers.isName field.name = true
      · rw [if_pos hname] at h
        exact ih _ h
      · rw [if_neg hname] at h
        obtain rfl := Except.error.inj h
        exact ⟨_, .inl rfl⟩

theorem Request.readBy (head : Bytes) : ReadBy (parseRequestHead head) (Request.parse head) := by
  unfold Request.parse
  split
  · rename_i hscan
    exact .incomplete hscan
  · rename_i flaw hscan
    exact .flaw hscan
  · rename_i parts left hscan
    split
    · exact .found _ hscan
    · rename_i failure hfields
      exact .malformed hscan (malformed_of_collectFields hfields)

theorem Response.readBy (head : Bytes) : ReadBy (parseResponseHead head) (Response.parse head) := by
  unfold Response.parse
  split
  · rename_i hscan
    exact .incomplete hscan
  · rename_i flaw hscan
    exact .flaw hscan
  · rename_i parts left hscan
    split
    · exact .malformed hscan ⟨_, .inr rfl⟩
    · split
      · exact .found _ hscan
      · rename_i failure hfields
        exact .malformed hscan (malformed_of_collectFields hfields)

/-- What a reader makes of a head: how far it reads (`scan`), and **what it gives** (`result`). -/
structure Extent {α β : Type} (head : Bytes) (scan : Scan Flaw α) (result : Except Failure β) :
    Prop where
  /-- It waits for more exactly when there are empty lines only. -/
  waits : result = .error .incomplete ↔ EmptyLines head
  /-- Whatever else it turns down is a line. -/
  malformed : ∀ failure, result = .error failure → failure ≠ .incomplete → Malformed failure
  /-- What it gives is what it has read. -/
  found : ∀ value, result = .ok value → ∃ parts left, scan = .found parts left
  /-- It stops behind an empty line, and at the end of the head exactly when that empty line ends
  with two line ends. -/
  stops : ∀ parts left, scan = .found parts left →
    ∃ used, head = used ++ left ∧ EndsEmpty used ∧ (left = [] ↔ Whole used)
  /-- It reads the whole head when no line feed stands alone. -/
  whole : StrictLines head → ∀ parts left, scan = .found parts left → left = []

section ReadBy

variable {α β : Type} {head used left : Bytes} {scan : Scan Flaw α} {result : Except Failure β}

/-- Nothing of a head is left behind its **first two line ends**. -/
theorem eq_nil_iff_whole (hhead : IsHead head) (hwhole : Whole head)
    (happend : head = used ++ left) : left = [] ↔ Whole used := by
  constructor
  · rintro rfl
    rwa [← List.append_nil used, ← happend]
  · intro hused
    obtain ⟨e, hfound⟩ := headEndFrom_of_whole hused 0
    have hsame := headEndFrom_append hfound left
    rw [← happend] at hsame
    have heq : e = head.length := Option.some.inj (hsame.symm.trans hhead)
    have hbound := (headEndFrom_bounds hfound).2
    have hlength := congrArg List.length happend
    rw [List.length_append] at hlength
    exact List.eq_nil_of_length_eq_zero (by omega)

/-- A reader that settles unless there are empty lines only has read **as far as it should**. -/
theorem Extent.of_settles (hhead : IsHead head) (hwhole : Whole head)
    (hempty : EmptyLines head → scan = .incomplete)
    (hsettles : EmptyLines head ∨ scan.Settles (FollowsEmpty head)) (hread : ReadBy scan result) :
    Extent head scan result := by
  have hfollows : ∀ {parts left}, scan = .found parts left → FollowsEmpty head left := by
    rintro parts left rfl
    exact hsettles.resolve_left fun hlines => nomatch hempty hlines
  have hstops : ∀ parts left, scan = .found parts left →
      ∃ used, head = used ++ left ∧ EndsEmpty used ∧ (left = [] ↔ Whole used) := by
    intro parts left hscan
    obtain ⟨used, happend, hused⟩ := hfollows hscan
    exact ⟨used, happend, hused, eq_nil_iff_whole hhead hwhole happend⟩
  refine ⟨⟨fun hresult => ?_, fun hlines => ?_⟩, ?_, ?_, hstops, ?_⟩
  · cases hread with
    | incomplete hscan => exact hsettles.resolve_right fun h => by rwa [hscan] at h
    | flaw hscan => exact absurd (Except.error.inj hresult) (malformed_ofFlaw _).ne_incomplete
    | malformed hscan hfailure => exact absurd (Except.error.inj hresult) hfailure.ne_incomplete
    | found value hscan => cases hresult
  · have hscan := hempty hlines
    cases hread with
    | incomplete => rfl
    | flaw h => cases h.symm.trans hscan
    | malformed h => cases h.symm.trans hscan
    | found value h => cases h.symm.trans hscan
  · rintro failure hresult hne
    cases hread with
    | incomplete => exact absurd (Except.error.inj hresult).symm hne
    | flaw => exact Except.error.inj hresult ▸ malformed_ofFlaw _
    | malformed _ hfailure => exact Except.error.inj hresult ▸ hfailure
    | found value => cases hresult
  · rintro value hresult
    cases hread with
    | found _ hscan => exact ⟨_, _, hscan⟩
    | _ => cases hresult
  · intro hstrict parts left hscan
    obtain ⟨used, happend, hused, hleft⟩ := hstops parts left hscan
    refine hleft.mpr (hused.whole fun front hfront => hstrict front ?_)
    exact hfront.trans (happend ▸ List.prefix_append ..)

end ReadBy

/-- How far **the head in front of a stream** is read. -/
theorem extent_of_headProgress {limit : Nat} {b head rest : Bytes}
    (h : headProgress limit b = .done head rest) :
    Extent head (parseRequestHead head) (Request.parse head) ∧
      Extent head (parseResponseHead head) (Response.parse head) := by
  obtain ⟨hhead, hwhole, -⟩ := isHead_of_headProgress h
  constructor
  · refine .of_settles hhead hwhole (fun hlines => ?_) (parseRequestHead_settles hwhole)
      (Request.readBy head)
    rw [parseRequestHead, skipEmptyLines_of_emptyLines hlines]
    rfl
  · refine .of_settles hhead hwhole (fun hlines => ?_) (parseResponseHead_settles hwhole)
      (Response.readBy head)
    rw [parseResponseHead, skipEmptyLines_of_emptyLines hlines]
    rfl

/-- **What requests and responses are read of a head that was collected.** The head, what was read
behind it and what is read later are the stream. A reader of the head reports that it is incomplete
only when the head is empty lines; it turns down nothing else but a line. It stops behind an empty
line of the head, and leaves nothing of the head unless that empty line, standing behind a line
feed, ends with a line feed alone. -/
theorem extent_of_readHead {limit : Nat} {reads later : List Read} {head rest : Bytes}
    (h : readHead limit [] reads = .ok (head, rest, later)) :
    head ++ (rest ++ readRest later) = readRest reads ∧ head.length ≤ limit ∧
      Extent head (parseRequestHead head) (Request.parse head) ∧
      Extent head (parseResponseHead head) (Response.parse head) := by
  obtain ⟨⟨b, hdone⟩, happend⟩ := readHead_sound h
  exact ⟨by simpa using happend, (isHead_of_headProgress hdone).2.2, extent_of_headProgress hdone⟩

/-- A request in two pieces, with the first byte of a frame behind it: the reader reads the request
to its end. -/
theorem extent_of_twoPieces :
    let first := Bytes.ascii "GET / HTTP/1.1\r\nHost: h\r\n\r"
    let head := Bytes.ascii "GET / HTTP/1.1\r\nHost: h\r\n\r\n"
    let reads := [.ok first, .ok [lineFeed, 0x81], .ok []]
    readHead 64 [] reads = .ok (head, [0x81], [.ok []]) ∧
      head ++ ([0x81] ++ readRest [.ok []]) = readRest reads ∧ head.length ≤ 64 ∧
      Extent head (parseRequestHead head) (Request.parse head) ∧
      Extent head (parseResponseHead head) (Response.parse head) :=
  ⟨by cbv, extent_of_readHead (by cbv)⟩

/-- Two line ends are a head that is collected and **reported as incomplete**; and a line feed
that stands alone makes the reader stop **before the end** of what was collected. -/
theorem not_whole_of_readHead :
    (¬∀ (limit : Nat) (reads later : List Read) (head rest : Bytes),
      readHead limit [] reads = .ok (head, rest, later) → Request.parse head ≠ .error .incomplete) ∧
    (¬∀ (limit : Nat) (reads later : List Read) (head rest : Bytes),
      readHead limit [] reads = .ok (head, rest, later) →
      ∀ parts left, parseRequestHead head = .found parts left → left = []) := by
  constructor
  · intro hclaim
    exact hclaim 64 [.ok (newline ++ newline)] [] (newline ++ newline) [] (by cbv) rfl
  · intro hclaim
    have hread : readHead 64 [] [.ok (Bytes.ascii "GET / HTTP/1.1\n\nX\r\n\r\n")] =
        .ok (Bytes.ascii "GET / HTTP/1.1\n\nX\r\n\r\n", [], []) := by cbv
    have hscan : parseRequestHead (Bytes.ascii "GET / HTTP/1.1\n\nX\r\n\r\n") =
        .found ⟨Bytes.ascii "GET", Bytes.ascii "/", .http11, []⟩ (Bytes.ascii "X\r\n\r\n") := by
      decide +kernel
    exact absurd (hclaim _ _ _ _ _ hread _ _ hscan) (by decide)

end Handshake

end WebSocket
