import Mathlib.Data.List.Nodup
import Mathlib.Logic.Function.Basic
import WebSocket.Dial
import WebSocket.Proofs.Handshake.Requests
import WebSocket.Proofs.Uri.Percent
import WebSocket.Proofs.Uri.Reference

/-!
# The target that a dialler asks for

The parameters of a dialler are a map, and the target shows the map and nothing else. What a call
does to the map is `Giving.amend`, and the dialler's list of parameters keeps step with it
(`Dialler.Keeps`). Names are different from each other, so a list in ascending order of the names is
the only one with its members: whatever order the parameters were given in, they are written in the
same order. A name or a value is written without the bytes that part parameters, so a reader who
splits there comes to the list again, and from the list to the map.

## Main results

* `Dialler.readParameters?_appended`: what is appended is **read as the parameters** in their order.
* `Dialler.keeps_given`: the dialler keeps **the map that its calls make**.
* `Dialler.ordered_congr`: the order in which parameters were given **makes no difference**.
* `Dialler.target_of_calls`: the target is the path, the query and **the map**, and can be put into
  a start line.
-/

namespace WebSocket

namespace Dialler

variable {d d' : Dialler} {u : Uri} {m m' : String → Option String}
  {ps : List (String × String)}

/-- What parts two parameters. -/
def ampersand : UInt8 := 0x26

/-- What parts a name from its value. -/
def equals : UInt8 := 0x3D

/-! ### The order of names -/

/-- The order of two byte strings is **that of lists**. -/
theorem bytesLe_iff {a b : Bytes} : bytesLe a b = true ↔ a ≤ b := by
  induction a generalizing b with
  | nil => simp [bytesLe]
  | cons x a ih =>
      cases b with
      | nil => simp [bytesLe]
      | cons y b =>
          rw [List.cons_le_cons_iff, bytesLe]
          by_cases heq : x = y
          · simp [heq, ih]
          · simp [heq]

/-- Whether a parameter **comes before** another one, or has the same name. -/
def paramLe (p q : String × String) : Bool := bytesLe (Utf8.encode p.1) (Utf8.encode q.1)

theorem pairwise_paramLe (ps : List (String × String)) :
    (ps.mergeSort paramLe).Pairwise fun p q => Utf8.encode p.1 ≤ Utf8.encode q.1 := by
  have htrans : ∀ p q r, paramLe p q = true → paramLe q r = true → paramLe p r = true :=
    fun p q r hpq hqr => bytesLe_iff.mpr (List.le_trans (bytesLe_iff.mp hpq) (bytesLe_iff.mp hqr))
  have htotal : ∀ p q, (paramLe p q || paramLe q p) = true := fun p q => by
    rw [Bool.or_eq_true, paramLe, paramLe, bytesLe_iff, bytesLe_iff]
    exact List.le_total _ _
  exact (List.pairwise_mergeSort htrans htotal ps).imp fun h => bytesLe_iff.mp h

/-- The parameters **in ascending order** of their names. -/
def ordered (d : Dialler) : List (String × String) := d.parameters.mergeSort paramLe

theorem mem_ordered {p : String × String} : p ∈ d.ordered ↔ p ∈ d.parameters := List.mem_mergeSort

theorem sortedParameters_eq (d : Dialler) : d.sortedParameters =
    d.ordered.map fun p => (Utf8.encode p.1, Utf8.encode p.2) := by
  have hsame := List.map_mergeSort (l := d.parameters) (r := paramLe)
    (s := fun p q => bytesLe p.1 q.1) (f := fun p => (Utf8.encode p.1, Utf8.encode p.2))
    fun _ _ _ _ => rfl
  exact hsame.symm

/-- Names that are different are **in strictly ascending order**. -/
theorem pairwise_ordered (hnames : (d.parameters.map Prod.fst).Nodup) :
    d.ordered.Pairwise fun p q => Utf8.encode p.1 < Utf8.encode q.1 := by
  have hdifferent : (d.ordered.map Prod.fst).Nodup :=
    ((List.mergeSort_perm _ _).map Prod.fst).nodup_iff.mpr hnames
  refine ((pairwise_paramLe _).and (List.pairwise_map.mp hdifferent)).imp fun ⟨hle, hne⟩ => ?_
  exact Std.lt_of_le_of_ne hle fun heq => hne (Utf8.encode_injective heq)

/-- The **order in which parameters were given** makes no difference. -/
theorem ordered_congr (hnames : (d.parameters.map Prod.fst).Nodup)
    (hperm : d'.parameters.Perm d.parameters) : d'.ordered = d.ordered := by
  have hboth : d'.ordered.Perm d.ordered :=
    (List.mergeSort_perm _ _).trans (hperm.trans (List.mergeSort_perm _ _).symm)
  refine hboth.eq_of_pairwise (fun p q hp hq hpq hqp => ?_) (pairwise_paramLe _)
    (pairwise_paramLe _)
  have hname := Utf8.encode_injective (List.le_antisymm hpq hqp)
  exact List.inj_on_of_nodup_map hnames (mem_ordered.mp (hboth.subset hp)) (mem_ordered.mp hq) hname

/-! ### What is appended -/

/-- One parameter **as it is written**. -/
def writtenPair (p : String × String) : Bytes :=
  writtenParameter (Utf8.encode p.1) (Utf8.encode p.2)

/-- Parameters as they are written, **one behind the other**. -/
def written (ps : List (String × String)) : Bytes := [ampersand].intercalate (ps.map writtenPair)

theorem written_cons_cons (p q : String × String) (ps : List (String × String)) :
    written (p :: q :: ps) = writtenPair p ++ ampersand :: written (q :: ps) := by
  simp [written, List.intercalate_cons_cons]

/-- What is **appended** to the path and the query: nothing, or parameters behind a mark. -/
def appended (mark : UInt8) (ps : List (String × String)) : Bytes :=
  if ps.isEmpty then [] else mark :: written ps

/-- What parts the parameters from the rest: a question mark, unless the address has one. -/
def separator (d : Dialler) : UInt8 :=
  if d.address.query.isSome then ampersand else Uri.question

/-- **The target**: the path, the query, and the parameters. -/
theorem target_eq (d : Dialler) :
    d.target = d.address.pathAndQuery ++ appended d.separator d.ordered := by
  have hparts : (d.sortedParameters.map fun p => writtenParameter p.1 p.2) =
      d.ordered.map writtenPair := by
    rw [sortedParameters_eq, List.map_map]
    rfl
  have htarget : d.target =
      let path := if d.address.path.isEmpty then [Uri.slash] else d.address.path
      let parts := d.address.query.toList ++ d.ordered.map writtenPair
      if parts.isEmpty then path
      else path ++ Uri.question :: [ampersand].intercalate parts := by
    rw [← hparts]
    rfl
  rw [htarget, Uri.pathAndQuery, separator, appended, written]
  cases hquery : d.address.query with
  | none =>
      cases d.ordered with
      | nil => simp
      | cons p ps => simp [ampersand]
  | some query =>
      cases d.ordered with
      | nil => simp
      | cons p ps => simp [ampersand, List.intercalate_cons_cons]

/-- The bytes with which parameters **are written**. -/
def isAppendedChar (b : UInt8) : Bool := Percent.isWritten b || b == equals || b == ampersand

theorem isAppendedChar_of_mem_writtenPair {p : String × String} {byte : UInt8}
    (h : byte ∈ writtenPair p) : isAppendedChar byte = true := by
  have hencoded : ∀ {b : Bytes}, byte ∈ Percent.encode b → isAppendedChar byte = true := by
    intro b hb
    rw [isAppendedChar, Percent.isWritten_of_mem_encode hb]
    rfl
  obtain hname | h := List.mem_append.mp h
  · exact hencoded hname
  · obtain rfl | hvalue := List.mem_cons.mp h
    · rfl
    · exact hencoded hvalue

/-- Parameters are written **in these bytes**: names and values bring no blank, no end of a line and
no mark that parts a target. -/
theorem isAppendedChar_of_mem_written {byte : UInt8} (h : byte ∈ written ps) :
    isAppendedChar byte = true := by
  induction ps with
  | nil => cases h
  | cons p ps ih =>
      cases ps with
      | nil => exact isAppendedChar_of_mem_writtenPair (by simpa [written] using h)
      | cons q ps =>
          rw [written_cons_cons, List.mem_append, List.mem_cons] at h
          obtain hp | rfl | hmore := h
          · exact isAppendedChar_of_mem_writtenPair hp
          · rfl
          · exact ih hmore

theorem isTarget_of_isAppendedChar : ∀ byte, isAppendedChar byte = true →
    Http.isTarget byte = true ∧ byte < 0x80 :=
  Bytes.forall_byte (by decide +kernel)

/-- What is appended **can stand in a request target**. -/
theorem isTarget_of_mem_appended {byte : UInt8} (h : byte ∈ appended d.separator ps) :
    Http.isTarget byte = true ∧ byte < 0x80 := by
  unfold appended at h
  split at h
  · cases h
  · obtain rfl | hwritten := List.mem_cons.mp h
    · unfold separator
      split <;> decide
    · exact isTarget_of_isAppendedChar byte (isAppendedChar_of_mem_written hwritten)

/-! ### Reading the parameters -/

/-- One parameter **as it is read**: a name and a value on the two sides of the only sign that parts
them. -/
def readParameter? (part : Bytes) : Option (String × String) :=
  match Bytes.splitOn equals part with
  | [name, value] => do some (← Percent.text? name, ← Percent.text? value)
  | _ => none

/-- What is appended **as it is read**: nothing, or behind a mark one parameter after the other. -/
def readParameters? : Bytes → Option (List (String × String))
  | [] => some []
  | _ :: parameters => (Bytes.splitOn ampersand parameters).mapM readParameter?

/-- A name and a value are **told apart** by the sign between them. -/
theorem splitOn_writtenPair (p : String × String) : Bytes.splitOn equals (writtenPair p) =
    [Percent.encode (Utf8.encode p.1), Percent.encode (Utf8.encode p.2)] := by
  have hsides : writtenPair p = [equals].intercalate
      [Percent.encode (Utf8.encode p.1), Percent.encode (Utf8.encode p.2)] := by
    simp [writtenPair, writtenParameter, equals]
  rw [Bytes.splitOn_eq, hsides]
  refine List.splitOn_intercalate equals (List.forall_mem_cons.mpr
    ⟨Percent.not_mem_encode (by decide) _, List.forall_mem_singleton.mpr ?_⟩) nofun
  exact Percent.not_mem_encode (by decide) _

/-- One parameter that is written **is read**. -/
theorem readParameter?_writtenPair (p : String × String) :
    readParameter? (writtenPair p) = some p := by
  rw [readParameter?, splitOn_writtenPair]
  simp [Percent.text?_encode]

theorem ampersand_not_mem_writtenPair (p : String × String) : ampersand ∉ writtenPair p := by
  rw [writtenPair, writtenParameter, List.mem_append, List.mem_cons]
  rintro (h | h | h)
  · exact Percent.not_mem_encode (by decide) _ h
  · cases h
  · exact Percent.not_mem_encode (by decide) _ h

/-- Parameters are **told apart** by the marks between them. -/
theorem splitOn_written (hne : ps ≠ []) :
    Bytes.splitOn ampersand (written ps) = ps.map writtenPair := by
  rw [Bytes.splitOn_eq, written]
  refine List.splitOn_intercalate ampersand (List.forall_mem_map.mpr fun p _ => ?_) ?_
  · exact ampersand_not_mem_writtenPair p
  · exact mt List.map_eq_nil_iff.mp hne

theorem mapM_readParameter? (ps : List (String × String)) :
    (ps.map writtenPair).mapM readParameter? = some ps := by
  induction ps with
  | nil => rfl
  | cons p ps ih =>
      rw [List.map_cons, List.mapM_cons, readParameter?_writtenPair, ih]
      rfl

/-- **What is appended is read as the parameters**, whatever their names and values are. -/
theorem readParameters?_appended (mark : UInt8) (ps : List (String × String)) :
    readParameters? (appended mark ps) = some ps := by
  unfold appended
  split
  · rename_i hempty
    rw [List.isEmpty_iff.mp hempty]
    rfl
  · rename_i hne
    rw [readParameters?, splitOn_written (mt List.isEmpty_iff.mpr hne), mapM_readParameter?]

/-- Parameters that are written alike **are the same**. -/
theorem appended_injective (mark : UInt8) : Function.Injective (appended mark) := fun ps qs h => by
  rw [← Option.some_inj, ← readParameters?_appended mark ps, h, readParameters?_appended]

/-- Diallers of one address have the same target if they ask for **the same parameters**. -/
theorem target_eq_iff (haddress : d'.address = d.address) :
    d'.target = d.target ↔ d'.ordered = d.ordered := by
  have hseparator : d'.separator = d.separator := by rw [separator, separator, haddress]
  rw [target_eq, target_eq, haddress, hseparator, List.append_cancel_left_eq,
    (appended_injective _).eq_iff]

/-! ### Calls -/

/-- A call that **gives parameters**. -/
inductive Giving where
  /-- All parameters anew. -/
  | all (parameters : List (String × String))
  | one (name value : String)

/-- The dialler behind a call. -/
def give (d : Dialler) : Giving → Dialler
  | .all parameters => d.withParameters parameters
  | .one name value => d.addParameter name value

/-- The dialler behind some calls, the first of which finds no parameters. -/
def given (d : Dialler) (calls : List Giving) : Dialler :=
  calls.foldl give { d with parameters := [] }

/-- What a call makes of **the map** from names to values. -/
def Giving.amend (m : String → Option String) : Giving → String → Option String
  | .all parameters =>
    parameters.foldl (fun m p => Function.update m p.1 (some p.2)) fun _ => none
  | .one name value => Function.update m name (some value)

/-- **The map** behind some calls. -/
def finalMap (calls : List Giving) : String → Option String :=
  calls.foldl Giving.amend fun _ => none

/-- A dialler of an address whose parameters **are a map**: one value for each name. -/
structure Keeps (u : Uri) (m : String → Option String) (d : Dialler) : Prop where
  address : d.address = u
  names : (d.parameters.map Prod.fst).Nodup
  value : ∀ name value, (name, value) ∈ d.parameters ↔ m name = some value

theorem keeps_nil (d : Dialler) : Keeps d.address (fun _ => none) { d with parameters := [] } :=
  ⟨rfl, List.nodup_nil, fun _ _ => by simp⟩

theorem Keeps.addParameter (h : Keeps u m d) (name value : String) :
    Keeps u (Function.update m name (some value)) (d.addParameter name value) := by
  refine ⟨h.address, ?_, fun other v => ?_⟩
  · rw [Dialler.addParameter, List.map_append, List.nodup_append]
    refine ⟨(List.filter_sublist.map Prod.fst).nodup h.names, List.nodup_singleton _, ?_⟩
    rintro _ hp _ hq rfl
    obtain ⟨p, hp, hpname⟩ := List.mem_map.mp hp
    obtain rfl : _ = name := List.mem_singleton.mp hq
    have hother := (List.mem_filter.mp hp).2
    simp [hpname] at hother
  · by_cases heq : other = name
    · subst heq
      simp [Dialler.addParameter, eq_comm]
    · simp [Dialler.addParameter, heq, h.value]

theorem Keeps.addParameters (h : Keeps u m d) (ps : List (String × String)) :
    Keeps u (ps.foldl (fun m p => Function.update m p.1 (some p.2)) m)
      (ps.foldl (fun d p => d.addParameter p.1 p.2) d) := by
  induction ps generalizing d m with
  | nil => exact h
  | cons p ps ih => exact ih (h.addParameter p.1 p.2)

/-- **A call** does the same to the dialler and to the map. -/
theorem Keeps.give (h : Keeps u m d) (call : Giving) : Keeps u (call.amend m) (d.give call) := by
  cases call with
  | one name value => exact h.addParameter name value
  | all ps =>
      obtain rfl := h.address
      exact (keeps_nil d).addParameters ps

theorem Keeps.gives (h : Keeps u m d) (calls : List Giving) :
    Keeps u (calls.foldl Giving.amend m) (calls.foldl Dialler.give d) := by
  induction calls generalizing d m with
  | nil => exact h
  | cons call calls ih => exact ih (h.give call)

/-- The dialler keeps **the map that its calls make**. -/
theorem keeps_given (d : Dialler) (calls : List Giving) :
    Keeps d.address (finalMap calls) (d.given calls) :=
  (keeps_nil d).gives calls

/-- Diallers that keep **one map** ask for one order of parameters. -/
theorem Keeps.ordered_eq (h : Keeps u m d) (h' : Keeps u m d') : d'.ordered = d.ordered := by
  refine ordered_congr h.names ?_
  refine (List.perm_ext_iff_of_nodup h'.names.of_map h.names.of_map).mpr fun p => ?_
  rw [h'.value, h.value]

/-- Diallers that keep **two maps** do not. -/
theorem Keeps.eq_of_ordered (h : Keeps u m d) (h' : Keeps u m' d')
    (heq : d'.ordered = d.ordered) : m' = m := by
  funext name
  refine Option.ext fun value => ?_
  rw [← h'.value, ← mem_ordered, heq, mem_ordered, h.value]

/-! ### Start lines -/

/-- The target of an address that was read **is a request target**. -/
theorem isTarget_target {b : Bytes} (h : Uri.parse? b = some d.address) :
    d.target.all Http.isTarget = true ∧ Utf8.isValid d.target = true := by
  obtain ⟨hfront, hvalid⟩ := Uri.pathAndQuery_of_parse? h
  rw [target_eq, List.all_append, hfront, Bool.true_and]
  constructor
  · exact List.all_eq_true.mpr fun byte hbyte => (isTarget_of_mem_appended hbyte).1
  · exact Utf8.isValid_append hvalid
      (Utf8.isValid_of_ascii fun byte hbyte => (isTarget_of_mem_appended hbyte).2)

/-- It is put into a start line as a text, and **read from the line** as it is. -/
theorem parseTarget_target {b : Bytes} (h : Uri.parse? b = some d.address) :
    ∃ path, Utf8.text? d.target = some path ∧
      ∀ rest, Http.parseTarget (Utf8.encode path ++ Http.space :: rest) = .found d.target rest := by
  obtain ⟨hall, hvalid⟩ := isTarget_target h
  have hne : d.target ≠ [] := by
    rw [target_eq]
    exact List.append_ne_nil_of_left_ne_nil d.address.pathAndQuery_ne_nil _
  obtain ⟨path, hpath⟩ := Option.ne_none_iff_exists'.mp fun hnone => by
    rw [Utf8.text?_eq_none_iff.mp hnone] at hvalid
    cases hvalid
  refine ⟨path, hpath, fun rest => ?_⟩
  rw [Utf8.encode_of_text? hpath]
  exact Http.parseTarget_append hall hne hvalid rest

/-! ### The target -/

/-- A target that **shows a map**: the path and the query of the address, and behind them a part
that is read as parameters. -/
structure Shows (d : Dialler) (m : String → Option String) (back : Bytes)
    (ps : List (String × String)) : Prop where
  whole : d.target = d.address.pathAndQuery ++ back
  /-- What is behind the query is parted from it, or there is nothing. -/
  parted : back = [] ∨ back.head? = some d.separator
  /-- Then there are only the bytes of what is percent encoded, and the two marks that part it. -/
  plain : back.tail.all isAppendedChar = true
  read : readParameters? back = some ps
  ascending : ps.Pairwise fun p q => Utf8.encode p.1 < Utf8.encode q.1
  /-- The parameters that are read are those of the map. -/
  same : ∀ name value, (name, value) ∈ ps ↔ m name = some value

theorem Keeps.shows (h : Keeps u m d) :
    d.Shows m (appended d.separator d.ordered) d.ordered where
  whole := d.target_eq
  parted := by
    unfold appended
    split
    · exact .inl rfl
    · exact .inr rfl
  plain := by
    unfold appended
    split
    · rfl
    · exact List.all_eq_true.mpr fun byte => isAppendedChar_of_mem_written
  read := readParameters?_appended _ _
  ascending := pairwise_ordered h.names
  same name value := by rw [mem_ordered, h.value]

/-- **The target shows the map.** Behind any calls it is the path of the address, its query as it
is, and a part that is read as the parameters: one for each name of the map, with its value, in
strictly ascending order of the names. Other calls lead to the same target exactly if they make the
same map, and a dialler of the same address that holds the parameters in another order has the same
target. For an address that was read, the target is put into a start line as a text and read from
there, whatever names and values are. -/
theorem target_of_calls (d : Dialler) (calls : List Giving) :
    (d.given calls).address = d.address ∧
    (∃ back ps, (d.given calls).Shows (finalMap calls) back ps) ∧
    (∀ others, (d.given others).target = (d.given calls).target ↔
      finalMap others = finalMap calls) ∧
    (∀ d' : Dialler, d'.address = d.address → d'.parameters.Perm (d.given calls).parameters →
      d'.target = (d.given calls).target) ∧
    ∀ b, Uri.parse? b = some d.address → ∃ path, Utf8.text? (d.given calls).target = some path ∧
      ∀ rest, Http.parseTarget (Utf8.encode path ++ Http.space :: rest) =
        .found (d.given calls).target rest := by
  have hkeeps := keeps_given d calls
  refine ⟨hkeeps.address, ⟨_, _, hkeeps.shows⟩, fun others => ?_, fun d' haddress hperm => ?_,
    fun b hread => ?_⟩
  · have hothers := keeps_given d others
    rw [target_eq_iff (hothers.address.trans hkeeps.address.symm)]
    constructor
    · exact hkeeps.eq_of_ordered hothers
    · intro hsame
      exact hkeeps.ordered_eq (hsame ▸ hothers)
  · rw [target_eq_iff (haddress.trans hkeeps.address.symm)]
    exact ordered_congr hkeeps.names hperm
  · exact parseTarget_target (hkeeps.address.symm ▸ hread)

/-- An address with a query of its own. -/
def chatAddress : Uri :=
  ⟨some (Bytes.ascii "ws"), Bytes.ascii "localhost:9000", Bytes.ascii "/chat",
    some (Bytes.ascii "room=1")⟩

/-- Two parameters behind one that is lost, and the later one is written first. -/
def chatCalls : List Giving :=
  [.one "old" "1", .all [("token", "a b&c")], .one "client" "probe"]

theorem target_given_chatCalls : (given { address := chatAddress } chatCalls).target =
    Bytes.ascii "/chat?room=1&client=probe&token=a%20b%26c" := by
  have hparameters : (given { address := chatAddress } chatCalls).parameters =
      [("token", "a b&c"), ("client", "probe")] := by decide +kernel
  have hlater : paramLe ("token", "a b&c") ("client", "probe") = false := by decide +kernel
  have hordered : (given { address := chatAddress } chatCalls).ordered =
      [("client", "probe"), ("token", "a b&c")] := by
    rw [ordered, hparameters]
    simp [List.mergeSort, hlater]
  rw [target_eq, hordered, separator, (keeps_given _ _).address]
  decide +kernel

/-- This target shows the map of the two parameters, and **is read from a start line**. -/
theorem target_of_chatCalls :
    (∃ back ps, (given { address := chatAddress } chatCalls).Shows (finalMap chatCalls) back ps) ∧
    ∃ path, ∀ rest, Http.parseTarget (Utf8.encode path ++ Http.space :: rest) =
      .found (Bytes.ascii "/chat?room=1&client=probe&token=a%20b%26c") rest := by
  have hread : Uri.parse? (Bytes.ascii "ws://localhost:9000/chat?room=1") = some chatAddress := by
    decide +kernel
  obtain ⟨-, hshows, -, -, hline⟩ := target_of_calls { address := chatAddress } chatCalls
  obtain ⟨path, -, hfound⟩ := hline _ hread
  rw [target_given_chatCalls] at hfound
  exact ⟨hshows, path, hfound⟩

end Dialler

end WebSocket
