import WebSocket.Proofs.Handshake.Layouts
import WebSocket.Proofs.Handshake.Judgements
import Mathlib.Data.List.Nodup

/-!
# What a head looks like does not matter

A head is judged by what it says: its start line, and the value that each header has in the end. The
case of names, the order of header lines, the blanks around values and the kind of line end are its
looks. Two heads that say the same are accepted both or neither, and judged the same: the same
verdict on a request, the same response to it, the same verdict on a response.

The argument goes through the one way in which headers are used, looking up a name. What is found
is the last value of that name among the header lines (`Http.lastValue?`), and whatever is judged
depends on the headers through this alone (`Http.Headers.Agree`). The order of lines does not matter
as long as no name is repeated; of lines with one name all but the last can go.

## Main results

* `Handshake.get?_of_collectFields`: a header that is looked up has **the last value of its name**.
* `Handshake.judgedAs_of_replaces`: header lines can be replaced by others with **the same last
  values**.
* `Handshake.judgedAs_of_says`: heads that **say the same** are judged the same.
-/

namespace WebSocket

namespace Http

variable {name : Bytes}

/-! ### Headers that are looked up -/

namespace Headers

/-- Headers in which **every name has the same value**. -/
def Agree (h h' : Headers) : Prop := ∀ name, h.get? name = h'.get? name

/-- A header line that is read **takes its place**. -/
def put (h : Headers) (f : Field) : Headers := h.insert (Bytes.lower f.name) f.value

/-- What is set **is found**, and nothing else changes. -/
theorem get?_insert (h : Headers) (name value other : Bytes) :
    (h.insert name value).get? other = if name = other then some value else h.get? other := by
  obtain ⟨fields⟩ := h
  simp only [insert, get?]
  induction fields with
  | nil => by_cases hother : name = other <;> simp [insertField, hother]
  | cons f fields ih =>
      rw [insertField]
      by_cases hname : f.name = name
      · by_cases hother : name = other <;> simp [hname, hother]
      · rw [if_neg (by simpa using hname)]
        by_cases hfirst : f.name = other
        · have hother : name ≠ other := fun heq => hname (hfirst.trans heq.symm)
          simp [hfirst, hother]
        · simpa [hfirst] using ih

end Headers

/-- The value that **the last of the lines** with a name has. -/
def lastValue? (name : Bytes) : List Field → Option Bytes
  | [] => none
  | f :: later => (lastValue? name later).or (if f.name = name then some f.value else none)

theorem lastValue?_eq_none {fields : List Field} :
    lastValue? name fields = none ↔ name ∉ fields.map Field.name := by
  induction fields with
  | nil => simp [lastValue?]
  | cons f later ih =>
      by_cases hname : f.name = name
      · simp [lastValue?, hname]
      · simp [lastValue?, hname, ih, Ne.symm hname]

/-- Where no name is repeated, the last value is **the only one**. -/
theorem lastValue?_eq_some {fields : List Field} (h : (fields.map Field.name).Nodup)
    {value : Bytes} : lastValue? name fields = some value ↔ ⟨name, value⟩ ∈ fields := by
  induction fields with
  | nil => simp [lastValue?]
  | cons f later ih =>
      obtain ⟨hnew, hlater⟩ := List.nodup_cons.mp h
      rw [lastValue?]
      by_cases hname : f.name = name
      · have hnone : lastValue? name later = none := lastValue?_eq_none.mpr (hname ▸ hnew)
        have hnot : (⟨name, value⟩ : Field) ∉ later := fun hmem =>
          hnew (hname ▸ List.mem_map_of_mem hmem)
        obtain ⟨first, text⟩ := f
        obtain rfl : first = name := hname
        simp [hnone, hnot, eq_comm]
      · have hne : (⟨name, value⟩ : Field) ≠ f := fun heq => hname (heq ▸ rfl)
        simp [hname, hne, ih hlater]

/-! ### Header lines that can be replaced -/

/-- The header lines without those that **another line of that name** comes behind. -/
def keepLast (name : Bytes) : List Line → List Line
  | [] => []
  | l :: later =>
    if l.said.name = name ∧ name ∈ later.map fun l => l.said.name then keepLast name later
    else l :: keepLast name later

theorem keepLast_sublist (name : Bytes) (lines : List Line) :
    (keepLast name lines).Sublist lines := by
  induction lines with
  | nil => exact List.Sublist.slnil
  | cons l later ih =>
      rw [keepLast]
      split
      · exact ih.cons l
      · exact ih.cons_cons l

/-- Header lines that can stand **in the place of others**: they are not more, they have no other
names, and every name has the same value in the end. -/
structure Replaces (lines lines' : List Line) : Prop where
  length : lines'.length ≤ lines.length
  names : ∀ l' ∈ lines', ∃ l ∈ lines, l'.said.name = l.said.name
  last : ∀ name, lastValue? name (lines'.map Line.said) = lastValue? name (lines.map Line.said)

/-- Lines in **another order**, if no name is repeated. -/
theorem Replaces.of_perm {lines lines' : List Line}
    (h : (lines'.map Line.said).Perm (lines.map Line.said))
    (honce : ((lines.map Line.said).map Field.name).Nodup) : Replaces lines lines' where
  length := by simpa using h.length_eq.le
  names l' hl' := by
    obtain ⟨l, hl, hsaid⟩ := List.mem_map.mp (h.subset (List.mem_map_of_mem hl'))
    exact ⟨l, hl, congrArg Field.name hsaid.symm⟩
  last name := by
    have honce' := ((h.map Field.name).nodup_iff).mpr honce
    refine Option.ext fun value => ?_
    rw [lastValue?_eq_some honce', lastValue?_eq_some honce, h.mem_iff]

/-- Lines of which **only the last of a name** is kept. -/
theorem Replaces.of_keepLast (name : Bytes) (lines : List Line) :
    Replaces lines (keepLast name lines) where
  length := (keepLast_sublist name lines).length_le
  names l' hl' := ⟨l', (keepLast_sublist name lines).subset hl', rfl⟩
  last other := by
    induction lines with
    | nil => rfl
    | cons l later ih =>
        rw [keepLast]
        split
        · rename_i hdrop
          rw [ih, List.map_cons, lastValue?]
          by_cases hother : l.said.name = other
          · -- the line that is dropped has a later one of its name
            have hlater : lastValue? other (later.map Line.said) ≠ none := fun hnone => by
              refine lastValue?_eq_none.mp hnone ?_
              rw [List.map_map, ← hother, hdrop.1]
              exact hdrop.2
            obtain ⟨value, hvalue⟩ := Option.ne_none_iff_exists'.mp hlater
            rw [hvalue, Option.some_or]
          · rw [if_neg hother, Option.or_none]
        · rw [List.map_cons, List.map_cons, lastValue?, lastValue?, ih]

/-! ### Heads that say the same -/

namespace Layout

/-- A head in which **no header name is repeated**, in whatever case. -/
def SaysOnce (s : Layout) : Prop := ((s.lines.map Line.said).map Field.name).Nodup

/-- A head that **says the same as another**: it has the same start line, and header lines that say
the same in some order. The two may differ in the case of header names, in the order of header
lines, in the blanks around values and in every line end. -/
structure Says (s t : Layout) : Prop where
  start : t.start = s.start
  lines : (t.lines.map Line.said).Perm (s.lines.map Line.said)

/-- The head with **only the last line of a name**. -/
def keepLast (s : Layout) (name : Bytes) : Layout := { s with lines := Http.keepLast name s.lines }

end Layout

end Http

namespace Handshake

open Http

variable {rest rest' : Bytes}

/-! ### Collecting -/

/-- Header lines are collected exactly if **all their names are names**; each is set in turn. -/
theorem collectFields_eq_ok {fields : List Field} {headers : Headers} :
    collectFields fields = .ok headers ↔ (∀ f ∈ fields, Headers.isName f.name = true) ∧
      headers = fields.foldl Headers.put Headers.empty := by
  unfold collectFields
  generalize Headers.empty = start
  induction fields generalizing start with
  | nil => exact ⟨fun h => ⟨nofun, (Except.ok.inj h).symm⟩, fun h => congrArg _ h.2.symm⟩
  | cons f later ih =>
      rw [List.foldlM_cons]
      by_cases hname : Headers.isName f.name = true
      · rw [if_pos hname, List.forall_mem_cons, and_iff_right hname]
        exact ih (start.put f)
      · rw [if_neg hname]
        exact ⟨nofun, fun h => absurd (List.forall_mem_cons.mp h.1).1 hname⟩

/-- A header that is looked up has **the last value of its name**. -/
theorem get?_of_collectFields {lines : List Line} {headers : Headers}
    (h : collectFields (lines.map Line.read) = .ok headers) (name : Bytes) :
    headers.get? name = lastValue? name (lines.map Line.said) := by
  obtain ⟨-, rfl⟩ := collectFields_eq_ok.mp h
  suffices hall : ∀ start : Headers, ((lines.map Line.read).foldl Headers.put start).get? name =
      (lastValue? name (lines.map Line.said)).or (start.get? name) from
    (hall Headers.empty).trans (Option.or_none ..)
  clear h
  induction lines with
  | nil => exact fun start => rfl
  | cons l later ih =>
      intro start
      rw [List.map_cons, List.foldl_cons, ih, Headers.put, Headers.get?_insert, List.map_cons,
        lastValue?, Option.or_assoc]
      congr 1
      by_cases hname : Bytes.lower l.name = name <;> simp [Line.read, Line.said, hname]

/-- The header lines of a head **that is accepted**, and the headers that they come to. -/
def Collects (lines : List Line) (headers : Headers) : Prop :=
  lines.length ≤ maxFields ∧ collectFields (lines.map Line.read) = .ok headers

/-- Lines in the place of others come to **headers that agree** with theirs. -/
theorem Collects.replace {lines lines' : List Line} {headers : Headers}
    (h : Collects lines headers) (hreplaces : Replaces lines lines') :
    ∃ headers', Collects lines' headers' ∧ headers.Agree headers' := by
  obtain ⟨hnames, -⟩ := collectFields_eq_ok.mp h.2
  have hnames' : ∀ f ∈ lines'.map Line.read, Headers.isName f.name = true := by
    intro f hf
    obtain ⟨l', hl', rfl⟩ := List.mem_map.mp hf
    obtain ⟨l, hl, hsame⟩ := hreplaces.names l' hl'
    exact (Headers.isName_of_lower_eq hsame).trans (hnames _ (List.mem_map_of_mem hl))
  have hcollect := collectFields_eq_ok.mpr ⟨hnames', rfl⟩
  refine ⟨_, ⟨hreplaces.length.trans h.1, hcollect⟩, fun name => ?_⟩
  rw [get?_of_collectFields h.2, get?_of_collectFields hcollect, hreplaces.last]

theorem Request.parse_layout {s : Layout} {r : Request} :
    Request.parse (s.bytes ++ rest) = .ok r ↔
      RequestLine s.start r.method r.target r.version ∧ Collects s.lines r.headers := by
  constructor
  · intro h
    unfold Request.parse at h
    split at h
    · cases h
    · cases h
    · rename_i parts left hscan
      obtain ⟨hline, hroom, hfields, -⟩ := s.parseRequestHead_iff.mp hscan
      split at h
      · rename_i headers hheaders
        obtain rfl := Except.ok.inj h
        exact ⟨hline, hroom, hfields ▸ hheaders⟩
      · cases h
  · rintro ⟨hline, hroom, hheaders⟩
    have hscan : parseRequestHead (s.bytes ++ rest) =
        .found ⟨r.method, r.target, r.version, s.lines.map Line.read⟩ rest :=
      s.parseRequestHead_iff.mpr ⟨hline, hroom, rfl, rfl⟩
    rw [Request.parse, hscan]
    simp only [hheaders]

theorem Response.parse_layout {s : Layout} {r : Response} :
    Response.parse (s.bytes ++ rest) = .ok r ↔
      (∃ version, StatusLine s.start version r.status r.reason) ∧ 100 ≤ r.status ∧
        Collects s.lines r.headers := by
  constructor
  · intro h
    unfold Response.parse at h
    split at h
    · cases h
    · cases h
    · rename_i parts left hscan
      obtain ⟨hline, hroom, hfields, -⟩ := s.parseResponseHead_iff.mp hscan
      split at h
      · cases h
      · rename_i hlow
        split at h
        · rename_i headers hheaders
          obtain rfl := Except.ok.inj h
          exact ⟨⟨parts.version, hline⟩, Nat.le_of_not_lt hlow, hroom, hfields ▸ hheaders⟩
        · cases h
  · rintro ⟨⟨version, hline⟩, hlow, hroom, hheaders⟩
    have hscan : parseResponseHead (s.bytes ++ rest) =
        .found ⟨version, r.status, r.reason, s.lines.map Line.read⟩ rest :=
      s.parseResponseHead_iff.mpr ⟨hline, hroom, rfl, rfl⟩
    rw [Response.parse, hscan]
    simp only [Nat.not_lt.mpr hlow, if_false, hheaders]

/-! ### Judging -/

section Agree

variable {h h' : Headers}

theorem required_congr (hagree : h.Agree h') (kind : HeaderKind) :
    required h kind = required h' kind := by
  rw [required, required, hagree]

theorem headerText?_congr (hagree : h.Agree h') (kind : HeaderKind) :
    headerText? h kind = headerText? h' kind := by
  rw [headerText?, headerText?, hagree]

end Agree

/-- A request is judged by its start line and **the headers that are looked up**. -/
theorem Request.validate_congr {r r' : Request} (hmethod : r.method = r'.method)
    (hversion : r.version = r'.version) (hagree : r.headers.Agree r'.headers) :
    r.validate = r'.validate := by
  simp only [Request.validate, hmethod, hversion, required_congr hagree]

/-- So is the response to it. -/
theorem Response.accepting_congr {r r' : Request} (hagree : r.headers.Agree r'.headers)
    (supported : List String) : accepting r supported = accepting r' supported := by
  simp only [accepting, selectProtocol, Request.key?, Request.protocols, headerText?_congr hagree]

/-- A response is judged by its status and **the headers that are looked up**. -/
theorem Response.validate_congr {r r' : Response} (hstatus : r.status = r'.status)
    (hagree : r.headers.Agree r'.headers) (request : Request) :
    r.validate request = r'.validate request := by
  simp only [Response.validate, Response.protocol?, hstatus, required_congr hagree,
    headerText?_congr hagree]

/-- A head of which the same is made **as of another** that is accepted. -/
structure JudgedAs (head head' : Bytes) : Prop where
  /-- As a request it is accepted too; the verdict is the same, and so is the response to it,
  whatever subprotocols are supported. -/
  request : ∀ r, Request.parse head = .ok r → ∃ r', Request.parse head' = .ok r' ∧
    r.validate = r'.validate ∧
    ∀ supported, Response.accepting r supported = Response.accepting r' supported
  /-- As a response it is accepted too, and the verdict is the same for every request. -/
  response : ∀ r, Response.parse head = .ok r → ∃ r', Response.parse head' = .ok r' ∧
    ∀ request, r.validate request = r'.validate request

/-- Header lines can be replaced by others with **the same last values**, and line ends by any. -/
theorem judgedAs_of_replaces {s t : Layout} (hstart : t.start = s.start)
    (hlines : Replaces s.lines t.lines) : JudgedAs (s.bytes ++ rest) (t.bytes ++ rest') where
  request r hr := by
    obtain ⟨hline, hcollects⟩ := Request.parse_layout.mp hr
    obtain ⟨headers, hcollects', hagree⟩ := hcollects.replace hlines
    exact ⟨⟨r.method, r.target, r.version, headers⟩,
      Request.parse_layout.mpr ⟨hstart ▸ hline, hcollects'⟩,
      Request.validate_congr rfl rfl hagree, Response.accepting_congr hagree⟩
  response r hr := by
    obtain ⟨hline, hlow, hcollects⟩ := Response.parse_layout.mp hr
    obtain ⟨headers, hcollects', hagree⟩ := hcollects.replace hlines
    exact ⟨⟨r.status, r.reason, headers⟩,
      Response.parse_layout.mpr ⟨hstart ▸ hline, hlow, hcollects'⟩,
      Response.validate_congr rfl hagree⟩

/-- **Heads that say the same are judged the same.** Every head that is accepted has a layout, and
of two layouts that say the same, with no name repeated, the same is made, whatever stands behind
them. Of lines with one name only the last matters: without the others, the same is made of the
head. -/
theorem judgedAs_of_says :
    (∀ head r, Request.parse head = .ok r → ∃ (s : Layout) (rest : Bytes), head = s.bytes ++ rest) ∧
    (∀ head r, Response.parse head = .ok r → ∃ (s : Layout) (rest : Bytes),
      head = s.bytes ++ rest) ∧
    (∀ (s t : Layout) (rest rest' : Bytes), s.SaysOnce → s.Says t →
      JudgedAs (s.bytes ++ rest) (t.bytes ++ rest')) ∧
    (∀ (s : Layout) (name rest rest' : Bytes),
      JudgedAs (s.bytes ++ rest) ((s.keepLast name).bytes ++ rest')) := by
  refine ⟨fun head r hr => ?_, fun head r hr => ?_, fun s t rest rest' honce hsays => ?_,
    fun s name rest rest' => ?_⟩
  · cases hr ▸ Request.readBy head with
    | found _ hscan => exact (Layout.exists_of_parseRequestHead hscan).imp fun _ h => ⟨_, h⟩
  · cases hr ▸ Response.readBy head with
    | found _ hscan => exact (Layout.exists_of_parseResponseHead hscan).imp fun _ h => ⟨_, h⟩
  · exact judgedAs_of_replaces hsays.start (.of_perm hsays.lines honce)
  · exact judgedAs_of_replaces rfl (.of_keepLast name s.lines)

/-- A request as most clients write it. -/
def plainHead : Layout where
  lead := []
  start := Bytes.ascii "GET /chat HTTP/1.1"
  startEnd := .full
  lines := [⟨Bytes.ascii "Host", Bytes.ascii " h", .full, by decide, by decide, by decide⟩,
    ⟨Bytes.ascii "Upgrade", Bytes.ascii " websocket", .full, by decide, by decide, by decide⟩,
    ⟨Bytes.ascii "Connection", Bytes.ascii " Upgrade", .full, by decide, by decide, by decide⟩,
    ⟨Bytes.ascii "Sec-WebSocket-Key", Bytes.ascii " AAAAAAAAAAAAAAAAAAAAAA==", .full,
      by decide, by decide, by decide⟩,
    ⟨Bytes.ascii "Sec-WebSocket-Protocol", Bytes.ascii " soap, chat", .full, by decide, by decide,
      by decide⟩,
    ⟨Bytes.ascii "Sec-WebSocket-Version", Bytes.ascii " 13", .full, by decide, by decide,
      by decide⟩]
  lastEnd := .full
  lead_empty := .nil
  start_unbroken := by decide
  start_ne := by decide

/-- The same request in other letters, another order and other blanks, with bare line ends. -/
def oddHead : Layout where
  lead := [lineFeed]
  start := Bytes.ascii "GET /chat HTTP/1.1"
  startEnd := .bare
  lines := [⟨Bytes.ascii "CONNECTION", Bytes.ascii "Upgrade\t ", .bare, by decide, by decide,
      by decide⟩,
    ⟨Bytes.ascii "sec-websocket-version", Bytes.ascii "13", .full, by decide, by decide, by decide⟩,
    ⟨Bytes.ascii "SEC-WebSocket-Protocol", Bytes.ascii "soap, chat", .bare, by decide, by decide,
      by decide⟩,
    ⟨Bytes.ascii "hOST", Bytes.ascii "\th", .bare, by decide, by decide, by decide⟩,
    ⟨Bytes.ascii "Sec-Websocket-KEY", Bytes.ascii "\t\tAAAAAAAAAAAAAAAAAAAAAA== ", .bare,
      by decide, by decide, by decide⟩,
    ⟨Bytes.ascii "upgrade", Bytes.ascii "   websocket", .bare, by decide, by decide, by decide⟩]
  lastEnd := .bare
  lead_empty := EmptyLines.nil.feed
  start_unbroken := by decide
  start_ne := by decide

theorem accepted_plainHead :
    (Request.parse (plainHead.bytes ++ [])).map (fun r =>
      (r.validate, (Response.accepting r ["chat"]).map Response.protocol?)) =
      .ok (.ok (), .ok (some (Bytes.ascii "chat"))) := by
  decide +kernel

/-- Both are valid requests, and a server that speaks `chat` **gives both the same response**. -/
theorem judgedAs_oddHead :
    plainHead.SaysOnce ∧ plainHead.Says oddHead ∧
      ∃ r r' response, Request.parse (plainHead.bytes ++ []) = .ok r ∧
        Request.parse (oddHead.bytes ++ []) = .ok r' ∧ r.validate = .ok () ∧ r'.validate = .ok () ∧
        Response.accepting r ["chat"] = .ok response ∧
        Response.accepting r' ["chat"] = .ok response ∧
        response.protocol? = some (Bytes.ascii "chat") := by
  have honce : plainHead.SaysOnce := by unfold Layout.SaysOnce; decide
  have hsays : plainHead.Says oddHead := ⟨rfl, by decide⟩
  have hjudged := judgedAs_of_says.2.2.1 plainHead oddHead [] [] honce hsays
  have haccepted := accepted_plainHead
  cases hparse : Request.parse (plainHead.bytes ++ []) with
  | error failure => rw [hparse] at haccepted; cases haccepted
  | ok r =>
      rw [hparse] at haccepted
      obtain ⟨hvalid, hprotocol⟩ := Prod.mk.inj (Except.ok.inj haccepted)
      obtain ⟨r', hparse', hverdict, hresponse⟩ := hjudged.request r hparse
      cases haccept : Response.accepting r ["chat"] with
      | error failure => rw [haccept] at hprotocol; cases hprotocol
      | ok response =>
          rw [haccept] at hprotocol
          exact ⟨honce, hsays, r, r', response, rfl, hparse', hvalid, hverdict ▸ hvalid, haccept,
            hresponse ["chat"] ▸ haccept, Except.ok.inj hprotocol⟩

/-- Of two accept values in a response **the second is judged**. -/
example : (Response.parse (Bytes.ascii "HTTP/1.1 101 x\nSec-WebSocket-Accept: bogus\r\n" ++
      Bytes.ascii "SEC-WEBSOCKET-ACCEPT:\tright \n\n")).toOption.map (fun r => r.headers.fields) =
    some [⟨HeaderKind.secWebSocketAccept.name, Bytes.ascii "right"⟩] := by
  decide +kernel

end Handshake

end WebSocket
