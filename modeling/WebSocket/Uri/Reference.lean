import WebSocket.Http.Chars
import WebSocket.Utf8

/-!
# URI references

An address is a scheme, an authority, a path and a query. A reference with no scheme is a path, a
star, or an authority that stands alone. The authority may begin with user information, which is
not part of the host, and may end with a port. A fragment is dropped.

Which characters may stand where is decided part by part. An authority is strict about brackets,
colons and percent signs, while a path and a query admit nearly everything that is printable.
-/

namespace WebSocket

/-- A **URI reference**. -/
structure Uri where
  scheme : Option Bytes
  /-- User information, host and port; empty when there is no authority. -/
  authority : Bytes
  path : Bytes
  query : Option Bytes
  deriving DecidableEq, Repr, Inhabited

namespace Uri

def slash : UInt8 := 0x2F
def question : UInt8 := 0x3F
def hash : UInt8 := 0x23
def at_ : UInt8 := 0x40
def percent : UInt8 := 0x25
def openBracket : UInt8 := 0x5B
def closeBracket : UInt8 := 0x5D
def star : UInt8 := 0x2A

/-- The longest reference that is read. -/
def maxLength : Nat := 65534

/-- The longest scheme. -/
def maxScheme : Nat := 64

/-- The most colons between two brackets, at signs or ends of an authority. -/
def maxColons : Nat := 8

/-! ### Classes of characters -/

/-- The marks that an authority may hold besides letters and digits. -/
def authorityMarks : Bytes := Bytes.ascii "!#$&'()*+,-./:;=?@[]_~"

def isAuthorityChar (b : UInt8) : Bool :=
  Http.isLetter b || Http.isDigit b || authorityMarks.contains b

/-- The marks that a scheme may hold besides letters and digits. -/
def schemeMarks : Bytes := Bytes.ascii "+-.~"

def isSchemeChar (b : UInt8) : Bool :=
  Http.isLetter b || Http.isDigit b || schemeMarks.contains b

/-- The bytes of a path: no blank, no control character, no angle bracket, no backquote, and
neither of the two marks that end a path. -/
def isPathChar (b : UInt8) : Bool :=
  b == 0x21 || b == 0x22 || (0x24 ≤ b && b ≤ 0x3B) || b == 0x3D || (0x40 ≤ b && b ≤ 0x5F) ||
    (0x61 ≤ b && b ≠ 0x7F)

/-- The bytes of a query: no blank, no control character, no double quote, no angle bracket, and
not the mark that ends a query. -/
def isQueryChar (b : UInt8) : Bool :=
  b == 0x21 || (0x24 ≤ b && b ≤ 0x3B) || b == 0x3D || (0x3F ≤ b && b ≠ 0x7F)

/-! ### Schemes -/

/-- What stands in front of an authority. -/
def schemeEnd : Bytes := Bytes.ascii "://"

/-- The outcome of looking for a **scheme**. -/
inductive SchemeScan where
  | absent
  | found (scheme rest : Bytes)
  | tooLong
  deriving DecidableEq, Repr

/-- The front part of a byte string, if the byte string begins with it in any case of its letters;
what is behind it is given back. -/
def afterIgnoringCase? (front b : Bytes) : Option Bytes :=
  match Bytes.split? front.length b with
  | some (head, rest) => if Bytes.eqIgnoringCase head front then some rest else none
  | none => none

/-- Looks for a scheme. The two schemes of HTTP are known in any case and read in lower case; any
other keeps its case. -/
def parseScheme (b : Bytes) : SchemeScan :=
  match afterIgnoringCase? (Bytes.ascii "http://") b with
  | some rest => .found (Bytes.ascii "http") rest
  | none =>
    match afterIgnoringCase? (Bytes.ascii "https://") b with
    | some rest => .found (Bytes.ascii "https") rest
    | none =>
      let scheme := b.takeWhile isSchemeChar
      let rest := b.dropWhile isSchemeChar
      if 3 < b.length ∧ schemeEnd.isPrefixOf rest then
        if maxScheme < scheme.length then .tooLong else .found scheme (rest.drop 3)
      else .absent

/-! ### Authorities -/

/-- What has been seen of an **authority**. -/
structure AuthorityScan where
  colons : Nat := 0
  opened : Bool := false
  closed : Bool := false
  percent : Bool := false
  /-- The last character is an at sign. -/
  atEnd : Bool := false
  deriving DecidableEq, Repr, Inhabited

/-- Looks at one character of an authority; nothing when it may not stand there. An at sign ends
the user information, whose colons and percent signs then do not count; a closing bracket ends an
address of which the same is true. -/
def AuthorityScan.next? (s : AuthorityScan) (b : UInt8) : Option AuthorityScan :=
  let s := { s with atEnd := b == at_ }
  if b = Http.colon then
    if maxColons ≤ s.colons then none else some { s with colons := s.colons + 1 }
  else if b = openBracket then
    if s.percent || s.opened then none else some { s with opened := true }
  else if b = closeBracket then
    if !s.opened || s.closed then none
    else some { s with closed := true, colons := 0, percent := false }
  else if b = at_ then some { s with colons := 0, percent := false }
  else if b = Uri.percent then some { s with percent := true }
  else if isAuthorityChar b then some s
  else none

/-- Whether an authority may end here. -/
def AuthorityScan.mayEnd (s : AuthorityScan) : Bool :=
  s.opened == s.closed && decide (s.colons ≤ 1) && !s.atEnd && !s.percent

/-- Whether a byte ends an authority. -/
def endsAuthority (b : UInt8) : Bool := b == slash || b == question || b == hash

/-- Splits a byte string behind its **authority**; nothing when that is malformed. -/
def parseAuthority (b : Bytes) : Option (Bytes × Bytes) := do
  let authority := b.takeWhile fun byte => !endsAuthority byte
  let scan ← authority.foldlM AuthorityScan.next? {}
  if scan.mayEnd then some (authority, b.dropWhile fun byte => !endsAuthority byte) else none

/-! ### Paths and queries -/

/-- Reads a path and a query, and drops a fragment; nothing when a character may not stand there
or the whole is not UTF-8. -/
def parsePathAndQuery (b : Bytes) : Option (Bytes × Option Bytes) :=
  let whole := b.takeWhile fun byte => byte != hash
  let path := whole.takeWhile fun byte => byte != question
  let query := match whole.dropWhile fun byte => byte != question with
    | [] => none
    | _ :: query => some query
  if path.all isPathChar && (query.getD []).all isQueryChar && Utf8.isValid whole then
    some (path, query)
  else none

/-! ### References -/

/-- A reference that is an authority and nothing else. -/
def ofAuthority? (b : Bytes) : Option Uri :=
  match parseAuthority b with
  | some (authority, []) => some ⟨none, authority, [], none⟩
  | _ => none

/-- Reads a **reference**. -/
def parse? (b : Bytes) : Option Uri :=
  if maxLength < b.length then none
  else match b with
  | [] => none
  | [byte] => if byte = slash ∨ byte = star then some ⟨none, [], [byte], none⟩ else ofAuthority? b
  | first :: _ =>
    if first = slash then
      (parsePathAndQuery b).map fun (path, query) => ⟨none, [], path, query⟩
    else match parseScheme b with
      | .tooLong => none
      | .absent => ofAuthority? b
      | .found scheme rest => do
        let (authority, rest) ← parseAuthority rest
        if authority.isEmpty then none
        else
          let (path, query) ← parsePathAndQuery rest
          some ⟨some scheme, authority, path, query⟩

/-- Everything behind the last occurrence of a byte, or the whole when there is none. -/
def behindLast (byte : UInt8) (b : Bytes) : Bytes :=
  (b.reverse.takeWhile fun c => c != byte).reverse

/-- The **host**: an address in brackets with its brackets, or what stands before a port. -/
def host? (u : Uri) : Option Bytes :=
  if u.authority.isEmpty then none
  else
    let host := behindLast at_ u.authority
    if host.head? = some openBracket then
      some (host.takeWhile (fun byte => byte != closeBracket) ++ [closeBracket])
    else some (host.takeWhile fun byte => byte != Http.colon)

/-- The number of a **port**, which may have a plus sign in front. -/
def portOfDigits? (b : Bytes) : Option Nat :=
  let digits := match b with
    | first :: more => if first = 0x2B then more else b
    | [] => []
  if digits.isEmpty || !digits.all Http.isDigit then none
  else
    let port := digits.foldl (fun n d => 10 * n + (d.toNat - 0x30)) 0
    if port < 65536 then some port else none

/-- The port, when the authority ends with one. -/
def port? (u : Uri) : Option Nat :=
  if u.authority.contains Http.colon then portOfDigits? (behindLast Http.colon u.authority)
  else none

end Uri

end WebSocket
