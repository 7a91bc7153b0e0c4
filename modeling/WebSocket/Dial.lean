import WebSocket.Connection.Schedule
import WebSocket.Uri.Percent
import WebSocket.Uri.Reference

/-!
# Dialling an address

A dialler knows an address and everything that the request is to hold besides: query parameters,
credentials, cookies and an origin. It checks the address, works out whom to call and what to ask
for, and hands both to the network. If the network reaches the host, a client's handshake follows.

Parameters are a map: each name has one value. In the request they follow the query of the
address, in ascending order of their names, so that the request does not depend on the order in
which they were given.
-/

namespace WebSocket

/-- A client's **way to a server**. -/
structure Dialler where
  address : Uri
  options : Options := {}
  /-- The query parameters: one value for each name, in no particular order. -/
  parameters : List (String × String) := []
  authorization : Option String := none
  cookies : Option (List String) := none
  origin : Option String := none

/-- **Whom to call and what to ask for**. -/
structure Dial where
  /-- The host and the port to call. -/
  host : Bytes
  port : Nat
  /-- The host header. -/
  hostHeader : Bytes
  target : Bytes
  headers : List (String × String)
  deriving Repr

namespace Dialler

/-! ### What the request holds -/

/-- Gives a parameter its value, in the place of an earlier one. -/
def addParameter (d : Dialler) (name value : String) : Dialler :=
  { d with parameters := d.parameters.filter (fun p => p.1 != name) ++ [(name, value)] }

/-- Gives all parameters anew; of two with one name the later counts. -/
def withParameters (d : Dialler) (parameters : List (String × String)) : Dialler :=
  parameters.foldl (fun d (name, value) => d.addParameter name value) { d with parameters := [] }

/-- Adds a cookie behind the others. -/
def addCookie (d : Dialler) (cookie : String) : Dialler :=
  { d with cookies := some ((d.cookies.getD []) ++ [cookie]) }

/-- The order of two byte strings. -/
def bytesLe : Bytes → Bytes → Bool
  | [], _ => true
  | _ :: _, [] => false
  | a :: as, b :: bs => if a = b then bytesLe as bs else decide (a < b)

/-- One parameter as it is written: name and value, each **percent encoded**. -/
def writtenParameter (name value : Bytes) : Bytes :=
  Percent.encode name ++ 0x3D :: Percent.encode value

/-- The parameters as bytes, in ascending order of their names. -/
def sortedParameters (d : Dialler) : List (Bytes × Bytes) :=
  (d.parameters.map fun (name, value) => (Utf8.encode name, Utf8.encode value)).mergeSort
    fun p q => bytesLe p.1 q.1

/-- The **request target**: the path, the query of the address as it is, and the parameters. -/
def target (d : Dialler) : Bytes :=
  let path := if d.address.path.isEmpty then [Uri.slash] else d.address.path
  let ampersand : UInt8 := 0x26
  let written := d.sortedParameters.map fun (name, value) => writtenParameter name value
  let parts := d.address.query.toList ++ written
  if parts.isEmpty then path else path ++ Uri.question :: List.intercalate [ampersand] parts

/-- The headers that go beyond those of every handshake. -/
def headers (d : Dialler) : List (String × String) :=
  let line (kind : Handshake.HeaderKind) (value : Option String) :=
    value.toList.map fun v => (kind.text, v)
  line .authorization d.authorization ++ line .cookie (d.cookies.map ("; ".intercalate ·)) ++
    line .origin d.origin

/-! ### Checking the address -/

/-- The flaw of a scheme that is not the one for an unencrypted connection. -/
def schemeFlaw? (scheme : Option Bytes) : Option AddressFlaw :=
  match scheme with
  | none => some .missingScheme
  | some scheme =>
    if scheme = Bytes.ascii "ws" then none
    else if scheme = Bytes.ascii "wss" then some .encryptedScheme
    else if scheme = Bytes.ascii "http" then some .httpScheme
    else if scheme = Bytes.ascii "https" then some .httpsScheme
    else some .otherScheme

/-- The port that is called when the address names none. -/
def defaultPort : Nat := 80

/-- **Works out the call**, or tells what is wrong with the address. -/
def dial (d : Dialler) : Except ConnectionError Dial :=
  match schemeFlaw? d.address.scheme with
  | some flaw => .error (.invalidAddress flaw)
  | none =>
    match d.address.host? with
    | none => .error (.invalidAddress .missingHost)
    | some host =>
      let port := d.address.port?
      let hostHeader := match port with
        | some port => host ++ Http.colon :: Bytes.ascii (toString port)
        | none => host
      .ok ⟨host, port.getD defaultPort, hostHeader, d.target, d.headers⟩

/-- What the **network** says about a call: the transport to the host, or why there is none. -/
abbrev Network := Bytes → Nat → Except String Transport

/-- A network that reaches nobody. -/
def noNetwork (reason : String) : Network := fun _ _ => .error reason

/-- Calls the host. The connection that results is about to run a client's handshake. -/
def connect (d : Dialler) (network : Network) (keys : Nat → Mask) (nonce : Bytes) :
    Except ConnectionError (Connection × Operation) :=
  match d.dial with
  | .error e => .error e
  | .ok call =>
    match network call.host call.port with
    | .error reason => .error (.unreachable reason)
    | .ok transport =>
      .ok
        ({ Connection.new .client d.options keys with transport := transport },
          .connect (Bytes.asciiText call.hostHeader) ((Utf8.text? call.target).getD "")
            call.headers nonce)

end Dialler

end WebSocket
