import XmlGrove.Encoding.Charset
import XmlGrove.Loading.MediaType
import XmlGrove.Loading.Services
import XmlGrove.Loading.Url

/-!
# Responses

What servers answer when they are asked for a document. Redirections are
followed; any other answer than a successful one is a fault.
-/

namespace XmlGrove.Loading

open Encoding (Bytes)

structure Response where
  status : Nat := 200
  headers : List (String × String) := []
  body : Bytes := []
  deriving Repr, DecidableEq

structure Web where
  responses : List (String × Response) := []
  deriving Repr, DecidableEq

namespace Response

/-- The value of a header; the case of its name does not matter. Several values are
joined. -/
def header? (response : Response) (name : String) : Option String :=
  let values := response.headers.filter fun (present, _) => present.toLower == name
  if values.isEmpty then none else some (", ".intercalate (values.map Prod.snd))

def isSendable (response : Response) : Bool :=
  response.headers.all fun (name, content) =>
    (name ++ content).toList.all fun character => character.toNat < 0x80

def isSuccess (response : Response) : Bool :=
  200 ≤ response.status && response.status < 300

def redirectingStatuses : List Nat := [301, 302, 303, 307, 308]

def redirection? (response : Response) : Option String :=
  if redirectingStatuses.contains response.status then response.header? "location" else none

def contentType? (response : Response) : Option String :=
  response.header? "content-type"

def charset? (response : Response) : Except Fault (Option String) :=
  match response.contentType? with
  | none => .ok none
  | some mediaType => MediaType.charset? mediaType

def fetched (response : Response) : Fetched :=
  { body := response.body, contentType := response.contentType?, charset := response.charset? }

end Response

namespace Web

def redirectionLimit : Nat := 20

/-- The address that a response from another address refers to. One without a host is on
the same one. A fragment applies to all further addresses until there is another. -/
def redirected (url : Url) (location : String) : Except Fault Url := do
  let target ← (Url.read location).mapError fun _ => .invalidRedirection
  let target ←
    if target.scheme != "" && target.host = "" then
      target.placed url.host (target.fragment.map String.toList)
    else pure target
  let target ← if target.isAbsolute then pure target else Url.read (url.join target)
  match url.fragment.getD "", target.fragment.getD "" with
  | "", _ => return target
  | fragment, "" => target.placed target.host (some (Url.rewrittenFragment fragment))
  | _, _ => return target

def follow (web : Web) (bound : Nat) (url : Url) : Except Fault Response := do
  match web.responses.lookup url.display with
  | none => throw .noConnection
  | some response =>
    if !response.isSendable then throw .unsendable
    match response.redirection? with
    | none => if response.isSuccess then return response else throw .serverStatus
    | some location =>
      let target ← redirected url location
      match bound with
      | 0 => throw .endlessRedirection
      | bound + 1 => web.follow bound target

def fetch (web : Web) (address : String) : Except Fault Response := do
  let url ← Url.read address
  if url.isAbsolute then web.follow redirectionLimit url else throw .noConnection

def services (web : Web) : Services :=
  { fetch := fun address => (web.fetch address).map Response.fetched }

end Web

end XmlGrove.Loading
