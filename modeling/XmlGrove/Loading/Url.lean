import XmlGrove.Fault
import XmlGrove.Loading.Host
import XmlGrove.Text.Blank

/-!
# Addresses of servers

How addresses are read and written, and how a reference is resolved where an
address is known already.
-/

namespace XmlGrove.Loading

/-- The address of something on a server, or a reference, which lacks some of the
parts. Each part is in its normal form. -/
structure Url where
  scheme : String
  userInfo : String := ""
  host : String
  port : Option Int := none
  path : String
  query : Option String := none
  fragment : Option String := none
  deriving Repr, DecidableEq

namespace Url

def cutOff (separator : Char) (text : List Char) : List Char × Option (List Char) :=
  match Text.cut? [separator] text with
  | none => (text, none)
  | some (before, after) => (before, some after)

/-! ## Characters -/

def isVisible (character : Char) : Bool :=
  0x20 < character.toNat && character.toNat < 0x7F

def isControl (character : Char) : Bool :=
  character.toNat < 0x20 || character.toNat = 0x7F

def isPlainInQuery (character : Char) : Bool :=
  isVisible character && !"\x22#<>".toList.contains character

def isPlainInFragment (character : Char) : Bool :=
  isVisible character && !"\x22<>`".toList.contains character

def isPlainInUrlPath (character : Char) : Bool :=
  isPlainInQuery character && !"?`\x7b\x7d".toList.contains character

def isPlainInUserInfo (character : Char) : Bool :=
  isPlainInUrlPath character && !"/;=@[\\]^|".toList.contains character

/-! ## Parts -/

structure Authority where
  userInfo : List Char := []
  host : List Char := []
  port : List Char := []
  deriving Repr, DecidableEq

def Authority.ofText (text : List Char) : Authority :=
  let userInfo := Text.beforeLast? '@' text
  let rest := match userInfo with
    | none => text
    | some user => text.drop (user.length + 1)
  let host := match rest, Text.beforeLast? ']' rest with
    | '[' :: _, some bracketed => bracketed ++ [']']
    | _, _ => rest.takeWhile (· != ':')
  let port := match rest.drop host.length with
    | ':' :: port => port
    | port => port
  { userInfo := userInfo.getD [], host := host, port := port }

def digitsValue? (text : List Char) : Option Nat :=
  let groups := Text.splitAtEach '_' text
  if groups.all fun group => !group.isEmpty && group.all Char.isDigit then
    some (Host.decimalValue groups.flatten)
  else none

def integer? (text : List Char) : Option Int :=
  match Text.trim text with
  | '-' :: digits => (digitsValue? digits).map fun value => -(value : Int)
  | '+' :: digits | digits => (digitsValue? digits).map Int.ofNat

def defaultPorts : List (String × Int) :=
  [("ftp", 21), ("http", 80), ("https", 443), ("ws", 80), ("wss", 443)]

def readPort (scheme : String) (text : List Char) : Except Fault (Option Int) :=
  if text.isEmpty then .ok none
  else
    match integer? text with
    | none => .error .invalidAddress
    | some port => .ok (if defaultPorts.lookup scheme = some port then none else some port)

/-- Leave out the segments of a path that lead to the same or an upper level. The
first argument holds the ones that are left, last one first. -/
def descend (left : List (List Char)) : List (List Char) → List (List Char)
  | [] => left.reverse
  | segment :: rest =>
    if segment = ['.'] then descend left rest
    else if segment = ['.', '.'] then descend (if left = [[]] then left else left.drop 1) rest
    else descend (segment :: left) rest

def normalizePath (path : List Char) : List Char :=
  ['/'].intercalate (descend [] (Text.splitAtEach '/' path))

example : normalizePath "/a/./b/../c/.".toList = "/a/c".toList := by decide +kernel

def isPathFit (hasScheme hasAuthority : Bool) (path : List Char) : Bool :=
  if hasAuthority then path.isEmpty || path.head? = some '/'
  else hasScheme || (!"//".toList.isPrefixOf path && path.head? != some ':')

def lengthLimit : Nat := 65536

def ofParts (scheme : List Char) (authority : Authority) (path : List Char)
    (query fragment : Option (List Char)) : Except Fault Url := do
  let written := scheme ++ authority.userInfo ++ authority.host ++ authority.port ++ path ++
    query.getD [] ++ fragment.getD []
  if written.any isControl then throw .invalidAddress
  let userInfo := percentEncode isPlainInUserInfo authority.userInfo
  match Host.normalized? authority.host with
  | none => throw .invalidAddress
  | some host =>
    let port ← readPort (String.ofList scheme) authority.port
    let hasScheme := !scheme.isEmpty
    let hasAuthority := userInfo != "" || host != "" || port.isSome
    if !isPathFit hasScheme hasAuthority path then throw .invalidAddress
    let path := if hasScheme || hasAuthority then normalizePath path else path
    return {
      scheme := (String.ofList scheme).toLower, userInfo := userInfo, host := host,
      port := port, path := percentEncode isPlainInUrlPath path,
      query := query.map (percentEncode isPlainInQuery),
      fragment := fragment.map (percentEncode isPlainInFragment) }

/-! ## Reading and writing -/

def isScheme (text : List Char) : Bool :=
  text.head?.all Char.isAlpha &&
    text.all fun character => character.isAlphanum || "+-.".toList.contains character

def cutScheme (text : List Char) : List Char × List Char :=
  match Text.cut? [':'] text with
  | some (scheme, rest) => if isScheme scheme then (scheme, rest) else ([], text)
  | none => ([], text)

def cutAuthority (text : List Char) : List Char × List Char :=
  match text with
  | '/' :: '/' :: rest =>
    let authority := rest.takeWhile fun character => !"/?#".toList.contains character
    (authority, rest.drop authority.length)
  | _ => ([], text)

def read (text : String) : Except Fault Url := do
  if lengthLimit < text.length then throw .invalidAddress
  let (scheme, rest) := cutScheme text.toList
  let (authority, rest) := cutAuthority rest
  let (rest, fragment) := cutOff '#' rest
  let (path, query) := cutOff '?' rest
  ofParts scheme (.ofText authority) path query fragment

def authority (url : Url) : String :=
  (if url.userInfo = "" then "" else url.userInfo ++ "@") ++
    (if url.host.contains ':' then "[" ++ url.host ++ "]" else url.host) ++
    ((url.port.map fun port => ":" ++ toString port).getD "")

def display (url : Url) : String :=
  (if url.scheme = "" then "" else url.scheme ++ ":") ++
    (if url.authority = "" then "" else "//" ++ url.authority) ++ url.path ++
    ((url.query.map fun query => "?" ++ query).getD "") ++
    ((url.fragment.map fun fragment => "#" ++ fragment).getD "")

example : ((read "HTTPS://me@X.example:8443/a b/../c?").map display).toOption =
    some "https://me@x.example:8443/c?" := by
  cbv

def isAbsolute (url : Url) : Bool := url.scheme != "" && url.host != ""

def placed (url : Url) (host : String) (fragment : Option (List Char)) : Except Fault Url :=
  let host := if host.contains ':' then "[" ++ host ++ "]" else host
  ofParts url.scheme.toList { Authority.ofText url.authority.toList with host := host.toList }
    url.path.toList (url.query.map String.toList) fragment

/-! ## References -/

def cutParameters (path : List Char) : List Char × List Char :=
  let last := ((Text.splitAtEach '/' path).getLast?).getD []
  let (segment, parameters) := cutOff ';' last
  (path.take (path.length - last.length + segment.length), parameters.getD [])

/-- Resolve the segments of a path that lead to the same or an upper level. The first
argument holds the resolved ones, last one first. -/
def resolveSegments (resolved : List (List Char)) : List (List Char) → List (List Char)
  | [] => resolved.reverse
  | segment :: rest =>
    let next :=
      if segment = ['.'] then resolved
      else if segment = ['.', '.'] then resolved.drop 1
      else segment :: resolved
    let isLast := rest.isEmpty && (segment = ['.'] || segment = ['.', '.'])
    resolveSegments (if isLast then [] :: next else next) rest

def resolvePath (base relative : List Char) : List Char :=
  let segments := Text.splitAtEach '/' relative
  let joined :=
    if relative.head? = some '/' then segments
    else
      let own := Text.splitAtEach '/' base
      let whole := (if own.getLast? = some [] then own else own.dropLast) ++ segments
      whole.take 1 ++ (whole.drop 1).dropLast.filter (!·.isEmpty) ++
        ((whole.drop 1).getLast?).toList
  let resolved := ['/'].intercalate (resolveSegments [] joined)
  if resolved.head? = some '/' then resolved else '/' :: resolved

example : [("/a/b/c", "../d"), ("/a/b", "c/.."), ("", "b"), ("/a/", "b")].map
    (fun (base, relative) => String.ofList (resolvePath base.toList relative.toList)) =
    ["/a/d", "/a/", "/b", "/a/b"] := by
  decide +kernel

def setOff (mark text : String) : String := if text = "" then "" else mark ++ text

def tidyPath (path : String) : String :=
  let (kept, parameters) := cutParameters path.toList
  String.ofList kept ++ setOff ";" (String.ofList parameters)

/-- The text of the address that a reference without scheme denotes where another
address is. Void parts are left out, but a void reference denotes the address as it is. -/
def join (base reference : Url) : String :=
  let query := setOff "?" (reference.query.getD "")
  let fragment := setOff "#" (reference.fragment.getD "")
  if reference.display = "" then base.display
  else if reference.authority != "" then
    base.scheme ++ "://" ++ reference.authority ++ tidyPath reference.path ++ query ++ fragment
  else
    let start := base.scheme ++ "://" ++ base.authority
    let (path, parameters) := cutParameters reference.path.toList
    if path.isEmpty && parameters.isEmpty then
      let query := if query = "" then setOff "?" (base.query.getD "") else query
      start ++ tidyPath base.path ++ query ++ fragment
    else
      let (basePath, _) := cutParameters base.path.toList
      start ++ String.ofList (resolvePath basePath path) ++
        setOff ";" (String.ofList parameters) ++ query ++ fragment

/-- A fragment that is written again: escaped characters stand for themselves as far as
they can. -/
def rewrittenFragment (fragment : String) : List Char :=
  (percentDecode fragment.toList).flatMap fun character =>
    if character.toNat < 0x80 then [character]
    else percentEncoded (UInt8.ofNat character.toNat)

end Url

end XmlGrove.Loading
