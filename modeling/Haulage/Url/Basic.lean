import Haulage.Url.Host

/-!
# URLs

A URL is a scheme, an authority unless it has none, a path, and perhaps a query and a fragment.
Reading drops blanks at the ends and all tabs and newlines, folds the scheme to lower case, reads
the host by the scheme, resolves dot segments, and percent-encodes what each part cannot show. The
special schemes always have an authority and a path.
-/

set_option autoImplicit false

namespace Haulage

open Haulage.Text Haulage.Numeric

/-- The part of a URL that names a host. -/
structure Url.Authority where
  /-- User name and password as they are shown. -/
  userinfo : Option String
  host : Url.Host
  /-- A port other than the scheme's own. -/
  port : Option Nat
  deriving Repr, DecidableEq

/-- A URL. -/
structure Url where
  scheme : String
  authority : Option Url.Authority
  path : String
  query : Option String
  fragment : Option String
  deriving Repr, DecidableEq

namespace Url

/-- Whether a scheme has the syntax of the web. -/
def isSpecial (scheme : String) : Bool :=
  scheme ∈ ["http", "https", "ws", "wss", "ftp", "file"]

/-- The port that a special scheme stands for. -/
def knownPort? (scheme : String) : Option Nat :=
  if scheme = "http" ∨ scheme = "ws" then some 80
  else if scheme = "https" ∨ scheme = "wss" then some 443
  else if scheme = "ftp" then some 21
  else none

/-- The text of the host, if there is one. -/
def host? (u : Url) : Option String :=
  match u.authority with
  | none => none
  | some a => if a.host = .domain "" then none else some a.host.text

/-- The port shown, or the one that the scheme stands for. -/
def port? (u : Url) : Option Nat :=
  match u.authority.bind (·.port) with
  | some p => some p
  | none => knownPort? u.scheme

/-- The text of an authority with its two slashes. -/
def Authority.text (a : Authority) : String :=
  "//" ++ (match a.userinfo with | none => "" | some s => s ++ "@") ++ a.host.text ++
    (match a.port with | none => "" | some p => ":" ++ decimal p)

/-- The text of a URL. A path that starts with two slashes is kept apart from an authority. -/
def text (u : Url) : String :=
  u.scheme ++ ":" ++
    (match u.authority with
      | some a => a.text
      | none => if u.path.toList.take 2 = ['/', '/'] then "/." else "") ++
    u.path ++
    (match u.query with | none => "" | some q => "?" ++ q) ++
    (match u.fragment with | none => "" | some f => "#" ++ f)

/-! ## Reading the parts -/

/-- The characters of a URL: no blanks or controls at the ends, no tabs or newlines. -/
def significant (s : String) : List Char :=
  let edge (c : Char) : Bool := c.toNat ≤ 0x20
  let inner := ((s.toList.dropWhile edge).reverse.dropWhile edge).reverse
  inner.filter fun c => c != '\t' && c != '\n' && c != '\r'

/-- Whether a character may stand in a scheme. -/
def isSchemeChar (c : Char) : Bool :=
  c.isAlphanum || c == '+' || c == '-' || c == '.'

/-- The scheme and what follows its colon. -/
def readScheme? (s : List Char) : Option (String × List Char) :=
  let name := s.takeWhile isSchemeChar
  match s.dropWhile isSchemeChar with
  | ':' :: rest =>
    if (name.head?.map Char.isAlpha).getD false then
      some (String.ofList (name.map Char.toLower), rest)
    else none
  | _ => none

/-- Whether a character separates path segments. -/
def isSlash (special : Bool) (c : Char) : Bool :=
  c == '/' || (special && c == '\\')

/-- Whether a character ends an authority. -/
def endsAuthority (special : Bool) (c : Char) : Bool :=
  isSlash special c || c == '?' || c == '#'

/-- Splits at the last at sign. -/
def splitLastAt? (s : List Char) : Option (List Char × List Char) :=
  match s.reverse.dropWhile (· != '@') with
  | [] => none
  | _ :: before => some (before.reverse, (s.reverse.takeWhile (· != '@')).reverse)

/-- The shown form of user name and password; nothing when both are empty. -/
def readUserinfo (s : List Char) : Option String :=
  let name := encode userinfoSet (s.takeWhile (· != ':'))
  let shown :=
    match s.dropWhile (· != ':') with
    | _ :: password => if password.isEmpty then name else name ++ ':' :: encode userinfoSet password
    | [] => name
  if shown.isEmpty then none else some (String.ofList shown)

/-- The characters of a host: up to a colon outside brackets or a character that ends the
authority. -/
def takeHost (special : Bool) : Bool → List Char → List Char × List Char
  | _, [] => ([], [])
  | bracketed, c :: rest =>
    if (c == ':' && !bracketed) || endsAuthority special c then ([], c :: rest)
    else
      let bracketed := if c == '[' then true else if c == ']' then false else bracketed
      let (host, after) := takeHost special bracketed rest
      (c :: host, after)

/-- Reads a port after its colon; the scheme's own port is not kept. -/
def readPort (scheme : String) (s : List Char) : Except Flaw (Option Nat × List Char) :=
  let digits := s.takeWhile isDecimalDigit
  let rest := s.dropWhile isDecimalDigit
  let port := ofDigits digits
  if 65535 < port then .error .invalidPort
  else
    let ends := match rest with
      | [] => true
      | c :: _ => c == '/' || c == '\\' || c == '?' || c == '#'
    if !ends then .error .invalidPort
    else if digits.isEmpty ∨ knownPort? scheme = some port then .ok (none, rest)
    else .ok (some port, rest)

/-- Reads host and port. -/
def readHostAndPort (scheme : String) (s : List Char) :
    Except Flaw (Host × Option Nat × List Char) := do
  let special := isSpecial scheme
  let (name, rest) := takeHost special false s
  if special ∧ name.isEmpty then throw .emptyHost
  let host ← if special then readSpecialHost name else readPlainHost name
  match rest with
  | ':' :: after =>
    if host = .domain "" then throw .emptyHost
    let (port, rest) ← readPort scheme after
    pure (host, port, rest)
  | rest => pure (host, none, rest)

/-- Reads an authority after its slashes. -/
def readAuthority (scheme : String) (s : List Char) : Except Flaw (Authority × List Char) := do
  let special := isSpecial scheme
  let area := s.takeWhile (fun c => !endsAuthority special c)
  let beyond := s.dropWhile (fun c => !endsAuthority special c)
  match splitLastAt? area with
  | none =>
    let (host, port, rest) ← readHostAndPort scheme s
    pure (⟨none, host, port⟩, rest)
  | some (user, after) =>
    -- nothing before the at sign and nothing between it and the end of the authority
    if user.isEmpty ∧ after.isEmpty ∧ !beyond.isEmpty then throw .emptyHost
    let userinfo := readUserinfo user
    let (host, port, rest) ← readHostAndPort scheme (after ++ beyond)
    if host = .domain "" ∧ userinfo.isSome then throw .emptyHost
    pure (⟨userinfo, host, port⟩, rest)

/-! ## Paths -/

/-- Whether a segment goes up a level. -/
def isDoubleDot (segment : List Char) : Bool :=
  (String.ofList (segment.map Char.toLower)) ∈ ["..", ".%2e", "%2e.", "%2e%2e"]

/-- Whether a segment stays on its level. -/
def isSingleDot (segment : List Char) : Bool :=
  (String.ofList (segment.map Char.toLower)) ∈ [".", "%2e"]

/-- Whether a segment names a drive. -/
def isDrive (segment : List Char) : Bool :=
  match segment with
  | [letter, mark] => letter.isAlpha && (mark == ':' || mark == '|')
  | _ => false

/-- Adds a segment to the reversed segments so far. -/
def pushSegment (file last : Bool) (soFar : List (List Char)) (segment : List Char) :
    List (List Char) :=
  if isDoubleDot segment then
    let up := if file && soFar.length == 1 && soFar.any isDrive then soFar else soFar.tail
    if last then [] :: up else up
  else if isSingleDot segment then
    if last then [] :: soFar else soFar
  else if file && soFar.isEmpty && isDrive segment then (segment.take 1 ++ [':']) :: soFar
  else segment :: soFar

/-- The reversed segments of a path. -/
def pushSegments (file : Bool) (soFar : List (List Char)) : List (List Char) → List (List Char)
  | [] => soFar
  | [segment] => pushSegment file true soFar segment
  | segment :: more => pushSegments file (pushSegment file false soFar segment) more

/-- The path of encoded segments, dot segments resolved. -/
def pathText (file : Bool) (segments : List (List Char)) : List Char :=
  '/' :: joinChars '/' (pushSegments file [] segments).reverse

/-- Splits at every character of a class. -/
def splitWhere (separates : Char → Bool) (s : List Char) : List (List Char) :=
  splitChars '/' (s.map fun c => if separates c then '/' else c)

/-- Reads the characters of a path that is not opaque; a leading slash does not start a segment. -/
def readPath (scheme : String) (s : List Char) : String :=
  let special := isSpecial scheme
  let file := scheme == "file"
  let body := match s with
    | c :: rest => if isSlash special c then rest else c :: rest
    | [] => []
  let segments := (splitWhere (isSlash special) body).map (encode pathSet)
  let path := pathText file segments
  String.ofList (if file then '/' :: path.dropWhile (· == '/') else path)

/-- Reads query and fragment and completes a URL. -/
def finish (scheme : String) (authority : Option Authority) (path : String) (s : List Char) : Url :=
  let query :=
    match s with
    | '?' :: rest => some (String.ofList
        (encode (querySet (isSpecial scheme)) (rest.takeWhile (· != '#'))))
    | _ => none
  let fragment :=
    match s.dropWhile (· != '#') with
    | _ :: rest => some (String.ofList (encode fragmentSet rest))
    | [] => none
  ⟨scheme, authority, path, query, fragment⟩

/-- Splits off the path from query and fragment. -/
def splitPath (s : List Char) : List Char × List Char :=
  (s.takeWhile (fun c => c != '?' && c != '#'), s.dropWhile (fun c => c != '?' && c != '#'))

/-- Reads what follows the slashes of a URL with an authority. -/
def readWithAuthority (scheme : String) (s : List Char) : Except Flaw Url :=
  (readAuthority scheme s).map fun (authority, rest) =>
    let (path, after) := splitPath rest
    let path := if path.isEmpty ∧ !isSpecial scheme then "" else readPath scheme path
    finish scheme (some authority) path after

/-- Reads a file URL after its scheme. -/
def readFile (s : List Char) : Except Flaw Url :=
  let slash := isSlash true
  let noHost : Authority := ⟨none, .domain "", none⟩
  match s with
  | a :: b :: rest =>
    if slash a && slash b then
      let name := rest.takeWhile (fun c => !endsAuthority true c)
      let beyond := rest.dropWhile (fun c => !endsAuthority true c)
      if isDrive name then
        let (path, after) := splitPath rest
        .ok (finish "file" (some noHost) (readPath "file" path) after)
      else
        let (path, after) := splitPath beyond
        -- a path that starts with a drive has no host
        let complete (host : Host) : Url :=
          let path := readPath "file" path
          let drive := isDrive ((path.toList.drop 1).takeWhile (· != '/'))
          finish "file" (some { noHost with host := if drive then .domain "" else host }) path after
        if name.isEmpty then .ok (complete (.domain ""))
        else
          (readSpecialHost name).map fun host =>
            complete (if host = .domain "localhost" then .domain "" else host)
    else
      let (path, after) := splitPath s
      .ok (finish "file" (some noHost) (readPath "file" path) after)
  | _ =>
    let (path, after) := splitPath s
    .ok (finish "file" (some noHost) (readPath "file" path) after)

/-- The URL that a text stands for, or its first flaw. -/
def read (s : String) : Except Flaw Url :=
  match readScheme? (significant s) with
  | none => .error .relative
  | some (scheme, rest) =>
    if scheme = "file" then readFile rest
    else if isSpecial scheme then readWithAuthority scheme (rest.dropWhile (isSlash true))
    else
      match dropLead? ['/', '/'] rest with
      | some after => readWithAuthority scheme after
      | none =>
        let (path, after) := splitPath rest
        let path :=
          if path.head? = some '/' then readPath scheme path
          else String.ofList (encode controls path)
        .ok (finish scheme none path after)

end Url

end Haulage
