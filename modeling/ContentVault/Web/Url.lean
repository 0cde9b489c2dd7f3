import ContentVault.Web.Host

/-!
# Absolute addresses

An absolute URL as far as a request to it needs: whether it is one, its path and its query. Blanks around it and line
breaks in it do not count, backslashes are slashes where the scheme is one of the web, single and double dots in the
path are resolved, and characters that cannot stand in a request line are percent-encoded.
-/

namespace ContentVault.Web

/-- What a request needs to know of an address. -/
structure Url where
  scheme : String
  path : String
  query : Option String
deriving DecidableEq, Repr, Inhabited

namespace Url

/-! ## Percent-encoding -/

/-- An upper-case hexadecimal digit. -/
def upperDigit (n : Nat) : Char := (Text.hexDigit n).toUpper

/-- The escape of a byte. -/
def escapeByte (b : UInt8) : List Char := ['%', upperDigit (b.toNat / 16), upperDigit (b.toNat % 16)]

/-- Encodes the characters that satisfy `isEscaped` and all beyond ASCII. -/
def encode (isEscaped : Char → Bool) (cs : List Char) : List Char :=
  cs.flatMap fun c =>
    if isEscaped c || 0x7e < c.toNat || c.toNat < 0x20 then
      (Bytes.ofString (String.singleton c)).flatMap escapeByte
    else [c]

/-- Characters that are encoded in a path. -/
def isEscapedInPath (c : Char) : Bool := " \"<>`#?\x7b\x7d".toList.contains c

/-- Characters that are encoded in the query of an address of the web. -/
def isEscapedInQuery (c : Char) : Bool := " \"#<>'".toList.contains c

/-! ## Paths -/

/-- Whether a segment means the one it is in. -/
def isDot (segment : List Char) : Bool :=
  let s := segment.map Char.toLower
  s == ['.'] || s == ['%', '2', 'e']

/-- Whether a segment means the one above. -/
def isDoubleDot (segment : List Char) : Bool :=
  let dot : List (List Char) := [['.'], ['%', '2', 'e']]
  let s := segment.map Char.toLower
  (dot.flatMap fun a => dot.map fun b => a ++ b).contains s

/-- Resolves dots. `done` holds the segments before, last one first. -/
def resolve (done : List (List Char)) : List (List Char) → List (List Char)
  | [] => done.reverse
  | segment :: rest =>
    if isDoubleDot segment then resolve (if rest.isEmpty then [] :: done.drop 1 else done.drop 1) rest
    else if isDot segment then resolve (if rest.isEmpty then [] :: done else done) rest
    else resolve (segment :: done) rest

/-- A path with its dots resolved and its characters encoded; `isSlash` says what separates segments. -/
def pathText (isSlash : Char → Bool) (cs : List Char) : List Char :=
  let relative := match cs with
    | c :: rest => if isSlash c then rest else c :: rest
    | [] => []
  (resolve [] (splitWhere isSlash relative)).flatMap fun segment => '/' :: encode isEscapedInPath segment

/-! ## Parts -/

/-- Cuts a text before the first character that satisfies `isCut`. -/
def cutAt (isCut : Char → Bool) (cs : List Char) : List Char × List Char :=
  (cs.takeWhile fun c => !isCut c, cs.dropWhile fun c => !isCut c)

/-- The scheme in front of the first colon, in lower case, and what is after it. -/
def scheme? (cs : List Char) : Option (List Char × List Char) :=
  match cutAt (· == ':') cs with
  | (c :: scheme, ':' :: rest) =>
    if c.isAlpha && scheme.all (fun c => c.isAlphanum || c == '+' || c == '-' || c == '.') then
      some ((c :: scheme).map Char.toLower, rest)
    else none
  | _ => none

/-- Whether a text may stand behind the colon after a host: a number of at most 16 bits, or nothing. -/
def isEndpointNumber (cs : List Char) : Bool := cs.all Char.isDigit && ((digits? 10 cs).getD 65536) ≤ 65535

/-- Cuts a host from the number behind it at the colon between them, which is not one between brackets. -/
def cutNumber : (inBrackets : Bool) → List Char → List Char × Option (List Char)
  | _, [] => ([], none)
  | inBrackets, c :: rest =>
    if c == ':' && !inBrackets then ([], some rest)
    else
      let (host, number) := cutNumber (c == '[' || (inBrackets && c != ']')) rest
      (c :: host, number)

/-- What follows the last `@` of a text, and whether there is one. -/
def withoutUser (cs : List Char) : List Char × Bool :=
  let parts := splitWhere (· == '@') cs
  (parts.getLast?.getD [], parts.length > 1)

/-- Whether a text is an authority: a host with a number behind it or without, after a user or not. -/
def isAuthority (isHost : List Char → Bool) (mayBeEmpty : Bool) (cs : List Char) : Bool :=
  let (place, hasUser) := withoutUser cs
  let (host, number) := cutNumber false place
  if host.isEmpty then mayBeEmpty && !hasUser && number.isNone
  else isHost host && isEndpointNumber (number.getD [])

/-- The path and the query of what follows an authority. -/
def ofRest (scheme : List Char) (isSlash : Char → Bool) (rest : List Char) : Url :=
  let (path, rest) := cutAt (fun c => c == '?' || c == '#') rest
  let query := match rest with
    | '?' :: rest => some (String.ofList (encode isEscapedInQuery (cutAt (· == '#') rest).1))
    | _ => none
  ⟨String.ofList scheme, String.ofList (pathText isSlash path), query⟩

/-! ## Addresses -/

/-- The schemes of the web, which need a host. -/
def webSchemes : List String := ["http", "https", "ws", "wss", "ftp"]

/-- Whether a character is a slash where the scheme is one of the web. -/
def isWebSlash (c : Char) : Bool := c == '/' || c == '\\'

/-- Reads what follows a scheme of the web. -/
def parseWeb? (scheme rest : List Char) : Option Url :=
  let (authority, rest) := cutAt (fun c => isWebSlash c || c == '?' || c == '#') (rest.dropWhile isWebSlash)
  if isAuthority isHost false authority then some (ofRest scheme isWebSlash rest) else none

/-- Reads what follows the scheme of files. -/
def parseFile? (rest : List Char) : Option Url :=
  let scheme := "file".toList
  match rest with
  | a :: b :: rest' =>
    if isWebSlash a && isWebSlash b then
      let (host, rest') := cutAt (fun c => isWebSlash c || c == '?' || c == '#') rest'
      if host.isEmpty || isHost host then some (ofRest scheme isWebSlash rest') else none
    else some (ofRest scheme isWebSlash rest)
  | _ => some (ofRest scheme isWebSlash rest)

/-- Reads what follows any other scheme. -/
def parseOther? (scheme rest : List Char) : Option Url :=
  match rest with
  | '/' :: '/' :: rest =>
    let (authority, rest) := cutAt (fun c => c == '/' || c == '?' || c == '#') rest
    if isAuthority isOpaqueHost true authority then some (ofRest scheme (· == '/') rest) else none
  | _ => some (ofRest scheme (· == '/') rest)

/-- A text without the blanks and control characters around it and the tabs and line breaks in it. -/
def clean (cs : List Char) : List Char :=
  let blank (c : Char) : Bool := c.toNat ≤ 0x20
  let trimmed := ((cs.dropWhile blank).reverse.dropWhile blank).reverse
  trimmed.filter fun c => !(c == '\t' || c == '\n' || c == '\r')

/-- The address that a text spells, if it spells one. -/
def parse? (text : String) : Option Url := do
  let (scheme, rest) ← scheme? (clean text.toList)
  if webSchemes.contains (String.ofList scheme) then parseWeb? scheme rest
  else if scheme = "file".toList then parseFile? rest
  else parseOther? scheme rest

/-- What a request line asks for. -/
def target (u : Url) : String :=
  match u.query with
  | some query => u.path ++ "?" ++ query
  | none => u.path

end Url

end ContentVault.Web
