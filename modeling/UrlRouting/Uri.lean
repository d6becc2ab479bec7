import UrlRouting.Text.Fields

/-!
Request URIs. A URI is a path with a query, an authority alone, or both after a scheme. Fragments
are dropped, since they are not part of a request.
-/

namespace UrlRouting

/-- A request URI. The path is empty only where an authority stands alone. -/
structure Uri where
  scheme : Option String
  authority : Option String
  path : String
  query : Option String
  deriving DecidableEq, Inhabited

namespace Uri

def sizeLimit : Nat := 65534

def schemeLimit : Nat := 64

def isSchemeChar (character : Char) : Bool :=
  character.isAlphanum || "+-.~".toList.contains character

def isAuthorityChar (character : Char) : Bool :=
  character.isAlphanum || "!$&'()*+,-.;=_~".toList.contains character

/-- Whether a character may stand in a path. Controls, spaces and a few marks may not; braces,
quotes and everything outside ASCII may. -/
def isPathChar (character : Char) : Bool :=
  let code := character.toNat
  code == 0x21 || code == 0x22 || (0x24 ≤ code && code ≤ 0x3B) || code == 0x3D ||
    (0x40 ≤ code && code ≤ 0x5F) || (0x61 ≤ code && code ≤ 0x7E) || 0x80 ≤ code

def isQueryChar (character : Char) : Bool :=
  let code := character.toNat
  code == 0x21 || (0x24 ≤ code && code ≤ 0x3B) || code == 0x3D ||
    (0x3F ≤ code && code ≤ 0x7E) || 0x80 ≤ code

def startsWithLower (beginning : String) (text : List Char) : Bool :=
  (text.take beginning.length).map Char.toLower == beginning.toList

/-- A text cut after its scheme and the mark that follows it. There may be no scheme, but one that
is too long makes the text no URI. The common schemes are known in any case. -/
def cutScheme? (text : List Char) : Option (Option String × List Char) :=
  if startsWithLower "http://" text then
    some (some "http", text.drop 7)
  else if startsWithLower "https://" text then
    some (some "https", text.drop 8)
  else
    let scheme := text.takeWhile isSchemeChar
    match text.dropWhile isSchemeChar with
    | ':' :: '/' :: '/' :: rest =>
        if text.length ≤ 3 then some (none, text)
        else if scheme.length ≤ schemeLimit then some (some (String.ofList scheme), rest)
        else none
    | _ => some (none, text)

/-- What has been met of an authority: the colons since the last mark that explains them, its
brackets, and whether a percent sign stands outside of user names and brackets. -/
structure AuthorityScan where
  colons : Nat := 0
  opened : Bool := false
  closed : Bool := false
  percent : Bool := false

namespace AuthorityScan

def step (scan : AuthorityScan) (character : Char) : Option AuthorityScan :=
  match character with
  | ':' => if scan.colons < 8 then some { scan with colons := scan.colons + 1 } else none
  | '[' => if scan.percent || scan.opened then none else some { scan with opened := true }
  | ']' =>
      if scan.opened && !scan.closed then
        some { scan with closed := true, colons := 0, percent := false }
      else
        none
  | '@' => some { scan with colons := 0, percent := false }
  | '%' => some { scan with percent := true }
  | _ => if isAuthorityChar character then some scan else none

/-- Whether the whole is an authority: brackets in pairs, at most one colon for the port, and no
percent sign in the host. -/
def isComplete (scan : AuthorityScan) : Bool :=
  scan.opened == scan.closed && scan.colons ≤ 1 && !scan.percent

end AuthorityScan

def isAuthority (text : List Char) : Bool :=
  (text.foldlM AuthorityScan.step {}).any AuthorityScan.isComplete && text.getLast? != some '@'

def endsAuthority (character : Char) : Bool :=
  character == '/' || character == '?' || character == '#'

def readPath? (text : List Char) : Option (String × Option String) :=
  let path := text.takeWhile fun character => character != '?' && character != '#'
  let shown := if path.isEmpty then "/" else String.ofList path
  if path.all isPathChar then
    match text.drop path.length with
    | '?' :: rest =>
        let query := rest.takeWhile (· != '#')
        if query.all isQueryChar then some (shown, some (String.ofList query)) else none
    | _ => some (shown, none)
  else
    none

def ofString? (text : String) : Option Uri :=
  let characters := text.toList
  if text.utf8ByteSize > sizeLimit || characters.isEmpty then
    none
  else if characters = ['*'] then
    some { scheme := none, authority := none, path := "*", query := none }
  else if characters.head? = some '/' then
    (readPath? characters).map fun (path, query) =>
      { scheme := none, authority := none, path, query }
  else do
    let (scheme, rest) ← cutScheme? characters
    let authority := rest.takeWhile (!endsAuthority ·)
    let after := rest.dropWhile (!endsAuthority ·)
    if !isAuthority authority then none
    match scheme with
    | none =>
        if after.isEmpty then
          return { scheme, authority := some (String.ofList authority), path := "", query := none }
        else
          none
    | some _ =>
        if authority.isEmpty then none
        let (path, query) ← readPath? after
        return { scheme, authority := some (String.ofList authority), path, query }

def hostAndPort (authority : String) : List Char :=
  ((Text.fields '@' authority.toList).getLast?).getD []

def host? (uri : Uri) : Option String :=
  uri.authority.map fun authority =>
    let text := hostAndPort authority
    if text.head? = some '[' then
      String.ofList (text.takeWhile (· != ']') ++ [']'])
    else
      String.ofList (text.takeWhile (· != ':'))

/-- The number that a text of decimal digits stands for, if it fits in 16 bits. A plus sign may
stand before it. -/
def portNumber? (text : List Char) : Option Nat :=
  let digits :=
    match text with
    | '+' :: digits => digits
    | digits => digits
  if digits.isEmpty || !digits.all Char.isDigit then
    none
  else
    let value := digits.foldl (fun value digit => value * 10 + (digit.toNat - 48)) 0
    if value < UInt16.size then some value else none

def port? (uri : Uri) : Option Nat := do
  let authority ← uri.authority
  match Text.fields ':' authority.toList with
  | [_] => none
  | fields => portNumber? (← fields.getLast?)

def render (uri : Uri) : String :=
  let scheme := (uri.scheme.map (· ++ "://")).getD ""
  let query := (uri.query.map ("?" ++ ·)).getD ""
  scheme ++ uri.authority.getD "" ++ uri.path ++ query

end Uri

end UrlRouting
