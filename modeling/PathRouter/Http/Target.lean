import PathRouter.Http.Error
import PathRouter.Path

/-!
Request targets, and the path that a target asks for. A target is a path with an optional query and
fragment, or an absolute address with scheme and authority, or an authority alone, or a star.
Nothing is decoded.
-/

namespace PathRouter.Http

/-- Whether a code point lies between two others, ends included. -/
def within (low high : Nat) (c : Char) : Bool := decide (low ≤ c.toNat) && decide (c.toNat ≤ high)

/-- The characters of a path. Double quotes and braces are let through although they should be
encoded. -/
def isPathChar (c : Char) : Bool :=
  c.toNat == 0x21 || c.toNat == 0x22 || within 0x24 0x3b c || c.toNat == 0x3d
    || within 0x40 0x5f c || within 0x61 0x7e c

def isQueryChar (c : Char) : Bool :=
  c.toNat == 0x21 || within 0x24 0x3b c || c.toNat == 0x3d || within 0x3f 0x7e c

def isSchemeChar (c : Char) : Bool := c.isAlphanum || "+-.~".toList.contains c

/-- The characters of an authority, besides the percent sign, which has rules of its own. -/
def isAuthorityChar (c : Char) : Bool := c.isAlphanum || "!$&'()*+,-.:;=@[]_~".toList.contains c

/-- Whether a query is sound; it ends where a fragment begins, and fragments are not looked at. -/
def checkQuery : List Char → Except RequestError Unit
  | [] => .ok ()
  | '#' :: _ => .ok ()
  | c :: rest => if isQueryChar c then checkQuery rest else .error .invalidCharacter

def readPath : List Char → Except RequestError Path
  | [] => .ok []
  | '#' :: _ => .ok []
  | '?' :: query => (checkQuery query).map fun _ => []
  | c :: rest => if isPathChar c then (readPath rest).map (c :: ·) else .error .invalidCharacter

/-- Reads the path in front of a query and a fragment; without one, the path is that of the root. -/
def readPathOrRoot (text : List Char) : Except RequestError Path :=
  (readPath text).map fun path => if path = [] then ['/'] else path

/-- What is known of an authority while it is read. User information, and the brackets of a host,
clear what was counted before them. `colons` are those since then. -/
structure AuthorityScan where
  colons : Nat := 0
  opened : Bool := false
  closed : Bool := false
  percent : Bool := false
  endsInAt : Bool := false
  deriving DecidableEq, Repr

namespace AuthorityScan

/-- The most colons that may follow one another without user information or a closing bracket
between them; an address in brackets has no more than these. -/
def colonLimit : Nat := 8

/-- Takes in one more character of an authority. The first fault from the left is the one told. -/
def step (scan : AuthorityScan) (c : Char) : Except RequestError AuthorityScan :=
  let scan := { scan with endsInAt := false }
  if c = ':' then
    if colonLimit ≤ scan.colons then .error .invalidAuthority
    else .ok { scan with colons := scan.colons + 1 }
  else if c = '[' then
    if scan.percent || scan.opened then .error .invalidAuthority
    else .ok { scan with opened := true }
  else if c = ']' then
    if !scan.opened || scan.closed then .error .invalidAuthority
    else .ok { scan with closed := true, colons := 0, percent := false }
  else if c = '@' then .ok { scan with endsInAt := true, colons := 0, percent := false }
  else if c = '%' then .ok { scan with percent := true }
  else if isAuthorityChar c then .ok scan
  else .error .invalidCharacter

def finish (scan : AuthorityScan) : Except RequestError Unit :=
  if scan.opened != scan.closed || 1 < scan.colons || scan.endsInAt || scan.percent then
    .error .invalidAuthority
  else .ok ()

end AuthorityScan

def endsAuthority (c : Char) : Bool := c == '/' || c == '?' || c == '#'

def splitAuthority (text : List Char) : Except RequestError (List Char × List Char) := do
  let authority := text.takeWhile (!endsAuthority ·)
  let scan ← authority.foldlM AuthorityScan.step {}
  scan.finish
  return (authority, text.dropWhile (!endsAuthority ·))

/-- The rest of a text that begins with the given ASCII text, letters in either case. -/
def afterFront? (front : List Char) (text : List Char) : Option (List Char) :=
  if (text.take front.length).map Char.toLower = front then some (text.drop front.length) else none

/-- What follows a scheme at the front of a text. The names `http` and `https` are known in either
case; other names may have up to 64 characters. -/
def afterScheme? (text : List Char) : Except RequestError (Option (List Char)) :=
  match afterFront? "http://".toList text, afterFront? "https://".toList text with
  | some rest, _ => .ok (some rest)
  | none, some rest => .ok (some rest)
  | none, none =>
    match text.dropWhile isSchemeChar with
    | ':' :: '/' :: '/' :: rest =>
      if text.length ≤ 3 then .ok none
      else if 64 < (text.takeWhile isSchemeChar).length then .error .schemeTooLong
      else .ok (some rest)
    | _ => .ok none

/-- The greatest length of a target, in bytes. -/
def targetLimit : Nat := 65534

def pathAfterScheme (text : List Char) : Except RequestError Path := do
  let (authority, rest) ← splitAuthority text
  if authority = [] then throw .invalidFormat
  readPathOrRoot rest

/-- The path that an authority alone asks for: none. `fault` tells what is wrong with anything that
follows the authority. -/
def pathOfAuthority (fault : RequestError) (text : List Char) : Except RequestError Path := do
  let (_, rest) ← splitAuthority text
  if rest = [] then return [] else throw fault

def readTarget (text : List Char) : Except RequestError Path := do
  if targetLimit < Path.byteLength text then throw .targetTooLong
  match text with
  | [] => throw .emptyTarget
  | ['*'] => return ['*']
  | '/' :: _ => readPathOrRoot text
  | [_] => pathOfAuthority .invalidCharacter text
  | _ =>
    match ← afterScheme? text with
    | some rest => pathAfterScheme rest
    | none => pathOfAuthority .invalidFormat text

end PathRouter.Http
