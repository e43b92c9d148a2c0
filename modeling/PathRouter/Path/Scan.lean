import PathRouter.Path.Token

/-!
Reading a path into tokens with cuts at bytes. One turn of the loop looks at the first character,
measures how far the token goes, and cuts it off. A cut that falls between the bytes of a character
gives no result, and so does a loop that has not come to the end in the turns it is given.
-/

namespace PathRouter

namespace Path

/-- The text before a byte and the text from it on. There is no such cut inside a character, and
none behind the end. -/
def cutAt? (n : Nat) : Path → Option (Path × Path)
  | [] => if n = 0 then some ([], []) else none
  | c :: rest =>
    if n = 0 then some ([], c :: rest)
    else if c.utf8Size ≤ n then
      (cutAt? (n - c.utf8Size) rest).map fun parts => (c :: parts.1, parts.2)
    else none

def slashAt? : Path → Option Nat
  | [] => none
  | c :: rest => if c = '/' then some 0 else (slashAt? rest).map (· + c.utf8Size)

def cutCharacter (c : Char) (text : Path) : Option (Token × Path) :=
  if text = ['/', '*'] then some (.tailStar, [])
  else do
    let (_, rest) ← text.cutAt? c.utf8Size
    return (if c = '*' then .star else .char c, rest)

/-- Cuts off the first token of a text that starts with the character. A parameter goes from its
colon to the next slash, or to the end; a colon right before that is an ordinary character. -/
def cutToken (c : Char) (text : Path) : Option (Token × Path) :=
  if c = ':' then do
    let (_, behind) ← text.cutAt? 1
    let stop := behind.slashAt?.elim text.byteLength (· + 1)
    if 1 < stop then
      let (token, rest) ← text.cutAt? stop
      let (_, name) ← token.cutAt? 1
      return (.param name, rest)
    else cutCharacter c text
  else cutCharacter c text

/-- Cuts off tokens until nothing is left, in so many turns at most. -/
def scan : Nat → Path → Option (List Token)
  | _, [] => some []
  | 0, _ :: _ => none
  | turns + 1, c :: rest => do
    let (token, left) ← cutToken c (c :: rest)
    return token :: (← scan turns left)

end Path

end PathRouter
