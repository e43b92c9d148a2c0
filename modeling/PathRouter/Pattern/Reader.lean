import PathRouter.Pattern.Text

/-!
Reading a pattern from its text. The text is cut into lexemes, and these are taken one by one by a
reader that keeps a stack of the brackets that are still open. Only what is known to mean one thing
is read: a text in which a special character stands without its meaning is refused.
-/

namespace PathRouter

namespace Pattern

inductive Lexeme
  | char (c : Char)
  | start
  | stop
  | segment
  | anyRun
  | bar
  /-- The start of a group that only brackets. -/
  | bracket
  /-- The start of a capturing group. -/
  | capture
  /-- The end of a group of either kind. -/
  | close
  deriving DecidableEq, Repr

def Lexeme.spelling : Lexeme → List Char
  | .char c => escape c
  | .start => ['^']
  | .stop => ['$']
  | .segment => ['[', '^', '/', ']', '+']
  | .anyRun => ['.', '*']
  | .bar => ['|']
  | .bracket => ['(', '?', ':']
  | .capture => ['(']
  | .close => [')']

/-- Cuts a text into lexemes. Special characters are characters only behind a backslash, and a
backslash stands only in front of a special character. -/
def lexemes? : List Char → Option (List Lexeme)
  | [] => some []
  | '\\' :: c :: rest => if c ∈ special then (lexemes? rest).map (.char c :: ·) else none
  | '(' :: '?' :: ':' :: rest => (lexemes? rest).map (.bracket :: ·)
  | '(' :: '?' :: _ => none
  | '(' :: rest => (lexemes? rest).map (.capture :: ·)
  | ')' :: rest => (lexemes? rest).map (.close :: ·)
  | '|' :: rest => (lexemes? rest).map (.bar :: ·)
  | '^' :: rest => (lexemes? rest).map (.start :: ·)
  | '$' :: rest => (lexemes? rest).map (.stop :: ·)
  | '[' :: '^' :: '/' :: ']' :: '+' :: rest => (lexemes? rest).map (.segment :: ·)
  | '.' :: '*' :: rest => (lexemes? rest).map (.anyRun :: ·)
  | c :: rest => if c ∈ special then none else (lexemes? rest).map (.char c :: ·)

/-- What stood before an open bracket: the alternatives that are complete and the items of the one
that is not, the last ones in front, and the ordinal of the bracket if it captures. -/
structure Opened where
  alternatives : List Pattern
  items : List Pattern
  ordinal : Option Nat
  deriving DecidableEq, Repr

/-- How far a text has been read: the alternatives and items inside the innermost open bracket, the
last ones in front, what stood before each open bracket, the innermost one in front, and the number
of capturing groups so far. -/
structure Reader where
  alternatives : List Pattern := []
  items : List Pattern := []
  opened : List Opened := []
  captures : Nat := 0
  deriving DecidableEq, Repr

/-- A pattern in a bracket: a capturing one, if there is an ordinal. -/
def bracketed (ordinal : Option Nat) (p : Pattern) : Pattern :=
  match ordinal with
  | some n => .capture n p
  | none => .group p

namespace Reader

def item (reader : Reader) (p : Pattern) : Reader := { reader with items := p :: reader.items }

/-- The alternatives up to here, the last one in front. -/
def branches (reader : Reader) : List Pattern := concat reader.items.reverse :: reader.alternatives

def content (reader : Reader) : Pattern := choice reader.branches.reverse

def enter (reader : Reader) (ordinal : Option Nat) : Reader where
  opened := { alternatives := reader.alternatives, items := reader.items, ordinal } :: reader.opened
  captures := reader.captures + ordinal.toList.length

/-- Closes the innermost open bracket, if there is one: all inside it is one item. -/
def leave (reader : Reader) : Option Reader :=
  match reader.opened with
  | [] => none
  | before :: opened =>
    some
      { alternatives := before.alternatives
        items := bracketed before.ordinal reader.content :: before.items
        opened
        captures := reader.captures }

def take (reader : Reader) : Lexeme → Option Reader
  | .char c => some (reader.item (.char c))
  | .start => some (reader.item .start)
  | .stop => some (reader.item .stop)
  | .segment => some (reader.item .segment)
  | .anyRun => some (reader.item .anyRun)
  | .bar => some { reader with alternatives := reader.branches, items := [] }
  | .bracket => some (reader.enter none)
  | .capture => some (reader.enter (some (reader.captures + 1)))
  | .close => reader.leave

end Reader

/-- Reads a pattern, if the text is one and all its brackets are closed. -/
def read? (text : List Char) : Option Pattern := do
  let lexemes ← lexemes? text
  let reader ← lexemes.foldlM Reader.take {}
  if reader.opened.isEmpty then some reader.content else none

end Pattern

end PathRouter
