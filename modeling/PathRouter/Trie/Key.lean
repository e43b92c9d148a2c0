import PathRouter.Path.Token
import PathRouter.Pattern

/-!
The edges of the trie. A registered path is a list of steps; each step goes along one key, and the
steps of parameters carry a name.
-/

namespace PathRouter

inductive Key
  /-- One given character. -/
  | literal (c : Char)
  /-- A stretch of one segment, named or not. -/
  | label
  /-- Nothing, or a slash and anything after it. -/
  | tailWildcard
  /-- Anything. -/
  | onlyWildcard
  deriving DecidableEq, Repr

namespace Key

/-- The place of a key among its siblings: literals by code point, then the label, then the two
wildcards. Siblings are tried in this order. -/
def rank : Key → Nat
  | .literal c => c.toNat
  | .label => 0x110000
  | .tailWildcard => 0x110001
  | .onlyWildcard => 0x110002

def isLiteral : Key → Bool
  | .literal _ => true
  | _ => false

def isWildcard : Key → Bool
  | .tailWildcard | .onlyWildcard => true
  | _ => false

def pattern : Key → Pattern
  | .literal c => .char c
  | .label => .segment
  | .tailWildcard => .tail
  | .onlyWildcard => .anyRun

end Key

structure Step where
  key : Key
  name? : Option (List Char) := none
  deriving DecidableEq, Repr

/-- The step of a token. A star reads anything at the end of a path, and otherwise a stretch of one
segment that gets no name. -/
def Token.step (token : Token) (atEnd : Bool) : Step :=
  match token with
  | .char c => { key := .literal c }
  | .param name => { key := .label, name? := some name }
  | .star => { key := if atEnd then .onlyWildcard else .label }
  | .tailStar => { key := .tailWildcard }

def stepsOf : List Token → List Step
  | [] => []
  | token :: rest => token.step rest.isEmpty :: stepsOf rest

namespace Path

def steps (path : Path) : List Step := stepsOf path.tokenize

def keys (path : Path) : List Key := path.steps.map Step.key

end Path

end PathRouter
