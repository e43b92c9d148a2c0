import PathRouter.Error
import PathRouter.Pattern.Match

/-!
The paths that a wildcard path covers. Coverage is decided on registered paths as they are written,
parameters and stars included.
-/

namespace PathRouter

inductive Wildcard
  /-- The wildcard `*` covers every path. -/
  | everything
  /-- Any other wildcard covers what its pattern matches. -/
  | glob (pattern : Pattern)
  deriving DecidableEq, Repr

namespace Wildcard

def globParts (path : Path) : List Pattern :=
  path.map fun c => if c = '*' then .anyRun else .char c

/-- The pattern of a wildcard path. The first `/*` stands for nothing, or for a slash and anything
after it. -/
def pattern (path : Path) : Pattern :=
  match path.splitTail? with
  | some (front, back) =>
    .concat (.start :: globParts front ++ .tail :: globParts back ++ [.stop])
  | none => .concat (.start :: globParts path ++ [.stop])

/-- The wildcard of a path. Its pattern has to keep the default limits. -/
def ofPath [SizeRule] (path : Path) : Except RouterError Wildcard :=
  if path = ['*'] then .ok .everything
  else
    match (pattern path).checked {} with
    | .ok p => .ok (.glob p)
    | .error cause => .error (.pattern cause)

def covers (wildcard : Wildcard) (path : Path) : Bool :=
  match wildcard with
  | .everything => true
  | .glob p => p.isMatch path

end Wildcard

end PathRouter
