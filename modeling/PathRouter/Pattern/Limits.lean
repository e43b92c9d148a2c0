import PathRouter.Config
import PathRouter.Pattern

/-!
The limits on a pattern. How deep it nests is told by its form; how many bytes its compiled form
takes is for the engine to say that compiles it.
-/

namespace PathRouter

inductive PatternError
  /-- The pattern nests deeper than the limit. -/
  | tooDeep (limit : Nat)
  /-- The compiled pattern would exceed the limit, in bytes. -/
  | tooBig (limit : Nat)
  deriving DecidableEq, Repr

def PatternError.message : PatternError → String
  | .tooDeep limit =>
    "error: exceed the maximum number of nested parentheses/brackets (" ++ toString limit ++ ")"
  | .tooBig limit =>
    "failed to compile route pattern: Compiled regex exceeds size limit of "
      ++ toString limit ++ " bytes."

/-- The bytes that the compiled form of a pattern takes. -/
class SizeRule where
  size : Pattern → Nat

namespace Pattern

/-- What a pattern stands directly inside of. -/
inductive Junction
  | none
  | sequence
  | alternation
  deriving DecidableEq, Repr

/-- The depth of a pattern inside a junction. A whole chain of sequences, or of alternatives, counts
as one level; so do a group, a repetition and a bracketed class. -/
def depthIn : Junction → Pattern → Nat
  | _, .empty | _, .start | _, .stop | _, .char _ => 0
  | _, .segment => 2
  | _, .anyRun => 1
  | outer, .seq p q =>
    (if outer = .sequence then 0 else 1) + max (p.depthIn .sequence) (q.depthIn .sequence)
  | outer, .alt p q =>
    (if outer = .alternation then 0 else 1) + max (p.depthIn .alternation) (q.depthIn .alternation)
  | _, .group p => 1 + p.depthIn .none
  | _, .capture _ p => 1 + p.depthIn .none

def depth (p : Pattern) : Nat := p.depthIn .none

/-- The pattern itself, if it keeps both limits; depth is checked first. -/
def checked [SizeRule] (config : Config) (p : Pattern) : Except PatternError Pattern :=
  if config.nestLimit < p.depth then .error (.tooDeep config.nestLimit)
  else if config.sizeLimit < SizeRule.size p then .error (.tooBig config.sizeLimit)
  else .ok p

theorem eq_of_checked [SizeRule] {config : Config} {p q : Pattern} (h : p.checked config = .ok q) :
    q = p := by
  unfold checked at h
  split at h
  · cases h
  · split at h
    · cases h
    · exact (Except.ok.inj h).symm

end Pattern

end PathRouter
