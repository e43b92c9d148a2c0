/-! What can be wrong with a request line. -/

namespace PathRouter.Http

inductive RequestError
  | invalidMethod
  | emptyTarget
  | invalidCharacter
  | invalidAuthority
  | invalidFormat
  | targetTooLong
  | schemeTooLong
  deriving DecidableEq, Repr

def RequestError.message : RequestError → String
  | .invalidMethod => "invalid HTTP method"
  | .emptyTarget => "empty string"
  | .invalidCharacter => "invalid uri character"
  | .invalidAuthority => "invalid authority"
  | .invalidFormat => "invalid format"
  | .targetTooLong => "uri too long"
  | .schemeTooLong => "scheme too long"

end PathRouter.Http
