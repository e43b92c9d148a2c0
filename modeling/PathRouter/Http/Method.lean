import PathRouter.Event
import PathRouter.Http.Error

/-! Request methods as they appear on the wire. -/

namespace PathRouter.Http

def methodSigns : List Char := "!*+-.^_`|~".toList

def isMethodChar (c : Char) : Bool := c.isAlphanum || methodSigns.contains c

/-- Reads a method name: at least one character, all of them allowed. Case is kept. -/
def readMethod (text : List Char) : Except RequestError Method :=
  if !text.isEmpty && text.all isMethodChar then .ok (String.ofList text)
  else .error .invalidMethod

end PathRouter.Http
