import PathRouter.OrderedMap

/-! The parameters that a match captured. -/

namespace PathRouter

/-- Names and values, in the order of the path. A path may repeat a name. -/
abbrev Params := List (List Char × List Char)

namespace Params

/-- The value bound to a name; the last one, if the name is repeated. -/
def get? (params : Params) (name : List Char) : Option (List Char) :=
  params.reverse.lookup name

def toMap (params : Params) : OrderedMap (List Char) (List Char) := .ofList params

end Params

end PathRouter
