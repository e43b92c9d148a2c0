import PathRouter.Http.Request
import PathRouter.Router

/-! Lookups by request. -/

namespace PathRouter

variable {α : Type}

def FrozenRouter.findRequest (router : FrozenRouter α) (request : Http.Request) :
    Option (Match α) :=
  router.find request.method request.path

/-- Looks up the method and the path of a request; nothing is found before the router is frozen. -/
def Router.findRequest (router : Router α) (request : Http.Request) : Option (Match α) :=
  router.find request.method request.path

end PathRouter
