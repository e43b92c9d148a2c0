import PathRouter.Builder
import PathRouter.Handlers

/-!
A router in its lookup phase. Each known method has a matcher, and methods that were never seen use
the one for all methods.
-/

namespace PathRouter

/-- A successful lookup: the handlers, and the parameters captured from the path. -/
structure Match (α : Type) where
  handlers : Handlers α
  params : Params

structure FrozenRouter (α : Type) where
  /-- All handlers, in the order of registration. -/
  handlers : Array α
  /-- The matcher of each method known when the router was frozen. -/
  matchers : OrderedMap Method Matcher
  /-- The matcher of all other methods. -/
  fallback : Matcher

namespace FrozenRouter

variable {α : Type}

def matcherOf (router : FrozenRouter α) (method : Method) : Matcher :=
  (router.matchers.get? method).getD router.fallback

def find (router : FrozenRouter α) (method : Method) (path : Path) : Option (Match α) := do
  let (chain, params) ← (router.matcherOf method).lookup path
  return { handlers := ⟨router.handlers, chain⟩, params }

/-- The methods known when the router was frozen. -/
def methods (router : FrozenRouter α) : List Method := router.matchers.keys

def handlerCount (router : FrozenRouter α) : Nat := router.handlers.size

end FrozenRouter

end PathRouter
