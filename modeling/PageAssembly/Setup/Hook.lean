import PageAssembly.Http.Request
import PageAssembly.Http.Writer
import PageAssembly.Json.Value

/-!
Functions that take part in rendering. Hooks see the writer, the request and the data, and give the
data for those after them; environment functions give one value for scripts. A function is known by
its identity, whatever it is called.
-/

namespace PageAssembly

structure Failure where
  message : String
deriving DecidableEq

/-- What a hook does to the writer stays done when the hook fails. -/
structure Hook where
  id : String
  identity : Nat
  run : Writer → Request → Json → Writer × Except Failure Json

structure EnvironmentFunction where
  key : String
  identity : Nat
  run : Request → Except Failure Json

def Hook.renamed (hook : Hook) (id : String) : Hook :=
  { hook with id := id }

end PageAssembly
