import PageAssembly.Store.Marker

/-!
What can be chosen for a site.
-/

namespace PageAssembly

structure Settings where
  cache : Bool
  inline : Bool
  place : String
  marker : Marker
  poolSize : Nat
deriving DecidableEq

def Settings.standard : Settings := ⟨true, true, "static", .tilde, 64⟩

end PageAssembly
