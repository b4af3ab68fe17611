import PageAssembly.Asset.Block
import PageAssembly.Fragment.Collection
import PageAssembly.Setup.Contribution

/-!
An assembled page: the fragments it can use, the one it starts from, and what goes with them.
-/

namespace PageAssembly

structure Page where
  main : String
  fragments : FragmentSet
  css : List Asset
  js : List Asset
  hooks : List Hook
  environment : List EnvironmentFunction
  inline : Bool
  place : String

def Page.delivery (page : Page) (inline : Option Bool) : Delivery :=
  if inline.getD page.inline then .inline else .linked page.place

end PageAssembly
