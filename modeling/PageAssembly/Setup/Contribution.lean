import PageAssembly.Asset.Basic
import PageAssembly.Setup.Hook
import PageAssembly.Table

/-!
What is contributed to pages: to every page, or to those that need a fragment.
-/

namespace PageAssembly

inductive Scope where
  | everyPage
  | fragment (name : String)
deriving DecidableEq

structure Contributions where
  css : List Asset
  js : List Asset
  hooks : List Hook
  environment : List EnvironmentFunction

namespace Contributions

def none : Contributions := ⟨[], [], [], []⟩

def append (earlier later : Contributions) : Contributions :=
  ⟨earlier.css ++ later.css, earlier.js ++ later.js, earlier.hooks ++ later.hooks,
   earlier.environment ++ later.environment⟩

def ofCss (asset : Asset) : Contributions := { none with css := [asset] }

def ofJs (asset : Asset) : Contributions := { none with js := [asset] }

def ofHook (hook : Hook) : Contributions := { none with hooks := [hook] }

def ofEnvironment (function : EnvironmentFunction) : Contributions :=
  { none with environment := [function] }

end Contributions

/-- Contributions by scope, in the order in which they were made. -/
structure Registry where
  everyPage : Contributions
  byFragment : List (String × Contributions)

namespace Registry

def empty : Registry := ⟨.none, []⟩

def find (registry : Registry) : Scope → Contributions
  | .everyPage => registry.everyPage
  | .fragment name => (Table.get? registry.byFragment name).getD .none

def add (registry : Registry) (scope : Scope) (contributions : Contributions) : Registry :=
  let changed := (registry.find scope).append contributions
  match scope with
  | .everyPage => { registry with everyPage := changed }
  | .fragment name => { registry with byFragment := Table.put registry.byFragment name changed }

def extend (registry other : Registry) : Registry :=
  other.byFragment.foldl (fun registry (name, contributions) =>
    registry.add (.fragment name) contributions) (registry.add .everyPage other.everyPage)

end Registry

end PageAssembly
