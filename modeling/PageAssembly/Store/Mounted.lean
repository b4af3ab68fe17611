import PageAssembly.Store.Basic
import PageAssembly.Store.Marker
import PageAssembly.Table

/-!
A main store with others mounted beside it under names. Marked names go to the others.
-/

namespace PageAssembly

structure MountedStore where
  main : Store
  others : List (String × Store)
  marker : Marker

structure Route where
  mounted : Option String
  path : String
deriving DecidableEq

namespace MountedStore

def ofMain (main : Store) (marker : Marker) : MountedStore := ⟨main, [], marker⟩

def mount (store : MountedStore) (name : String) (other : Store) : MountedStore :=
  { store with others := Table.put store.others name other }

/-- A name marked for a store that is not mounted leads to the main store, without its mark. -/
def route (store : MountedStore) (name : String) : Route :=
  match store.marker.split name with
  | (some other, path) => if Table.has store.others other then ⟨some other, path⟩ else ⟨none, path⟩
  | (none, path) => ⟨none, path⟩

def target (store : MountedStore) (route : Route) : Store :=
  match route.mounted with
  | some other => (Table.get? store.others other).getD store.main
  | none => store.main

/-- A file that is missing is reported under the name that was asked for. -/
def read (store : MountedStore) (name : String) : Except StoreError Bytes :=
  let route := store.route name
  match (store.target route).read route.path with
  | .ok data => .ok data
  | .error (.notFound _) => .error (.notFound name)
  | .error error => .error error

def toStore (store : MountedStore) : Store := ⟨store.read⟩

end MountedStore

end PageAssembly
