import PageAssembly.Text.Search

/-!
A marked name says in which store it is to be looked up.
-/

namespace PageAssembly

/-- A tilde before the store and a slash behind it, or two colons behind it. -/
inductive Marker where
  | tilde
  | doubleColon
deriving DecidableEq

namespace Marker

def ofName? (name : String) : Option Marker :=
  if name = "tilde" then some .tilde
  else if name = "double-colon" then some .doubleColon
  else none

def cutStore? (sign : List Char) (text : List Char) : Option (String × String) :=
  match Text.cut? sign text with
  | some (store, path) =>
      if store.isEmpty then none else some (String.ofList store, String.ofList path)
  | none => none

/-- The store and the path in it; a name without a mark has no store and is its own path. -/
def split (marker : Marker) (name : String) : Option String × String :=
  let found :=
    match marker, name.toList with
    | .tilde, '~' :: rest => cutStore? ['/'] rest
    | .tilde, _ => none
    | .doubleColon, text => cutStore? [':', ':'] text
  match found with
  | some (store, path) => (some store, path)
  | none => (none, name)

def qualify (marker : Marker) (store path : String) : String :=
  match marker with
  | .tilde => "~" ++ store ++ "/" ++ path
  | .doubleColon => store ++ "::" ++ path

end Marker

end PageAssembly
