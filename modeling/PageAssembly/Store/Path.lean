import PageAssembly.Text.Search

/-!
Paths of a file system: names between slashes, counted from the top when a slash stands first.
-/

namespace PageAssembly.StorePath

inductive Component where
  | root
  | here
  | parent
  | name (name : String)
deriving DecidableEq

def Component.descends : Component → Bool
  | .here | .name _ => true
  | .root | .parent => false

def segments (path : String) : List String :=
  (Text.splitWhere (· == '/') path.toList).map String.ofList

def stays (segment : String) : Bool :=
  segment = "" || segment = "."

def isAbsolute (path : String) : Bool :=
  path.toList.head? == some '/'

def component? (segment : String) : Option Component :=
  if stays segment then none
  else if segment = ".." then some .parent
  else some (.name segment)

/-- Segments that stay where they are count for nothing, but for a dot at the start. -/
def components (path : String) : List Component :=
  let first :=
    if isAbsolute path then [.root]
    else if (segments path).head? = some "." then [.here]
    else []
  first ++ (segments path).filterMap component?

/-- A path that is followed from another one. An absolute path is its own place; a path that ends
with a slash needs no other. -/
def join (path other : String) : String :=
  if isAbsolute other then other
  else if path = "" ∨ path.toList.getLast? = some '/' then path ++ other
  else path ++ "/" ++ other

end PageAssembly.StorePath
