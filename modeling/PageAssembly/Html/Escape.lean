import PageAssembly.Text.Search

/-!
Characters that mean something in markup are replaced by entities, one character after the other.
The ampersand comes first, so that no entity is replaced again.
-/

namespace PageAssembly.Html

def contentEntities : List (Char × String) :=
  [('&', "&amp;"), ('<', "&lt;"), ('>', "&gt;"), ('"', "&#34;"), ('\'', "&#39;")]

def attributeEntities : List (Char × String) :=
  [('&', "&amp;"), ('"', "&quot;"), ('<', "&lt;"), ('>', "&gt;")]

def replaceEach (entities : List (Char × String)) (text : List Char) : List Char :=
  entities.foldl (fun text (c, entity) => Text.replaceChar c entity.toList text) text

def escapeContent (text : List Char) : List Char :=
  replaceEach contentEntities text

def escapeAttribute (text : List Char) : List Char :=
  replaceEach attributeEntities text

end PageAssembly.Html
