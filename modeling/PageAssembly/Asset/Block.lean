import PageAssembly.Asset.Basic
import PageAssembly.Html.Escape
import PageAssembly.Json.Printer
import PageAssembly.Policy.Basic

/-!
The blocks of markup that bring assets into a page. Each block also adds to the policy what its
elements need.
-/

namespace PageAssembly

inductive Delivery where
  | inline
  | linked (place : String)
deriving DecidableEq

namespace Block

/-- The address of an asset below a place; slashes around the place and before the name do not
count. -/
def address (place name : String) : String :=
  let place := Text.dropTrailing '/' (Text.dropLeading '/' place.toList)
  let name := Text.dropLeading '/' name.toList
  if place.isEmpty then
    String.ofList ('/' :: name)
  else
    String.ofList ('/' :: place ++ '/' :: name)

def linkTo (place : String) (asset : Asset) : Bytes :=
  Text.encode (Html.escapeAttribute (address place asset.name).toList)

def lines : List Bytes → Bytes
  | [] => []
  | [element] => element
  | element :: elements => element ++ 0x0a :: lines elements

def wrap (opening : String) (content : Bytes) (closing : String) : Bytes :=
  Text.encodeString opening ++ content ++ Text.encodeString closing

def styleElement (content : Bytes) : Bytes :=
  wrap "<style>" content "</style>"

def scriptElement (content : Bytes) : Bytes :=
  wrap "<script>" content "</script>"

/-- What allows linked assets: nothing is needed when there are none. -/
def linkSources (assets : List Asset) : List String :=
  if assets.isEmpty then [] else ["'self'"]

def css (assets : List Asset) (delivery : Delivery) (policy : Policy) : Bytes × Policy :=
  match delivery with
  | .inline =>
      (lines (assets.map fun asset => styleElement asset.data),
        policy.append "style-src" (assets.map Asset.source))
  | .linked place =>
      (lines (assets.map fun asset =>
          wrap "<link rel=\"stylesheet\" href=\"" (linkTo place asset) "\">"),
        policy.append "style-src" (linkSources assets))

/-- A slash behind a less-than sign gets a backslash, so that no end tag can stand in the text. -/
def guardEndTags : List Char → List Char
  | [] => []
  | '<' :: '/' :: rest => '<' :: '\\' :: '/' :: guardEndTags rest
  | c :: rest => c :: guardEndTags rest

def environmentText (environment : List (String × Json)) : List Char :=
  guardEndTags (Json.object environment).print

def environmentScript (environment : List (String × Json)) : Bytes :=
  Text.encodeString "window.Env = (function () \x7b const env = " ++
    Text.encode (environmentText environment) ++
    Text.encodeString "; return function (key) \x7b return env[key]; \x7d; \x7d)();"

/-- The script with the values comes first if there are values. -/
def js (assets : List Asset) (environment : List (String × Json)) (delivery : Delivery)
    (policy : Policy) : Bytes × Policy :=
  let scripts := if environment.isEmpty then [] else [environmentScript environment]
  let elements := scripts.map scriptElement
  let sources := scripts.map fun script => hashSource (sha256 script)
  match delivery with
  | .inline =>
      (lines (elements ++ assets.map fun asset => scriptElement asset.data),
        policy.append "script-src" (sources ++ assets.map Asset.source))
  | .linked place =>
      (lines (elements ++ assets.map fun asset =>
          wrap "<script src=\"" (linkTo place asset) "\"></script>"),
        policy.append "script-src" (linkSources assets ++ sources))

end Block

end PageAssembly
