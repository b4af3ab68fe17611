import PageAssembly.Digest.Base64
import PageAssembly.Digest.Sha256
import PageAssembly.Text.Search

/-!
Assets are named contents. Two of the same content are the same, whatever their names.
-/

namespace PageAssembly

structure Asset where
  name : String
  data : Bytes
  digest : Digest
  digest_eq : digest = sha256 data

/-- What a policy calls a content that it allows. -/
def hashSource (digest : Digest) : String :=
  "'sha256-" ++ String.ofList (Base64.encode digest.bytes) ++ "'"

namespace Asset

def ofData (name : String) (data : Bytes) : Asset :=
  ⟨name, data, sha256 data, rfl⟩

def source (asset : Asset) : String :=
  hashSource asset.digest

def same (left right : Asset) : Bool :=
  left.digest = right.digest

end Asset

inductive IncludeKind where
  | template
  | css
  | js
deriving DecidableEq

namespace IncludeKind

/-- What stands behind the last point of the last segment of a name. -/
def extension? (name : String) : Option String :=
  let reversed := name.toList.reverse.takeWhile (· != '/')
  let ending := reversed.takeWhile (· != '.')
  if ending.length < reversed.length then some (String.ofList ending.reverse) else none

def ofName (name : String) : IncludeKind :=
  match extension? name with
  | some ending =>
      if Text.sameIgnoringCase ending "css" then .css
      else if Text.sameIgnoringCase ending "js" then .js
      else .template
  | none => .template

end IncludeKind

end PageAssembly
