import PageAssembly.Http.Headers

/-!
The part of a request that hooks can see.
-/

namespace PageAssembly

structure Request where
  method : String
  path : String
  headers : Headers
deriving DecidableEq

namespace Request

/-- The path of a target ends at a question mark or a number sign. A target with scheme and host has
at least the path of a slash, a host alone has none. -/
def pathOfTarget (target : String) : String :=
  let pathOf (text : List Char) : List Char := text.takeWhile fun c => c != '?' && c != '#'
  match target.toList with
  | '/' :: rest => String.ofList (pathOf ('/' :: rest))
  | ['*'] => "*"
  | text =>
      match Text.cut? [':', '/', '/'] text with
      | none => ""
      | some (_, rest) =>
          let path := pathOf (rest.dropWhile fun c => c != '/' && c != '?' && c != '#')
          if path.isEmpty then "/" else String.ofList path

end Request

end PageAssembly
