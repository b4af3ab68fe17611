import PageAssembly.Http.Headers
import PageAssembly.Policy.Basic

/-!
The policy of a response stands in one header field. Only the first value of the field is read, and
writing replaces all of them.
-/

namespace PageAssembly.Policy

def headerName : String := "content-security-policy"

def ofHeaders (headers : Headers) : Policy :=
  match headers.text? headerName with
  | some text => parse text
  | none => empty

/-- A policy without directives is not written. -/
def writeTo (policy : Policy) (headers : Headers) : Except HeaderError Headers :=
  if policy.directives.isEmpty then .ok headers
  else headers.insertText headerName policy.print

def appendToHeaders (headers : Headers) (name : String) (tokens : List String) :
    Except HeaderError Headers :=
  ((ofHeaders headers).append name tokens).writeTo headers

def appendToText (text name : String) (tokens : List String) : String :=
  ((parse text).append name tokens).print

end PageAssembly.Policy
