import PageAssembly.Fragment.Basic
import PageAssembly.Language.Grammar

/-!
A source file gives a fragment under its own name and one for each definition in it.
-/

namespace PageAssembly

open PageAssembly.Language (SourceError)

inductive FragmentError where
  | notFound (name : String)
  | malformed (name : String) (error : SourceError)
  | notText (name : String)

def FragmentError.message : FragmentError → String
  | .notFound name => "template not found: " ++ name
  | .malformed name error => "parse error in " ++ name ++ ": " ++ error.message
  | .notText name => "template " ++ name ++ " is not valid UTF-8"

structure SourceFile where
  root : Fragment
  definitions : List Fragment

namespace SourceFile

def name (file : SourceFile) : String :=
  file.root.name

def fragments (file : SourceFile) : List Fragment :=
  file.root :: file.definitions

def ofBody (name : String) (body : Language.Body) : SourceFile :=
  let (kept, definitions) := Fragment.split body
  ⟨⟨name, kept⟩, definitions⟩

def parse (name source : String) : Except FragmentError SourceFile :=
  match Language.parse source with
  | .ok body => .ok (ofBody name body)
  | .error error => .error (.malformed name error)

def parseBytes (name : String) (bytes : Bytes) : Except FragmentError SourceFile :=
  match Text.decode? bytes with
  | some source => parse name source
  | none => .error (.notText name)

end SourceFile

end PageAssembly
