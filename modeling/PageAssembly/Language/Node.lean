import PageAssembly.Language.Token

/-!
What sources say: bodies of nodes. Every node knows the bytes of its source.
-/

namespace PageAssembly.Language

/-- A path leads from the current value, or from the value of the whole page, through fields. -/
structure Path where
  fromRoot : Bool
  names : List String
deriving DecidableEq, Inhabited

def Path.dot : Path := ⟨false, []⟩

def Path.print (path : Path) : String :=
  if path.names.isEmpty && !path.fromRoot then
    "."
  else
    (if path.fromRoot then "$" else "") ++ String.join (path.names.map fun name => "." ++ name)

/-- Choose by a value, repeat over its items, or make it the current one. -/
inductive Control where
  | condition
  | each
  | scope
deriving DecidableEq

inductive Node where
  | text (span : Span) (content : String)
  | output (span : Span) (path : Path)
  | slot (span : Span) (name : String)
  | invoke (span : Span) (name : String) (argument : Option Path)
  | control (span : Span) (kind : Control) (path : Path) (body otherwise : List Node)
  | define (span : Span) (name : String) (body : List Node)
  | block (span : Span) (name : String) (argument : Option Path) (body : List Node)

abbrev Body := List Node

instance : Inhabited Node := ⟨.text default ""⟩

def Node.span : Node → Span
  | .text span _ => span
  | .output span _ => span
  | .slot span _ => span
  | .invoke span _ _ => span
  | .control span _ _ _ _ => span
  | .define span _ _ => span
  | .block span _ _ _ => span

end PageAssembly.Language
