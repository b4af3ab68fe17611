import PageAssembly.Proofs.Language.Derivation

/-!
Nodes as source, and which nodes a source can say. The printer puts one blank before each part of an
action and one before its closing braces; an alternative is written only if it has nodes.
-/

namespace PageAssembly.Language

def actionOpening : List Char := ['\x7b', '\x7b']

def actionClosing : List Char := ['\x7d', '\x7d']

def spaced : List (List Char) → List Char
  | [] => [' ']
  | part :: parts => ' ' :: (part ++ spaced parts)

def action (parts : List (List Char)) : List Char :=
  actionOpening ++ (spaced parts ++ actionClosing)

def escapedChar (c : Char) : List Char :=
  if c = '"' ∨ c = '\\' then ['\\', c] else [c]

def quotedPart (name : String) : List Char :=
  '"' :: name.toList.flatMap escapedChar ++ ['"']

def Path.part (path : Path) : List Char :=
  path.print.toList

def Keyword.part (word : Keyword) : List Char :=
  word.spelling.toList

def argumentParts (argument : Option Path) : List (List Char) :=
  (argument.map Path.part).toList

mutual

def Node.source : Node → List Char
  | .text _ content => content.toList
  | .output _ path => action [path.part]
  | .slot _ name => action [name.toList]
  | .invoke _ name argument =>
      action (Keyword.template.part :: quotedPart name :: argumentParts argument)
  | .control _ kind path body otherwise =>
      action [kind.keyword.part, path.part] ++ (sourceOf body ++
        ((if otherwise.isEmpty then []
          else action [Keyword.alternative.part] ++ sourceOf otherwise) ++
          action [Keyword.finish.part]))
  | .define _ name body =>
      action [Keyword.define.part, quotedPart name] ++ (sourceOf body ++ action [Keyword.finish.part])
  | .block _ name argument body =>
      action (Keyword.block.part :: quotedPart name :: argumentParts argument) ++
        (sourceOf body ++ action [Keyword.finish.part])

def Node.sourceOf : List Node → List Char
  | [] => []
  | node :: nodes => node.source ++ sourceOf nodes

end

/-- A letter of ASCII or an underscore, then such letters, digits and underscores. -/
def IsName (name : String) : Prop :=
  ∃ first rest, name.toList = first :: rest ∧ (first.isAlpha ∨ first = '_') ∧
    ∀ c ∈ rest, c.isAlphanum ∨ c = '_'

def IsSlotName (name : String) : Prop :=
  IsName name ∧ ∀ word : Keyword, word.spelling ≠ name

def Path.Printable (path : Path) : Prop :=
  ∀ name ∈ path.names, IsName name

def IsPlain (content : String) : Prop :=
  content ≠ "" ∧ ¬ actionOpening <:+: content.toList

/-- What follows the text could be taken for a part of opening braces. -/
def EndsOpen (content : String) : Prop :=
  content.toList.getLast? = some '\x7b'

def Node.content? : Node → Option String
  | .text _ content => some content
  | _ => none

mutual

def Node.Printable : Node → Prop
  | .text _ content => IsPlain content
  | .output _ path => path.Printable
  | .slot _ name => IsSlotName name
  | .invoke _ _ argument => ∀ path ∈ argument, path.Printable
  | .control _ _ path body otherwise =>
      path.Printable ∧ PrintableIn false body ∧ PrintableIn false otherwise
  | .define _ _ body => PrintableIn false body
  | .block _ _ argument body => (∀ path ∈ argument, path.Printable) ∧ PrintableIn false body

/-- The nodes of one body. A text stands next to no other text, and it ends in an opening brace only
if it is the end of the whole document; `last` tells whether the body ends the document. -/
def Node.PrintableIn (last : Bool) : List Node → Prop
  | [] => True
  | node :: nodes =>
      node.Printable ∧
        (∀ content ∈ node.content?, (∀ next ∈ nodes.head?, next.content? = none) ∧
          (EndsOpen content → last ∧ nodes = [])) ∧
        PrintableIn last nodes

end

def Body.Printable (body : Body) : Prop :=
  Node.PrintableIn true body

mutual

def Node.bare : Node → Node
  | .text _ content => .text default content
  | .output _ path => .output default path
  | .slot _ name => .slot default name
  | .invoke _ name argument => .invoke default name argument
  | .control _ kind path body otherwise =>
      .control default kind path (bareOf body) (bareOf otherwise)
  | .define _ name body => .define default name (bareOf body)
  | .block _ name argument body => .block default name argument (bareOf body)

def Node.bareOf : List Node → List Node
  | [] => []
  | node :: nodes => node.bare :: bareOf nodes

end

def Node.joinedWith : Node → List Node → List Node
  | .text span content, .text next more :: nodes =>
      .text ⟨span.start, next.stop⟩ (content ++ more) :: nodes
  | node, nodes => node :: nodes

mutual

def Node.joined : Node → Node
  | .control span kind path body otherwise =>
      .control span kind path (joinedOf body) (joinedOf otherwise)
  | .define span name body => .define span name (joinedOf body)
  | .block span name argument body => .block span name argument (joinedOf body)
  | node => node

/-- Neighbouring texts become one, in the body and in all bodies within. -/
def Node.joinedOf : List Node → List Node
  | [] => []
  | node :: nodes => node.joined.joinedWith (joinedOf nodes)

end

end PageAssembly.Language
