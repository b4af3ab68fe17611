import PageAssembly.Fragment.Collection
import PageAssembly.Html.Escape
import PageAssembly.Json.Printer

/-!
Executing a fragment on a value writes bytes, up to the first error. Invocations nest at most a
hundred deep.
-/

namespace PageAssembly

open PageAssembly.Language (Body Control Node Path)

inductive ExecutionError where
  | missingFragment (name : String)
  | unknownSlot (slot fragment : String)
  | notIterable (path fragment : String)
  | tooDeep
deriving DecidableEq

def maxDepth : Nat := 100

def ExecutionError.message : ExecutionError → String
  | .missingFragment name => "template \"" ++ name ++ "\" is not defined"
  | .unknownSlot slot fragment =>
      "unknown slot \"" ++ slot ++ "\" in template \"" ++ fragment ++ "\""
  | .notIterable path fragment =>
      "range can't iterate over " ++ path ++ " in template \"" ++ fragment ++ "\""
  | .tooDeep => "exceeded maximum template depth (" ++ Text.decimalString maxDepth ++ ")"

/-- Markup that fragments may write as it is. -/
structure Slots where
  css : Bytes
  js : Bytes
  csp : Bytes

def Slots.get? (slots : Slots) (name : String) : Option Bytes :=
  if name = "css" then some slots.css
  else if name = "js" then some slots.js
  else if name = "csp" then some slots.csp
  else none

/-- A form of what is written. The bytes alone are one, the pieces in which they are written
another. -/
class Form (Written : Type) where
  piece : Bytes → Written

@[default_instance]
instance : Form Bytes := ⟨fun bytes => bytes⟩

@[simp]
theorem Form.piece_bytes (bytes : Bytes) : Form.piece bytes = bytes := rfl

/-- A piece without bytes is not written. -/
instance : Form (List Bytes) := ⟨fun bytes => if bytes.isEmpty then [] else [bytes]⟩

/-- What has been written, and the error that ended it if one did. -/
structure Output (Written : Type := Bytes) where
  bytes : Written
  failure : Option ExecutionError

namespace Output

variable {Written : Type} [Append Written] [Form Written]

def write (bytes : Bytes) : Output Written := ⟨Form.piece bytes, none⟩

def fail (error : ExecutionError) : Output Written := ⟨Form.piece [], some error⟩

def andThen (output : Output Written) (next : Unit → Output Written) : Output Written :=
  match output.failure with
  | some _ => output
  | none =>
      let later := next ()
      ⟨output.bytes ++ later.bytes, later.failure⟩

def onEach {α : Type} (run : α → Output Written) : List α → Output Written
  | [] => write []
  | item :: items => (run item).andThen fun _ => onEach run items

end Output

/-- Item numbers are decimal, below `2 ^ 64`, and may have a plus before them. -/
def itemNumber? (name : String) : Option Nat := do
  let digits :=
    match name.toList with
    | '+' :: digits => digits
    | digits => digits
  if digits.isEmpty then none
  else
    let number ← Text.valueIn? 10 digits
    if number < Text.wordLimit then some number else none

/-- A field of an object or an item of an array; what is not there is null. -/
def Json.member (value : Json) (name : String) : Json :=
  match value with
  | .object fields => (Table.get? fields name).getD .null
  | .array items =>
      match itemNumber? name with
      | some index => items.getD index .null
      | none => .null
  | _ => .null

/-- Text stands for itself, null for nothing, all else for its compact text. -/
def Json.shown : Json → List Char
  | .null => []
  | .string text => text.toList
  | value => value.print

def Json.items? : Json → Option (List Json)
  | .null => some []
  | .array items => some items
  | .object fields => some (fields.map Prod.snd)
  | _ => none

namespace Execution

def evaluate (root dot : Json) (path : Path) : Json :=
  path.names.foldl Json.member (if path.fromRoot then root else dot)

def argument (root dot : Json) : Option Path → Json
  | some path => evaluate root dot path
  | none => .null

variable {Written : Type} [Append Written] [Form Written]

section

variable (slots : Slots) (root : Json) (invoke : String → Json → Output Written) (fragment : String)

mutual

def ofNode (node : Node) (dot : Json) : Output Written :=
  match node with
  | .text _ content => .write (Text.encodeString content)
  | .output _ path =>
      .write (Text.encode (Html.escapeContent (evaluate root dot path).shown))
  | .slot _ name =>
      match slots.get? name with
      | some markup => .write markup
      | none => .fail (.unknownSlot name fragment)
  | .invoke _ name path => invoke name (argument root dot path)
  | .block _ name path _ => invoke name (argument root dot path)
  | .control _ .condition path body otherwise =>
      if (evaluate root dot path).holds then ofBody body dot else ofBody otherwise dot
  | .control _ .scope path body otherwise =>
      let value := evaluate root dot path
      if value.holds then ofBody body value else ofBody otherwise dot
  | .control _ .each path body otherwise =>
      match (evaluate root dot path).items? with
      | some [] => ofBody otherwise dot
      | some items => Output.onEach (ofBody body) items
      | none => .fail (.notIterable path.print fragment)
  | .define _ _ _ => .write []

def ofBody (body : Body) (dot : Json) : Output Written :=
  match body with
  | [] => .write []
  | node :: nodes => (ofNode node dot).andThen fun _ => ofBody nodes dot

end

end

/-- The output of an invocation that may nest `depth` deep, itself included. Depth is asked for
before the fragment is. -/
def ofInvocation (set : FragmentSet) (slots : Slots) (root : Json) :
    (depth : Nat) → (name : String) → (dot : Json) → Output Written
  | 0, _, _ => .fail .tooDeep
  | depth + 1, name, dot =>
      match set.find? name with
      | none => .fail (.missingFragment name)
      | some fragment =>
          ofBody slots root (ofInvocation set slots root depth) fragment.name fragment.body dot

end Execution

def execute {Written : Type} [Append Written] [Form Written] (set : FragmentSet) (main : String)
    (data : Json) (slots : Slots) : Output Written :=
  Execution.ofInvocation set slots data maxDepth main data

end PageAssembly
