import Mathlib.Data.List.SplitBy
import PageAssembly.Fragment.Execution

/-!
A rendering is written in pieces. Joined they are what the execution of a page writes, and what a
JSON value is printed as; only the capacity of a buffer tells how it was cut.
-/

namespace PageAssembly

open PageAssembly.Language (Body Node)

namespace Output

def joined (output : Output (List Bytes)) : Output :=
  ⟨output.bytes.flatten, output.failure⟩

theorem joined_write (bytes : Bytes) :
    (write bytes : Output (List Bytes)).joined = write bytes := by
  cases bytes with
  | nil => rfl
  | cons byte bytes => simp [joined, write, Form.piece]

theorem joined_fail (error : ExecutionError) :
    (fail error : Output (List Bytes)).joined = fail error := rfl

theorem joined_andThen (output : Output (List Bytes)) (next : Unit → Output (List Bytes)) :
    (output.andThen next).joined = output.joined.andThen fun _ => (next ()).joined := by
  obtain ⟨pieces, _ | error⟩ := output
  · simp only [joined, andThen, List.flatten_append]
  · rfl

theorem joined_onEach {α : Type} (run : α → Output (List Bytes)) (items : List α) :
    (onEach run items).joined = onEach (fun item => (run item).joined) items := by
  induction items with
  | nil => rfl
  | cons item items induction => rw [onEach, joined_andThen, induction, onEach]

end Output

namespace Execution

section

variable (slots : Slots) (root : Json) (invoke : String → Json → Output (List Bytes))
  (fragment : String)

mutual

theorem joined_ofNode (node : Node) (dot : Json) :
    (ofNode slots root invoke fragment node dot).joined =
      ofNode slots root (fun name dot => (invoke name dot).joined) fragment node dot := by
  cases node with
  | text => exact Output.joined_write _
  | output => exact Output.joined_write _
  | slot _ name =>
      simp only [ofNode]
      split
      · exact Output.joined_write _
      · exact Output.joined_fail _
  | invoke => rfl
  | block => rfl
  | define => rfl
  | control _ kind path body otherwise =>
      have inBody := joined_ofBody body
      have inOtherwise := joined_ofBody otherwise
      cases kind with
      | condition =>
          simp only [ofNode]
          split
          · exact inBody dot
          · exact inOtherwise dot
      | scope =>
          simp only [ofNode]
          split
          · exact inBody _
          · exact inOtherwise dot
      | each =>
          simp only [ofNode]
          split
          · exact inOtherwise dot
          · simp only [Output.joined_onEach, inBody]
          · exact Output.joined_fail _

theorem joined_ofBody (body : Body) (dot : Json) :
    (ofBody slots root invoke fragment body dot).joined =
      ofBody slots root (fun name dot => (invoke name dot).joined) fragment body dot := by
  cases body with
  | nil => rfl
  | cons node nodes =>
      have first := joined_ofNode node dot
      have later := joined_ofBody nodes dot
      simp only [ofBody, Output.joined_andThen, first, later]

end

end

theorem joined_ofInvocation (set : FragmentSet) (slots : Slots) (root : Json) (depth : Nat)
    (name : String) (dot : Json) :
    (ofInvocation set slots root depth name dot : Output (List Bytes)).joined =
      ofInvocation set slots root depth name dot := by
  induction depth generalizing name dot with
  | zero => exact Output.joined_fail _
  | succ depth induction =>
      simp only [ofInvocation]
      split
      · exact Output.joined_fail _
      · simp only [joined_ofBody, induction]

end Execution

/-- However an execution ends, it has written the same bytes at once as in pieces. -/
theorem joined_execute (set : FragmentSet) (main : String) (data : Json) (slots : Slots) :
    (execute set main data slots : Output (List Bytes)).joined = execute set main data slots :=
  Execution.joined_ofInvocation set slots data maxDepth main data

theorem flatten_map_flatMap {α β : Type} (write : α → List β) (chunks : List (List α)) :
    (chunks.map fun chunk => chunk.flatMap write).flatten = chunks.flatten.flatMap write := by
  rw [List.flatMap_def, List.map_flatten, List.flatten_flatten, List.map_map]
  rfl

namespace Json

theorem flatten_stringPieces (text : String) : (stringPieces text).flatten = printString text := by
  simp only [stringPieces, List.flatten_append, List.flatten_cons, List.flatten_nil,
    flatten_map_flatMap, List.flatten_splitBy]
  rfl

mutual

theorem flatten_pieces (value : Json) : value.pieces.flatten = value.print := by
  cases value with
  | null => rfl
  | bool truth => exact List.append_nil _
  | number number => exact List.append_nil _
  | string text => exact flatten_stringPieces text
  | array items =>
      simp only [pieces, print, List.flatten_append, List.flatten_cons, flatten_itemPieces items]
      rfl
  | object fields =>
      simp only [pieces, print, List.flatten_append, List.flatten_cons, flatten_fieldPieces fields]
      rfl

theorem flatten_itemPieces (items : List Json) :
    (itemPieces items).flatten = printItems items := by
  cases items with
  | nil => rfl
  | cons item items =>
      have first := flatten_pieces item
      cases items with
      | nil => exact first
      | cons next items =>
          have later := flatten_itemPieces (next :: items)
          simp only [itemPieces, printItems, List.flatten_append, List.flatten_cons, first, later]
          rfl

theorem flatten_fieldPieces (fields : List (String × Json)) :
    (fieldPieces fields).flatten = printFields fields := by
  cases fields with
  | nil => rfl
  | cons field fields =>
      obtain ⟨name, value⟩ := field
      have named := flatten_stringPieces name
      have first := flatten_pieces value
      cases fields with
      | nil =>
          simp only [fieldPieces, printFields, List.flatten_append, List.flatten_cons, named, first]
          rfl
      | cons next fields =>
          have later := flatten_fieldPieces (next :: fields)
          simp only [fieldPieces, printFields, List.flatten_append, List.flatten_cons, named, first,
            later, List.append_assoc]
          rfl

end

example : (Json.array [.string "a\"bc", .null]).pieces =
    [['['], ['"'], ['a'], ['\\', '"'], ['b', 'c'], ['"'], [','], ['n', 'u', 'l', 'l'], [']']] := by
  decide

theorem flatten_encode_pieces (value : Json) :
    (value.pieces.map Text.encode).flatten = Text.encode value.print := by
  rw [← value.flatten_pieces]
  exact flatten_map_flatMap String.utf8EncodeChar value.pieces

end Json

end PageAssembly
