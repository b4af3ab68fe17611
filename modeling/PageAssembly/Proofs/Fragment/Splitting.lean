import PageAssembly.Fragment.Execution
import PageAssembly.Proofs.Fragment.Collection

/-!
Splitting the definitions out of a fragment keeps what it means. A definition writes nothing where
it stands and a block is an invocation there, so the body that is left, in which no definition and
no block stands any more, does what the whole one did, whoever invokes it and however deep.
-/

namespace PageAssembly

open PageAssembly.Language (Body Node)
open PageAssembly.Fragment (split splitNode)

namespace Fragment

mutual

/-- The node is no definition and no block, and none stands in it. -/
def undividedNode : Node → Bool
  | .text _ _ => true
  | .output _ _ => true
  | .slot _ _ => true
  | .invoke _ _ _ => true
  | .control _ _ _ body otherwise => undivided body && undivided otherwise
  | .define _ _ _ => false
  | .block _ _ _ _ => false

/-- No definition and no block stands in the body, at any depth. -/
def undivided : Body → Bool
  | [] => true
  | node :: nodes => undividedNode node && undivided nodes

end

theorem undivided_append (nodes later : Body) :
    undivided (nodes ++ later) = (undivided nodes && undivided later) := by
  induction nodes with
  | nil => simp only [List.nil_append, undivided, Bool.true_and]
  | cons node nodes induction =>
      simp only [List.cons_append, undivided, induction, Bool.and_assoc]

theorem split_append (nodes later : Body) :
    split (nodes ++ later) =
      ((split nodes).1 ++ (split later).1, (split nodes).2 ++ (split later).2) := by
  induction nodes with
  | nil => rfl
  | cons node nodes induction => simp only [List.cons_append, split, induction, List.append_assoc]

mutual

theorem undivided_splitNode (node : Node) : undivided (splitNode node).1 = true := by
  cases node with
  | text => simp only [splitNode, undivided, undividedNode, Bool.and_self]
  | output => simp only [splitNode, undivided, undividedNode, Bool.and_self]
  | slot => simp only [splitNode, undivided, undividedNode, Bool.and_self]
  | invoke => simp only [splitNode, undivided, undividedNode, Bool.and_self]
  | define => simp only [splitNode, undivided]
  | block => simp only [splitNode, undivided, undividedNode, Bool.and_self]
  | control span kind path body otherwise =>
      have inBody := undivided_split body
      have inOtherwise := undivided_split otherwise
      simp only [splitNode, undivided, undividedNode, inBody, inOtherwise, Bool.and_self]

theorem undivided_split (body : Body) : undivided (split body).1 = true := by
  cases body with
  | nil => simp only [split, undivided]
  | cons node nodes =>
      have first := undivided_splitNode node
      have later := undivided_split nodes
      simp only [split, undivided_append, first, later, Bool.and_self]

end

mutual

/-- The names of the definitions and blocks in a node, itself included, in the order in which they
open. -/
def definedInNode : Node → List String
  | .text _ _ => []
  | .output _ _ => []
  | .slot _ _ => []
  | .invoke _ _ _ => []
  | .control _ _ _ body otherwise => definedIn body ++ definedIn otherwise
  | .define _ name body => name :: definedIn body
  | .block _ name _ body => name :: definedIn body

def definedIn : Body → List String
  | [] => []
  | node :: nodes => definedInNode node ++ definedIn nodes

end

mutual

theorem mem_names_splitNode (name : String) (node : Node) :
    name ∈ (splitNode node).2.map Fragment.name ↔ name ∈ definedInNode node := by
  cases node with
  | text => simp only [splitNode, definedInNode, List.map_nil]
  | output => simp only [splitNode, definedInNode, List.map_nil]
  | slot => simp only [splitNode, definedInNode, List.map_nil]
  | invoke => simp only [splitNode, definedInNode, List.map_nil]
  | control span kind path body otherwise =>
      have inBody := mem_names_split name body
      have inOtherwise := mem_names_split name otherwise
      simp only [splitNode, definedInNode, List.map_append, List.mem_append, inBody, inOtherwise]
  | define span own body =>
      have inBody := mem_names_split name body
      rw [splitNode, definedInNode, List.map_append, List.mem_append, inBody, List.map_singleton,
        List.mem_singleton, List.mem_cons, or_comm]
  | block span own argument body =>
      have inBody := mem_names_split name body
      rw [splitNode, definedInNode, List.map_append, List.mem_append, inBody, List.map_singleton,
        List.mem_singleton, List.mem_cons, or_comm]

theorem mem_names_split (name : String) (body : Body) :
    name ∈ (split body).2.map Fragment.name ↔ name ∈ definedIn body := by
  cases body with
  | nil => simp only [split, definedIn, List.map_nil]
  | cons node nodes =>
      have first := mem_names_splitNode name node
      have later := mem_names_split name nodes
      simp only [split, definedIn, List.map_append, List.mem_append, first, later]

end

end Fragment

namespace Output

theorem write_andThen (next : Unit → Output) : (write []).andThen next = next () := by
  simp [andThen, write]

theorem andThen_write (output : Output) : (output.andThen fun _ => write []) = output := by
  obtain ⟨bytes, _ | error⟩ := output
  · simp [andThen, write]
  · rfl

theorem andThen_assoc (output : Output) (next later : Unit → Output) :
    (output.andThen next).andThen later = output.andThen fun _ => (next ()).andThen later := by
  obtain ⟨bytes, _ | error⟩ := output
  · simp only [andThen]
    obtain ⟨more, _ | error⟩ := next ()
    · simp
    · rfl
  · rfl

end Output

namespace Execution

section

variable (slots : Slots) (root : Json) (invoke : String → Json → Output) (fragment : String)

theorem ofBody_single (node : Node) (dot : Json) :
    ofBody slots root invoke fragment [node] dot = ofNode slots root invoke fragment node dot := by
  simp only [ofBody]
  apply Output.andThen_write

theorem ofBody_append (nodes later : Body) (dot : Json) :
    ofBody slots root invoke fragment (nodes ++ later) dot =
      (ofBody slots root invoke fragment nodes dot).andThen fun _ =>
        ofBody slots root invoke fragment later dot := by
  induction nodes with
  | nil => simp only [List.nil_append, ofBody, Output.write_andThen]
  | cons node nodes induction =>
      simp only [List.cons_append, ofBody, induction, Output.andThen_assoc]

mutual

theorem ofBody_splitNode (node : Node) (dot : Json) :
    ofBody slots root invoke fragment (splitNode node).1 dot =
      ofNode slots root invoke fragment node dot := by
  cases node with
  | text => apply ofBody_single
  | output => apply ofBody_single
  | slot => apply ofBody_single
  | invoke => apply ofBody_single
  | define => simp only [splitNode, ofBody, ofNode]
  | block span name argument body =>
      -- the invocation that is left does what the block does where it stands
      simp only [splitNode, ofBody_single, ofNode]
  | control span kind path body otherwise =>
      have inBody : ofBody slots root invoke fragment (split body).1 =
          ofBody slots root invoke fragment body := by
        funext value
        apply ofBody_split
      have inOtherwise : ofBody slots root invoke fragment (split otherwise).1 =
          ofBody slots root invoke fragment otherwise := by
        funext value
        apply ofBody_split
      cases kind <;> simp only [splitNode, ofBody_single, ofNode, inBody, inOtherwise]

theorem ofBody_split (body : Body) (dot : Json) :
    ofBody slots root invoke fragment (split body).1 dot =
      ofBody slots root invoke fragment body dot := by
  cases body with
  | nil => simp only [split]
  | cons node nodes =>
      have first := ofBody_splitNode node dot
      have later := ofBody_split nodes dot
      simp only [split, ofBody_append, first, later, ofBody]

end

end

end Execution

/-- A fragment without its definitions. -/
def Fragment.kept (fragment : Fragment) : Fragment :=
  ⟨fragment.name, (split fragment.body).1⟩

/-- Each fragment is in the other set as it is, or without its definitions. -/
def FragmentSet.SplitInto (set other : FragmentSet) : Prop :=
  ∀ name, other.find? name = set.find? name ∨
    other.find? name = (set.find? name).map Fragment.kept

theorem FragmentSet.splitInto_insert (set : FragmentSet) (fragment : Fragment) :
    (set.insert fragment).SplitInto (set.insert fragment.kept) := by
  intro name
  rw [find?_insert, find?_insert]
  by_cases same : fragment.name = name
  · apply Or.inr
    simp [Fragment.kept, same]
  · apply Or.inl
    simp [Fragment.kept, same]

theorem Execution.ofInvocation_split {set other : FragmentSet} (splits : set.SplitInto other)
    (slots : Slots) (root : Json) (depth : Nat) :
    ofInvocation other slots root depth = ofInvocation set slots root depth := by
  induction depth with
  | zero => rfl
  | succ depth induction =>
      funext name dot
      rcases splits name with same | kept
      · simp only [ofInvocation, same, induction]
      · cases found : set.find? name with
        | none =>
            rw [found] at kept
            simp only [ofInvocation, found, kept, Option.map_none]
        | some fragment =>
            rw [found] at kept
            simp only [ofInvocation, found, kept, Option.map_some, induction]
            apply ofBody_split

/-- What splitting leaves of a body has no definitions and no blocks. Whether a fragment stands in a
set with them or without them, every execution over the set writes the same and ends the same way.
-/
theorem splitting_keeps_meaning (body : Body) (set : FragmentSet) (name main : String)
    (data : Json) (slots : Slots) :
    Fragment.undivided (split body).1 = true ∧
      execute (set.insert ⟨name, (split body).1⟩) main data slots =
        execute (set.insert ⟨name, body⟩) main data slots := by
  have splits := set.splitInto_insert ⟨name, body⟩
  have same := Execution.ofInvocation_split splits slots data maxDepth
  constructor
  · apply Fragment.undivided_split
  · unfold execute
    exact congrFun (congrFun same main) data

end PageAssembly
