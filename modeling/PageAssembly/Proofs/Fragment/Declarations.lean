import PageAssembly.Proofs.Fragment.Splitting
import PageAssembly.Proofs.Language.Nesting

/-!
The definitions and blocks of a document, each of which declares a fragment. Splitting takes every
one of them out of the body around it, once, and what the document invokes is invoked by the
fragments, each invocation by one of them.
-/

namespace PageAssembly

open PageAssembly.Fragment (invocationsOf invocationsOfNode split splitNode undivided)
open PageAssembly.Language (Body Node Span)

/-- A definition or a block, from where its action opens to where its end closes. -/
structure Declaration where
  span : Span
  name : String
  body : Body

/-- What is declared: the body without the declarations in it. -/
def Declaration.fragment (declaration : Declaration) : Fragment :=
  ⟨declaration.name, (split declaration.body).1⟩

namespace Language.Node

def declaration? : Node → Option Declaration
  | .define span name body => some ⟨span, name, body⟩
  | .block span name _ body => some ⟨span, name, body⟩
  | _ => none

def invoked? : Node → Option String
  | .invoke _ name _ => some name
  | .block _ name _ _ => some name
  | _ => none

end Language.Node

mutual

def declaredInNode : Node → List Declaration
  | .text _ _ => []
  | .output _ _ => []
  | .slot _ _ => []
  | .invoke _ _ _ => []
  | .control _ _ _ body otherwise => declaredIn body ++ declaredIn otherwise
  | .define span name body => ⟨span, name, body⟩ :: declaredIn body
  | .block span name _ body => ⟨span, name, body⟩ :: declaredIn body

/-- The definitions and blocks of a body at any depth, in the order in which they open. -/
def declaredIn : Body → List Declaration
  | [] => []
  | node :: nodes => declaredInNode node ++ declaredIn nodes

end

theorem sizeOf_append_le (nodes later : Body) :
    sizeOf (nodes ++ later) ≤ sizeOf nodes + sizeOf later := by
  induction nodes with
  | nil =>
      rw [List.nil_append]
      omega
  | cons node nodes induction =>
      rw [List.cons_append, List.cons.sizeOf_spec, List.cons.sizeOf_spec]
      omega

/-- To show something of all bodies, it may be assumed of what stands in the first node and of the
nodes behind it. -/
theorem body_induction {stated : Body → Prop} (nil : stated [])
    (cons : ∀ node nodes, stated node.children → stated nodes → stated (node :: nodes)) :
    ∀ body, stated body
  | [] => nil
  | node :: nodes =>
      cons node nodes (body_induction nil cons node.children) (body_induction nil cons nodes)
termination_by body => sizeOf body
decreasing_by
  · cases node with
    | control span kind path body otherwise =>
        have both := sizeOf_append_le body otherwise
        simp [Node.children, Node.bodies]
        omega
    | _ =>
        simp [Node.children, Node.bodies]
        try omega
  · rw [List.cons.sizeOf_spec]
    omega

theorem invocationsOf_append (nodes later : Body) :
    invocationsOf (nodes ++ later) = invocationsOf nodes ++ invocationsOf later := by
  induction nodes with
  | nil => rfl
  | cons node nodes induction =>
      rw [List.cons_append, invocationsOf, invocationsOf, induction, List.append_assoc]

theorem declaredIn_append (nodes later : Body) :
    declaredIn (nodes ++ later) = declaredIn nodes ++ declaredIn later := by
  induction nodes with
  | nil => rfl
  | cons node nodes induction =>
      rw [List.cons_append, declaredIn, declaredIn, induction, List.append_assoc]

theorem declaredInNode_eq (node : Node) :
    declaredInNode node = node.declaration?.toList ++ declaredIn node.children := by
  cases node <;>
    simp [declaredInNode, declaredIn, declaredIn_append, Node.declaration?, Node.children,
      Node.bodies]

theorem defined_splitNode (node : Node) :
    (splitNode node).2 =
      (split node.children).2 ++ (node.declaration?.map Declaration.fragment).toList := by
  cases node <;>
    simp [splitNode, split, Fragment.split_append, Declaration.fragment, Node.declaration?,
      Node.children, Node.bodies]

theorem invocationsOfNode_eq (node : Node) :
    invocationsOfNode node = node.invoked?.toList ++ invocationsOf node.children := by
  cases node <;>
    simp [invocationsOfNode, invocationsOf, invocationsOf_append, Node.invoked?, Node.children,
      Node.bodies]

/-- What a node invokes itself stays where it is; what stands in the node is split on its own. -/
theorem invocations_splitNode (node : Node) :
    (invocationsOf (splitNode node).1 ++ (splitNode node).2.flatMap Fragment.invocations).Perm
      (node.invoked?.toList ++ (invocationsOf (split node.children).1 ++
        (split node.children).2.flatMap Fragment.invocations)) := by
  cases node with
  | define span name body =>
      simp [splitNode, invocationsOf, Node.invoked?, Node.children, Node.bodies, Fragment.invocations,
        List.perm_append_comm]
  | block span name argument body =>
      simp [splitNode, invocationsOf, invocationsOfNode, Node.invoked?, Node.children, Node.bodies,
        Fragment.invocations, List.perm_append_comm]
  | control span kind path body otherwise =>
      simp [splitNode, invocationsOf, invocationsOfNode, invocationsOf_append, Fragment.split_append,
        Node.invoked?, Node.children, Node.bodies]
  | _ =>
      simp [splitNode, split, invocationsOf, invocationsOfNode, Node.invoked?, Node.children,
        Node.bodies]

namespace Fragment

theorem length_defined_split (body : Body) : (split body).2.length = (declaredIn body).length := by
  induction body using body_induction with
  | nil => rfl
  | cons node nodes inside later =>
      simp only [split, declaredIn, defined_splitNode, declaredInNode_eq, List.length_append, inside,
        later]
      cases node.declaration? with
      | none => simp
      | some declaration =>
          simp
          omega

theorem invocations_split (body : Body) :
    (invocationsOf (split body).1 ++ (split body).2.flatMap Fragment.invocations).Perm
      (invocationsOf body) := by
  induction body using body_induction with
  | nil => exact .nil
  | cons node nodes inside later =>
      have first := (invocations_splitNode node).trans (inside.append_left _)
      rw [← invocationsOfNode_eq] at first
      simp only [split, invocationsOf, invocationsOf_append, List.flatMap_append]
      refine .trans ?_ (first.append later)
      rw [List.append_assoc, List.append_assoc]
      apply List.Perm.append_left
      apply List.perm_append_comm_assoc

theorem undivided_defined (body : Body) :
    ∀ fragment ∈ (split body).2, undivided fragment.body = true := by
  induction body using body_induction with
  | nil => exact List.forall_mem_nil _
  | cons node nodes inside later =>
      intro fragment member
      simp only [split, defined_splitNode] at member
      rcases List.mem_append.mp member with own | behind
      · rcases List.mem_append.mp own with inner | last
        · exact inside fragment inner
        · obtain ⟨declaration, -, rfl⟩ := Option.map_eq_some_iff.mp (Option.mem_toList.mp last)
          exact undivided_split declaration.body
      · exact later fragment behind

end Fragment

/-- A source that can be parsed gives one fragment more than it has definitions and blocks. None of
them has a definition or a block left in it, and together they invoke what the document does, every
invocation of it once. -/
theorem splitting_loses_nothing {source : String} {body : Body}
    (parsed : Language.parse source = .ok body) (name : String) :
    ∃ file, SourceFile.parse name source = .ok file ∧
      (∀ fragment ∈ file.fragments, undivided fragment.body = true) ∧
      file.fragments.length = 1 + (declaredIn body).length ∧
      (file.fragments.flatMap Fragment.invocations).Perm (invocationsOf body) := by
  refine ⟨SourceFile.ofBody name body, ?_, ?_, ?_, ?_⟩
  · rw [SourceFile.parse, parsed]
  · intro fragment member
    rcases List.mem_cons.mp member with rfl | defined
    · exact Fragment.undivided_split body
    · exact Fragment.undivided_defined body fragment defined
  · rw [SourceFile.fragments, List.length_cons, ← Fragment.length_defined_split, Nat.add_comm]
    rfl
  · exact Fragment.invocations_split body

def nestedSource : String :=
  "\x7b\x7b if .x \x7d\x7d\x7b\x7b define \"a\" \x7d\x7d\x7b\x7b block \"b\" . \x7d\x7d1\x7b\x7b end \x7d\x7d\x7b\x7b end \x7d\x7d" ++
    "\x7b\x7b end \x7d\x7d\x7b\x7b template \"a\" \x7d\x7d"

def nestedTrees : List Language.Tree :=
  [.nested ⟨⟨0, 2⟩, ⟨9, 11⟩⟩ (.control ⟨3, 5⟩ .condition ⟨⟨false, ["x"]⟩, ⟨6, 8⟩⟩)
      [.nested ⟨⟨11, 13⟩, ⟨25, 27⟩⟩ (.define ⟨14, 20⟩ ⟨"a", ⟨21, 24⟩⟩)
        [.nested ⟨⟨27, 29⟩, ⟨42, 44⟩⟩ (.block ⟨30, 35⟩ ⟨"b", ⟨36, 39⟩⟩ (some ⟨.dot, ⟨40, 41⟩⟩))
          [.text ⟨"1", ⟨44, 45⟩⟩] ⟨⟨⟨45, 47⟩, ⟨52, 54⟩⟩, ⟨48, 51⟩⟩]
        ⟨⟨⟨54, 56⟩, ⟨61, 63⟩⟩, ⟨57, 60⟩⟩]
      ⟨⟨⟨63, 65⟩, ⟨70, 72⟩⟩, ⟨66, 69⟩⟩,
    .single ⟨⟨72, 74⟩, ⟨88, 90⟩⟩ (.invoke ⟨75, 83⟩ ⟨"a", ⟨84, 87⟩⟩ none)]

def nestedBody : Body :=
  [.control ⟨0, 72⟩ .condition ⟨false, ["x"]⟩
      [.define ⟨11, 63⟩ "a" [.block ⟨27, 54⟩ "b" (some .dot) [.text ⟨44, 45⟩ "1"]]] [],
    .invoke ⟨72, 90⟩ "a" none]

theorem nested_loses_nothing :
    Language.parse nestedSource = .ok nestedBody ∧
    ∃ file, SourceFile.parse "page" nestedSource = .ok file ∧
      (∀ fragment ∈ file.fragments, undivided fragment.body = true) ∧
      file.fragments.length = 1 + (declaredIn nestedBody).length ∧
      (file.fragments.flatMap Fragment.invocations).Perm (invocationsOf nestedBody) := by
  have scanned : Language.scan nestedSource = .ok (Language.Tree.lexemesOf nestedTrees) := by
    decide +kernel
  have parsed : Language.parse nestedSource = .ok nestedBody :=
    Language.parse_eq_ok_iff.mpr ⟨_, scanned, nestedTrees, rfl, rfl⟩
  exact ⟨parsed, splitting_loses_nothing parsed "page"⟩

end PageAssembly
