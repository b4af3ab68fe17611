import PageAssembly.Proofs.Fragment.Collection
import PageAssembly.Proofs.Fragment.Declarations

/-!
The order in which a source lists its fragments. A declaration stands behind all that close before
it, so one that holds others stands behind these although it opens before them; of several of one
name a set keeps the one that closes last. For declarations next to each other this is the order in
which they open.
-/

namespace PageAssembly

open PageAssembly.Fragment (split splitNode)
open PageAssembly.Language (Body InOrder Lexeme Node Occurs Tree)

namespace Language

structure Node.Encloses (node : Node) : Prop where
  nonempty : node.span.start < node.span.stop
  ordered : InOrder node.children
  inside : ∀ child ∈ node.children,
    node.span.start < child.span.start ∧ child.span.stop < node.span.stop

/-- The nodes follow each other and enclose what stands in them, at any depth. -/
structure Arranged (body : Body) : Prop where
  ordered : InOrder body
  encloses : ∀ node, Occurs node body → node.Encloses

theorem Occurs.of_children {node around : Node} {body : Body} (occurs : Occurs node around.children)
    (member : around ∈ body) : Occurs node body := by
  cases occurs with
  | here inside =>
      obtain ⟨inner, known, inside⟩ := List.mem_flatten.mp inside
      exact .within member known (.here inside)
  | within inside known occurs =>
      obtain ⟨inner, also, inside⟩ := List.mem_flatten.mp inside
      exact .within member also (.within inside known occurs)

theorem Occurs.cons {node first : Node} {nodes : Body} (occurs : Occurs node nodes) :
    Occurs node (first :: nodes) := by
  cases occurs with
  | here member => exact .here (List.mem_cons_of_mem _ member)
  | within member known occurs => exact .within (List.mem_cons_of_mem _ member) known occurs

namespace Arranged

variable {node : Node} {nodes : Body} (arranged : Arranged (node :: nodes))

include arranged

theorem first : node.Encloses :=
  arranged.encloses node (.here List.mem_cons_self)

theorem children : Arranged node.children where
  ordered := arranged.first.ordered
  encloses inner occurs := arranged.encloses inner (occurs.of_children List.mem_cons_self)

theorem later : Arranged nodes where
  ordered := (List.pairwise_cons.mp arranged.ordered).2
  encloses inner occurs := arranged.encloses inner occurs.cons

end Arranged

namespace Tree

theorem edges {trees : List Tree} {node : Node} (member : node ∈ nodesOf trees) :
    (∃ first ∈ lexemesOf trees, first.span.start = node.span.start) ∧
      ∃ last ∈ lexemesOf trees, last.span.stop = node.span.stop := by
  obtain ⟨earlier, tree, later, rfl, rfl⟩ := of_mem_nodesOf member rfl
  obtain ⟨first, others, same, -, start⟩ := tree.begins
  obtain ⟨last, isLast, stop⟩ := tree.ends
  have among : ∀ lexeme ∈ tree.lexemes, lexeme ∈ lexemesOf (earlier ++ tree :: later) := by
    intro lexeme known
    rw [lexemesOf_append, lexemesOf]
    exact List.mem_append_right _ (List.mem_append_left _ known)
  have isFirst : first ∈ tree.lexemes := by
    rw [same]
    exact List.mem_cons_self
  exact ⟨⟨first, among first isFirst, start⟩,
    last, among last (List.mem_of_mem_getLast? isLast), stop⟩

/-- Around what stands in a node there is a lexeme before it and one behind it. -/
theorem framed (tree : Tree) (holds : tree.node.children ≠ []) :
    ∃ trees first middle last, nodesOf trees = tree.node.children ∧
      tree.lexemes = first :: (middle ++ [last]) ∧ (lexemesOf trees).Sublist middle := by
  cases tree with
  | text content => exact absurd rfl holds
  | single braces leaf =>
      cases leaf <;> exact absurd rfl holds
  | nested braces head body finish =>
      refine ⟨body, ⟨.openAction, braces.opened⟩, head.lexemes ++ [⟨.closeAction, braces.closed⟩] ++
        (lexemesOf body ++ [⟨.openAction, finish.braces.opened⟩, ⟨.keyword .finish, finish.word⟩]),
        ⟨.closeAction, finish.braces.closed⟩, ?_, ?_, ?_⟩
      · rw [Tree.node]
        cases head <;> simp [Head.opening, Opening.node, Node.children, Node.bodies]
      · simp [Tree.lexemes, Mark.lexemes, Braces.around]
      · exact (List.sublist_append_left _ _).trans (List.sublist_append_right _ _)
  | choice braces word kind path body alternative otherwise finish =>
      refine ⟨body ++ otherwise, ⟨.openAction, braces.opened⟩,
        (Head.control word kind path).lexemes ++ [⟨.closeAction, braces.closed⟩] ++
          (lexemesOf body ++ (alternative.lexemes .alternative ++ (lexemesOf otherwise ++
            [⟨.openAction, finish.braces.opened⟩, ⟨.keyword .finish, finish.word⟩]))),
        ⟨.closeAction, finish.braces.closed⟩, ?_, ?_, ?_⟩
      · rw [nodesOf_append]
        simp [Tree.node, Node.children, Node.bodies]
      · simp [Tree.lexemes, Mark.lexemes, Braces.around]
      · rw [lexemesOf_append]
        apply (List.Sublist.append_left _ _).trans (List.sublist_append_right _ _)
        exact (List.sublist_append_left _ _).trans (List.sublist_append_right _ _)

theorem encloses {tree : Tree}
    (ordered : tree.lexemes.Pairwise fun earlier later => earlier.span.stop ≤ later.span.start)
    (nonempty : ∀ lexeme ∈ tree.lexemes, lexeme.span.start < lexeme.span.stop) :
    tree.node.Encloses := by
  obtain ⟨first, others, same, -, start⟩ := tree.begins
  obtain ⟨last, isLast, stop⟩ := tree.ends
  have isFirst : first ∈ tree.lexemes := by
    rw [same]
    exact List.mem_cons_self
  constructor
  · have inside := bounds ordered nonempty isFirst
    have wide := nonempty first isFirst
    omega
  · obtain ⟨trees, children, within⟩ := tree.children_within
    rw [← children]
    exact nodesOf_inOrder (ordered.sublist within)
  · intro child member
    obtain ⟨trees, before, middle, behind, children, spelled, within⟩ :=
      tree.framed (List.ne_nil_of_mem member)
    rw [← children] at member
    obtain ⟨⟨left, isLeft, leftStart⟩, right, isRight, rightStop⟩ := edges member
    -- the frame is made of the first lexeme and the last
    rw [spelled] at same isLast ordered nonempty
    obtain ⟨rfl, -⟩ := List.cons.inj same
    rw [← List.cons_append, List.getLast?_concat] at isLast
    obtain rfl := Option.some.inj isLast
    obtain ⟨startsApart, inner⟩ := List.pairwise_cons.mp ordered
    have low := startsApart left (List.mem_append_left _ (within.subset isLeft))
    have high := (List.pairwise_append.mp inner).2.2 right (within.subset isRight) behind
      List.mem_cons_self
    have someBefore := nonempty before List.mem_cons_self
    have someBehind := nonempty behind
      (List.mem_cons_of_mem _ (List.mem_append_right _ List.mem_cons_self))
    omega

end Tree

theorem arranged_of_parse {source : String} {body : Body} (parsed : parse source = .ok body) :
    Arranged body := by
  obtain ⟨lexemes, scanned, trees, rfl, rfl⟩ := parse_eq_ok_iff.mp parsed
  have lossless := scan_lossless scanned
  refine ⟨Tree.nodesOf_inOrder lossless.ordered, fun node occurs => ?_⟩
  have nothing : ∀ lexeme ∈ ([] : List Lexeme).head?, lexeme.token.begins = true := nofun
  obtain ⟨tree, before, rest, rfl, parted, -⟩ := Tree.exists_tree occurs rfl nothing
  rw [List.append_nil] at parted
  have part : tree.lexemes.Sublist (Tree.lexemesOf trees) := by
    rw [parted]
    exact (List.sublist_append_left _ _).trans (List.sublist_append_right _ _)
  exact Tree.encloses (lossless.ordered.sublist part)
    fun lexeme member => (lossless.within lexeme (part.subset member)).1

end Language

namespace Declaration

/-- The other one opens and closes in this one. -/
def Encloses (declaration other : Declaration) : Prop :=
  declaration.span.start < other.span.start ∧ other.span.stop < declaration.span.stop

/-- This one opens first. The other one stands behind it or in it. -/
structure OpensBefore (declaration other : Declaration) : Prop where
  start : declaration.span.start < other.span.start
  apart : declaration.span.stop ≤ other.span.start ∨ other.span.stop < declaration.span.stop

end Declaration

/-- It opens last of all declarations of its name. -/
structure OpensLast (declared : List Declaration) (declaration : Declaration) : Prop where
  member : declaration ∈ declared
  last : ∀ other ∈ declared, other.name = declaration.name →
    other.span.start ≤ declaration.span.start

/-- It closes last of all declarations of its name. -/
structure ClosesLast (declared : List Declaration) (declaration : Declaration) : Prop where
  member : declaration ∈ declared
  last : ∀ other ∈ declared, other.name = declaration.name →
    other.span.stop ≤ declaration.span.stop

/-- The declarations of a body in the order in which they close, which is the order in which
splitting lists what they declare. -/
structure ClosingOrder (body : Body) (closing : List Declaration) : Prop where
  all : closing.Perm (declaredIn body)
  ordered : closing.Pairwise fun one other => one.span.stop < other.span.stop
  listed : (split body).2 = closing.map Declaration.fragment

theorem declaration_span {node : Node} {declaration : Declaration}
    (found : node.declaration? = some declaration) : declaration.span = node.span := by
  cases node <;> cases found <;> rfl

theorem eq_or_related {α : Type} {related : α → α → Prop} {items : List α}
    (ordered : items.Pairwise related) {one other : α} (member : one ∈ items) (also : other ∈ items) :
    one = other ∨ related one other ∨ related other one := by
  induction items with
  | nil => cases member
  | cons item items induction =>
      obtain ⟨first, later⟩ := List.pairwise_cons.mp ordered
      rcases List.mem_cons.mp member with rfl | behind <;>
        rcases List.mem_cons.mp also with rfl | last
      · exact .inl rfl
      · exact .inr (.inl (first other last))
      · exact .inr (.inr (first one behind))
      · exact induction later behind last

theorem declared_within {body : Body} (arranged : Language.Arranged body) :
    ∀ declaration ∈ declaredIn body, declaration.span.start < declaration.span.stop ∧ ∃ node ∈ body,
      node.span.start ≤ declaration.span.start ∧ declaration.span.stop ≤ node.span.stop := by
  induction body using body_induction with
  | nil => exact List.forall_mem_nil _
  | cons node nodes inside later =>
      intro declaration member
      rw [declaredIn, declaredInNode_eq] at member
      rcases List.mem_append.mp member with own | behind
      · rcases List.mem_append.mp own with itself | inner
        · rw [declaration_span (Option.mem_toList.mp itself)]
          exact ⟨arranged.first.nonempty, node, List.mem_cons_self, Nat.le_refl _, Nat.le_refl _⟩
        · obtain ⟨wide, child, known, low, high⟩ := inside arranged.children declaration inner
          have bounds := arranged.first.inside child known
          refine ⟨wide, node, List.mem_cons_self, ?_, ?_⟩ <;> omega
      · obtain ⟨wide, other, known, bounds⟩ := later arranged.later declaration behind
        exact ⟨wide, other, List.mem_cons_of_mem _ known, bounds⟩

theorem declared_apart {node : Node} {nodes : Body} (arranged : Language.Arranged (node :: nodes)) :
    ∀ one ∈ declaredInNode node, ∀ other ∈ declaredIn nodes,
      one.span.start < other.span.start ∧ one.span.stop ≤ other.span.start := by
  intro one member other behind
  rw [declaredInNode_eq] at member
  obtain ⟨-, later, known, low, -⟩ := declared_within arranged.later other behind
  have follows := (List.pairwise_cons.mp arranged.ordered).1 later known
  have whole := arranged.first.nonempty
  rcases List.mem_append.mp member with itself | inner
  · rw [declaration_span (Option.mem_toList.mp itself)]
    omega
  · obtain ⟨wide, child, inside, -, high⟩ := declared_within arranged.children one inner
    have bounds := arranged.first.inside child inside
    omega

theorem opens_in_order {body : Body} (arranged : Language.Arranged body) :
    (declaredIn body).Pairwise Declaration.OpensBefore := by
  induction body using body_induction with
  | nil => exact .nil
  | cons node nodes inside later =>
      rw [declaredIn, List.pairwise_append]
      refine ⟨?_, later arranged.later, fun one member other behind => ?_⟩
      · rw [declaredInNode_eq]
        cases own : node.declaration? with
        | none => exact inside arranged.children
        | some declaration =>
            refine List.pairwise_cons.mpr ⟨fun other inner => ?_, inside arranged.children⟩
            obtain ⟨-, child, known, low, high⟩ := declared_within arranged.children other inner
            have bounds := arranged.first.inside child known
            rw [← declaration_span own] at bounds
            exact ⟨by omega, .inr (by omega)⟩
      · have apart := declared_apart arranged one member other behind
        exact ⟨apart.1, .inl apart.2⟩

theorem exists_closingOrder {body : Body} (arranged : Language.Arranged body) :
    ∃ closing, ClosingOrder body closing := by
  induction body using body_induction with
  | nil => exact ⟨[], .nil, .nil, rfl⟩
  | cons node nodes inside later =>
      obtain ⟨inner, innerAll, innerOrdered, innerListed⟩ := inside arranged.children
      obtain ⟨behind, behindAll, behindOrdered, behindListed⟩ := later arranged.later
      have same : (inner ++ node.declaration?.toList).Perm (declaredInNode node) := by
        rw [declaredInNode_eq]
        exact List.perm_append_comm.trans (innerAll.append_left _)
      refine ⟨inner ++ node.declaration?.toList ++ behind, ?_, ?_, ?_⟩
      · rw [declaredIn]
        exact same.append behindAll
      · rw [List.pairwise_append]
        refine ⟨?_, behindOrdered, fun one member other last => ?_⟩
        · rw [List.pairwise_append]
          refine ⟨innerOrdered, ?_, fun one member other itself => ?_⟩
          · cases node.declaration? with
            | none => exact .nil
            | some declaration => exact List.pairwise_singleton _ _
          · -- the node closes behind all that stands in it
            obtain ⟨-, child, known, -, high⟩ :=
              declared_within arranged.children one (innerAll.mem_iff.mp member)
            have bounds := arranged.first.inside child known
            rw [declaration_span (Option.mem_toList.mp itself)]
            omega
        · have declared := behindAll.mem_iff.mp last
          have apart := declared_apart arranged one (same.mem_iff.mp member) other declared
          have wide := (declared_within arranged.later other declared).1
          omega
      · simp only [split, defined_splitNode, innerListed, behindListed, List.map_append]
        cases node.declaration? <;> rfl

/-- The two orders are the same if no declaration stands in another one. -/
theorem ClosingOrder.eq_iff {body : Body} {closing : List Declaration}
    (closes : ClosingOrder body closing) (arranged : Language.Arranged body) :
    closing = declaredIn body ↔
      ∀ one ∈ declaredIn body, ∀ other ∈ declaredIn body, ¬ one.Encloses other := by
  have opens := opens_in_order arranged
  constructor
  · intro same one member other also encloses
    have both := opens.and (same ▸ closes.ordered)
    rcases eq_or_related both member also with rfl | before | after
    · exact Nat.lt_irrefl _ encloses.1
    · exact Nat.lt_asymm before.2 encloses.2
    · exact Nat.lt_asymm after.1.start encloses.1
  · intro level
    apply List.Perm.eq_of_pairwise _ closes.ordered _ closes.all
    · intro one other _ _ before after
      exact absurd before (Nat.lt_asymm after)
    · apply opens.imp_of_mem
      intro one other member also before
      have wide := (declared_within arranged other also).1
      rcases before.apart with apart | inside
      · omega
      · exact absurd ⟨before.start, inside⟩ (level one member other also)

/-- A set finds the declaration that closes last. -/
theorem ClosingOrder.merge {body : Body} {closing : List Declaration}
    (closes : ClosingOrder body closing) {declaration : Declaration}
    (last : ClosesLast (declaredIn body) declaration) (name : String) (set : FragmentSet) :
    (set.merge (SourceFile.ofBody name body)).find? declaration.name =
      some declaration.fragment := by
  obtain ⟨before, after, cut⟩ := List.append_of_mem (closes.all.mem_iff.mpr last.member)
  have behind : declaration.name ∉ (after.map Declaration.fragment).map Fragment.name := by
    intro known
    obtain ⟨fragment, listed, same⟩ := List.mem_map.mp known
    obtain ⟨other, member, rfl⟩ := List.mem_map.mp listed
    have ordered := closes.ordered
    rw [cut] at ordered
    have later := (List.pairwise_cons.mp (List.pairwise_append.mp ordered).2.1).1 other member
    have declared : other ∈ declaredIn body := by
      rw [← closes.all.mem_iff, cut]
      exact List.mem_append_right _ (List.mem_cons_of_mem _ member)
    exact absurd (last.last other declared same) (Nat.not_le.mpr later)
  have fragments : (SourceFile.ofBody name body).fragments =
      (⟨name, (split body).1⟩ :: before.map Declaration.fragment) ++
        ([declaration.fragment] ++ after.map Declaration.fragment) := by
    have listed := closes.listed
    rw [cut, List.map_append, List.map_cons] at listed
    simp only [SourceFile.fragments, SourceFile.ofBody, listed]
    rfl
  rw [FragmentSet.merge, FragmentSet.find?_insertAll, fragments, lastNamed?_append,
    lastNamed?_append, lastNamed?_eq_none_iff.mpr behind]
  simp [lastNamed?, Declaration.fragment]

/-- What opens last of a name closes last of it unless it stands in another one of the name. -/
theorem OpensLast.closesLast_iff {body : Body} (arranged : Language.Arranged body)
    {declaration : Declaration} (opensLast : OpensLast (declaredIn body) declaration) :
    ClosesLast (declaredIn body) declaration ↔
      ∀ other ∈ declaredIn body, other.name = declaration.name → ¬ other.Encloses declaration := by
  have opens := opens_in_order arranged
  constructor
  · intro closesLast other member same encloses
    exact absurd (closesLast.last other member same) (Nat.not_le.mpr encloses.2)
  · intro bare
    refine ⟨opensLast.member, fun other member same => ?_⟩
    rcases eq_or_related opens member opensLast.member with rfl | before | after
    · exact Nat.le_refl _
    · have wide := (declared_within arranged declaration opensLast.member).1
      rcases before.apart with apart | inside
      · omega
      · exact absurd ⟨before.start, inside⟩ (bare other member same)
    · exact absurd (opensLast.last other member same) (Nat.not_le.mpr after.start)

/-- The fragments that a source declares are listed in the order in which their declarations close.
This is the order in which they open exactly if none stands in another one. Of the declarations of a
name a set keeps the one that closes last, which is the one that opens last unless that stands in
another one of the name. -/
theorem declared_in_closing_order {source : String} {body : Body}
    (parsed : Language.parse source = .ok body) (name : String) :
    ∃ file closing, SourceFile.parse name source = .ok file ∧
      file.definitions = closing.map Declaration.fragment ∧
      closing.Perm (declaredIn body) ∧
      (closing.Pairwise fun one other => one.span.stop < other.span.stop) ∧
      ((declaredIn body).Pairwise fun one other => one.span.start < other.span.start) ∧
      (closing = declaredIn body ↔
        ∀ one ∈ declaredIn body, ∀ other ∈ declaredIn body, ¬ one.Encloses other) ∧
      (∀ declaration, ClosesLast (declaredIn body) declaration →
        ∀ set : FragmentSet,
          (set.merge file).find? declaration.name = some declaration.fragment) ∧
      ∀ declaration, OpensLast (declaredIn body) declaration →
        (ClosesLast (declaredIn body) declaration ↔
          ∀ other ∈ declaredIn body, other.name = declaration.name →
            ¬ other.Encloses declaration) := by
  have arranged := Language.arranged_of_parse parsed
  obtain ⟨closing, closes⟩ := exists_closingOrder arranged
  refine ⟨SourceFile.ofBody name body, closing, ?_, closes.listed, closes.all, closes.ordered, ?_,
    closes.eq_iff arranged, ?_, ?_⟩
  · rw [SourceFile.parse, parsed]
  · exact (opens_in_order arranged).imp fun before => before.start
  · intro declaration last set
    exact closes.merge last name set
  · intro declaration last
    exact last.closesLast_iff arranged

def redefiningSource : String :=
  "\x7b\x7b define \"a\" \x7d\x7d1\x7b\x7b define \"a\" \x7d\x7d2\x7b\x7b end \x7d\x7d\x7b\x7b end \x7d\x7d"

def redefiningTrees : List Tree :=
  [.nested ⟨⟨0, 2⟩, ⟨14, 16⟩⟩ (.define ⟨3, 9⟩ ⟨"a", ⟨10, 13⟩⟩)
    [.text ⟨"1", ⟨16, 17⟩⟩,
      .nested ⟨⟨17, 19⟩, ⟨31, 33⟩⟩ (.define ⟨20, 26⟩ ⟨"a", ⟨27, 30⟩⟩) [.text ⟨"2", ⟨33, 34⟩⟩]
        ⟨⟨⟨34, 36⟩, ⟨41, 43⟩⟩, ⟨37, 40⟩⟩]
    ⟨⟨⟨43, 45⟩, ⟨50, 52⟩⟩, ⟨46, 49⟩⟩]

def innerDeclaration : Declaration := ⟨⟨17, 43⟩, "a", [.text ⟨33, 34⟩ "2"]⟩

def outerDeclaration : Declaration :=
  ⟨⟨0, 52⟩, "a", [.text ⟨16, 17⟩ "1", .define ⟨17, 43⟩ "a" [.text ⟨33, 34⟩ "2"]]⟩

def redefiningBody : Body :=
  [.define ⟨0, 52⟩ "a" [.text ⟨16, 17⟩ "1", .define ⟨17, 43⟩ "a" [.text ⟨33, 34⟩ "2"]]]

theorem redefiningSource_parsed : Language.parse redefiningSource = .ok redefiningBody := by
  have scanned : Language.scan redefiningSource = .ok (Tree.lexemesOf redefiningTrees) := by
    decide +kernel
  exact Language.parse_eq_ok_iff.mpr ⟨_, scanned, redefiningTrees, rfl, rfl⟩

theorem redefining_in_closing_order :
    Language.parse redefiningSource = .ok redefiningBody ∧
    ∃ file closing, SourceFile.parse "page" redefiningSource = .ok file ∧
      file.definitions = closing.map Declaration.fragment ∧
      closing.Perm (declaredIn redefiningBody) ∧
      (closing.Pairwise fun one other => one.span.stop < other.span.stop) ∧
      ((declaredIn redefiningBody).Pairwise fun one other => one.span.start < other.span.start) ∧
      (closing = declaredIn redefiningBody ↔
        ∀ one ∈ declaredIn redefiningBody, ∀ other ∈ declaredIn redefiningBody,
          ¬ one.Encloses other) ∧
      (∀ declaration, ClosesLast (declaredIn redefiningBody) declaration →
        ∀ set : FragmentSet,
          (set.merge file).find? declaration.name = some declaration.fragment) ∧
      ∀ declaration, OpensLast (declaredIn redefiningBody) declaration →
        (ClosesLast (declaredIn redefiningBody) declaration ↔
          ∀ other ∈ declaredIn redefiningBody, other.name = declaration.name →
            ¬ other.Encloses declaration) :=
  ⟨redefiningSource_parsed, declared_in_closing_order redefiningSource_parsed "page"⟩

/-- The inner definition opens last, is listed first, and is not the one that a set keeps. -/
theorem inner_listed_first :
    ∃ file, SourceFile.parse "page" redefiningSource = .ok file ∧
      declaredIn redefiningBody = [outerDeclaration, innerDeclaration] ∧
      file.definitions = [innerDeclaration.fragment, outerDeclaration.fragment] ∧
      file.definitions ≠ (declaredIn redefiningBody).map Declaration.fragment ∧
      OpensLast (declaredIn redefiningBody) innerDeclaration ∧
      ∀ set : FragmentSet, (set.merge file).find? "a" ≠ some innerDeclaration.fragment := by
  have declared : declaredIn redefiningBody = [outerDeclaration, innerDeclaration] := rfl
  have different : outerDeclaration.fragment ≠ innerDeclaration.fragment := by
    intro same
    cases same
  refine ⟨SourceFile.ofBody "page" redefiningBody, ?_, declared, rfl, ?_, ?_, fun set kept => ?_⟩
  · rw [SourceFile.parse, redefiningSource_parsed]
  · intro same
    rw [declared] at same
    exact different (List.cons.inj same).1.symm
  · rw [declared]
    refine ⟨List.mem_cons_of_mem _ List.mem_cons_self, ?_⟩
    intro other member _
    rcases List.mem_pair.mp member with rfl | rfl
    · exact Nat.zero_le _
    · exact Nat.le_refl _
  · have last : lastNamed? (SourceFile.ofBody "page" redefiningBody).fragments "a" =
        some outerDeclaration.fragment := rfl
    rw [FragmentSet.merge, FragmentSet.find?_insertAll, last, Option.some_or] at kept
    exact different (Option.some.inj kept)

end PageAssembly
