import PageAssembly.Proofs.Language.Correspondence
import PageAssembly.Proofs.Language.Coverage
import PageAssembly.Proofs.Language.Parting

/-!
The spans of nodes. A node covers what it was read from: the bytes of its span alone are a source
that is parsed to this node and nothing else. So spans of neighbours follow each other, and what
stands in a node lies inside of its span.
-/

namespace PageAssembly.Language

open Text (byteSize encode encodeString)

/-- The bodies that stand in a node itself, not in another one in it. -/
def Node.bodies : Node → List Body
  | .control _ _ _ body otherwise => [body, otherwise]
  | .define _ _ body => [body]
  | .block _ _ _ body => [body]
  | _ => []

def Node.children (node : Node) : Body :=
  node.bodies.flatten

/-- The node stands in the body or, at any depth, in a node of it. -/
inductive Occurs (node : Node) : Body → Prop
  | here {body : Body} (member : node ∈ body) : Occurs node body
  | within {body inner : Body} {around : Node} (member : around ∈ body)
      (inside : inner ∈ around.bodies) (occurs : Occurs node inner) : Occurs node body

/-- Spans follow each other, without a byte in common. -/
def InOrder (nodes : Body) : Prop :=
  nodes.Pairwise fun earlier later => earlier.span.stop ≤ later.span.start

mutual

def Node.movedBy (offset : Nat) : Node → Node
  | .text span content => .text (span.movedBy offset) content
  | .output span path => .output (span.movedBy offset) path
  | .slot span name => .slot (span.movedBy offset) name
  | .invoke span name argument => .invoke (span.movedBy offset) name argument
  | .control span kind path body otherwise =>
      .control (span.movedBy offset) kind path (allMovedBy offset body) (allMovedBy offset otherwise)
  | .define span name body => .define (span.movedBy offset) name (allMovedBy offset body)
  | .block span name argument body =>
      .block (span.movedBy offset) name argument (allMovedBy offset body)

def Node.allMovedBy (offset : Nat) : List Node → List Node
  | [] => []
  | node :: nodes => node.movedBy offset :: allMovedBy offset nodes

end

/-- What the span of a node says of it. -/
structure SpanFaithful (source : Bytes) (node : Node) : Prop where
  within : node.span.start < node.span.stop ∧ node.span.stop ≤ source.length
  alone : ∃ part read, encodeString part = node.span.slice source ∧ parse part = .ok [read] ∧
    read.movedBy node.span.start = node
  ordered : InOrder node.children
  inside : ∀ child ∈ node.children,
    node.span.start ≤ child.span.start ∧ child.span.stop ≤ node.span.stop

theorem allMovedBy_append (offset : Nat) (nodes later : Body) :
    Node.allMovedBy offset (nodes ++ later) =
      Node.allMovedBy offset nodes ++ Node.allMovedBy offset later := by
  induction nodes with
  | nil => rfl
  | cons node nodes induction =>
      rw [List.cons_append, Node.allMovedBy, Node.allMovedBy, induction, List.cons_append]

theorem Opening.node_span (opening : Opening) (span : Span) (body otherwise : Body) :
    (opening.node span body otherwise).span = span := by
  cases opening <;> rfl

theorem Opening.node_movedBy (offset : Nat) (opening : Opening) (span : Span)
    (body otherwise : Body) :
    (opening.node span body otherwise).movedBy offset =
      opening.node (span.movedBy offset) (Node.allMovedBy offset body)
        (Node.allMovedBy offset otherwise) := by
  cases opening <;> rfl

def movedLikeness (offset : Nat) : Likeness where
  place position also := position = also + offset
  body nodes others := nodes = Node.allMovedBy offset others
  empty := rfl
  extended := by
    rintro nodes others node other rfl alike
    have moved {one also : Span}
        (spans : SpansAlike (fun position also => position = also + offset) one also) :
        one = also.movedBy offset := by
      obtain ⟨start, stop⟩ := one
      obtain ⟨rfl, rfl⟩ := spans
      rfl
    have same : node = other.movedBy offset := by
      cases alike with
      | opening spans opening firsts seconds =>
          rw [moved spans, firsts, seconds, opening.node_movedBy]
      | _ spans =>
          rw [moved spans]
          rfl
    rw [same, allMovedBy_append]
    rfl

theorem alike_movedBy (offset : Nat) (lexemes : List Lexeme) :
    List.Forall₂ (movedLikeness offset).Lexemes (lexemes.map (Lexeme.movedBy offset)) lexemes := by
  apply List.forall₂_map_left_iff.mpr
  apply List.forall₂_same.mpr
  intro lexeme _
  exact ⟨rfl, rfl, rfl⟩

namespace Tree

theorem begins (tree : Tree) : ∃ first others, tree.lexemes = first :: others ∧
    first.token.begins = true ∧ first.span.start = tree.node.span.start := by
  cases tree with
  | text content => exact ⟨_, _, rfl, rfl, rfl⟩
  | single braces leaf =>
      refine ⟨_, _, rfl, rfl, ?_⟩
      cases leaf <;> rfl
  | nested braces head body finish =>
      refine ⟨_, _, rfl, rfl, ?_⟩
      rw [Tree.node, Opening.node_span]
  | choice => exact ⟨_, _, rfl, rfl, rfl⟩

theorem ends (tree : Tree) : ∃ last, tree.lexemes.getLast? = some last ∧
    last.span.stop = tree.node.span.stop := by
  have closed (braces : Braces) (content : List Lexeme) :
      (braces.around content).getLast? = some ⟨.closeAction, braces.closed⟩ := by
    rw [Braces.around, ← List.cons_append, List.getLast?_concat]
  cases tree with
  | text content => exact ⟨_, rfl, rfl⟩
  | single braces leaf =>
      refine ⟨_, closed braces leaf.lexemes, ?_⟩
      cases leaf <;> rfl
  | nested braces head body finish =>
      refine ⟨⟨.closeAction, finish.braces.closed⟩, ?_, ?_⟩
      · simp only [Tree.lexemes, Mark.lexemes, List.getLast?_append, closed, Option.some_or]
      · rw [Tree.node, Opening.node_span]
  | choice braces word kind path body alternative otherwise finish =>
      refine ⟨⟨.closeAction, finish.braces.closed⟩, ?_, rfl⟩
      simp only [Tree.lexemes, Mark.lexemes, List.getLast?_append, closed, Option.some_or]

theorem lexemesOf_begins (trees : List Tree) {after : List Lexeme}
    (starts : ∀ lexeme ∈ after.head?, lexeme.token.begins = true) :
    ∀ lexeme ∈ (lexemesOf trees ++ after).head?, lexeme.token.begins = true := by
  cases trees with
  | nil => exact starts
  | cons tree trees =>
      obtain ⟨first, others, same, isFirst, -⟩ := tree.begins
      rw [lexemesOf, same]
      intro lexeme member
      obtain rfl := Option.some.inj member
      exact isFirst

theorem body_within (tree : Tree) {inner : Body} (member : inner ∈ tree.node.bodies) :
    ∃ trees before first rest, nodesOf trees = inner ∧ first.token.begins = true ∧
      tree.lexemes = before ++ (lexemesOf trees ++ first :: rest) := by
  cases tree with
  | text content => cases member
  | single braces leaf => cases leaf <;> cases member
  | nested braces head body finish =>
      have known : inner ∈ [nodesOf body, []] := by
        cases head with
        | control => exact member
        | _ => exact List.mem_pair.mpr (Or.inl (List.mem_singleton.mp member))
      rcases List.mem_pair.mp known with rfl | rfl
      · exact ⟨body, braces.around head.lexemes, _, _, rfl, rfl, rfl⟩
      · exact ⟨[], [], _, _, rfl, rfl, rfl⟩
  | choice braces word kind path body alternative otherwise finish =>
      rcases List.mem_pair.mp member with rfl | rfl
      · exact ⟨body, braces.around (Head.control word kind path).lexemes, _, _, rfl, rfl, rfl⟩
      · refine ⟨otherwise, braces.around (Head.control word kind path).lexemes ++
          (lexemesOf body ++ alternative.lexemes .alternative), ⟨.openAction, finish.braces.opened⟩,
          [⟨.keyword .finish, finish.word⟩, ⟨.closeAction, finish.braces.closed⟩], rfl, rfl, ?_⟩
        simp [Tree.lexemes, Mark.lexemes, Braces.around]

/-- All that stands in a node is made of lexemes of its tree, in their order. -/
theorem children_within (tree : Tree) :
    ∃ trees, nodesOf trees = tree.node.children ∧ (lexemesOf trees).Sublist tree.lexemes := by
  cases tree with
  | text content => exact ⟨[], rfl, List.nil_sublist _⟩
  | single braces leaf =>
      refine ⟨[], ?_, List.nil_sublist _⟩
      cases leaf <;> rfl
  | nested braces head body finish =>
      refine ⟨body, ?_, ?_⟩
      · rw [Tree.node]
        cases head <;> simp [Head.opening, Opening.node, Node.children, Node.bodies]
      · exact (List.sublist_append_left _ _).trans (List.sublist_append_right _ _)
  | choice braces word kind path body alternative otherwise finish =>
      refine ⟨body ++ otherwise, ?_, ?_⟩
      · rw [nodesOf_append]
        simp [Tree.node, Node.children, Node.bodies]
      · rw [lexemesOf_append, Tree.lexemes]
        apply (List.Sublist.append_left _ _).trans (List.sublist_append_right _ _)
        exact (List.sublist_append_left _ _).trans (List.sublist_append_right _ _)

theorem of_mem_nodesOf {node : Node} {body : Body} (member : node ∈ body) {trees : List Tree}
    (same : nodesOf trees = body) :
    ∃ (earlier : List Tree) (tree : Tree) (later : List Tree),
      trees = earlier ++ tree :: later ∧ tree.node = node := by
  subst same
  induction trees with
  | nil => cases member
  | cons tree trees induction =>
      rcases List.mem_cons.mp member with rfl | member
      · exact ⟨[], tree, trees, rfl, rfl⟩
      · obtain ⟨earlier, found, later, rfl, node⟩ := induction member
        exact ⟨tree :: earlier, found, later, rfl, node⟩

/-- The tree of a node that stands in the nodes of trees, and what stands around it. -/
theorem exists_tree {node : Node} {body : Body} (occurs : Occurs node body) {trees : List Tree}
    (same : nodesOf trees = body) {after : List Lexeme}
    (starts : ∀ lexeme ∈ after.head?, lexeme.token.begins = true) :
    ∃ (tree : Tree) (before rest : List Lexeme), tree.node = node ∧
      lexemesOf trees ++ after = before ++ (tree.lexemes ++ rest) ∧
      ∀ lexeme ∈ rest.head?, lexeme.token.begins = true := by
  induction occurs generalizing trees after with
  | here member =>
      obtain ⟨earlier, tree, later, rfl, node⟩ := of_mem_nodesOf member same
      refine ⟨tree, lexemesOf earlier, lexemesOf later ++ after, node, ?_,
        lexemesOf_begins later starts⟩
      rw [lexemesOf_append, lexemesOf, List.append_assoc, List.append_assoc]
  | within member inside _ induction =>
      obtain ⟨earlier, around, later, rfl, rfl⟩ := of_mem_nodesOf member same
      obtain ⟨trees, before, first, rest, inner, begins, spelled⟩ := around.body_within inside
      have goesOn : ∀ lexeme ∈ (first :: rest ++ (lexemesOf later ++ after)).head?,
          lexeme.token.begins = true := by
        intro lexeme isFirst
        obtain rfl := Option.some.inj isFirst
        exact begins
      obtain ⟨tree, between, behind, node, parted, follows⟩ := induction inner goesOn
      refine ⟨tree, lexemesOf earlier ++ (before ++ between), behind, node, ?_, follows⟩
      calc lexemesOf (earlier ++ around :: later) ++ after
          = lexemesOf earlier ++ (before ++ (lexemesOf trees ++
              (first :: rest ++ (lexemesOf later ++ after)))) := by
            rw [lexemesOf_append, lexemesOf, spelled]
            simp only [List.append_assoc]
        _ = lexemesOf earlier ++ (before ++ between) ++ (tree.lexemes ++ behind) := by
            rw [parted]
            simp only [List.append_assoc]

section

variable {tree : Tree}
  (ordered : tree.lexemes.Pairwise fun earlier later => earlier.span.stop ≤ later.span.start)
  (nonempty : ∀ lexeme ∈ tree.lexemes, lexeme.span.start < lexeme.span.stop)

include ordered nonempty

theorem bounds {lexeme : Lexeme} (member : lexeme ∈ tree.lexemes) :
    tree.node.span.start ≤ lexeme.span.start ∧ lexeme.span.stop ≤ tree.node.span.stop := by
  obtain ⟨first, others, same, -, start⟩ := tree.begins
  obtain ⟨last, isLast, stop⟩ := tree.ends
  obtain ⟨front, spelled⟩ := List.getLast?_eq_some_iff.mp isLast
  have here := nonempty lexeme member
  rw [← start, ← stop]
  constructor
  · rw [same] at ordered member
    rcases List.mem_cons.mp member with rfl | behind
    · exact Nat.le_refl _
    · have apart := (List.pairwise_cons.mp ordered).1 lexeme behind
      have before := nonempty first (by rw [same]; exact List.mem_cons_self)
      omega
  · rw [spelled] at ordered member
    rcases List.mem_append.mp member with before | isLast
    · have apart := (List.pairwise_append.mp ordered).2.2 lexeme before last List.mem_cons_self
      have behind := nonempty last (by rw [spelled]; exact List.mem_append_right _ List.mem_cons_self)
      omega
    · exact Nat.le_of_eq (congrArg (fun other => other.span.stop) (List.mem_singleton.mp isLast))

theorem children_inside : ∀ child ∈ tree.node.children,
    tree.node.span.start ≤ child.span.start ∧ child.span.stop ≤ tree.node.span.stop := by
  obtain ⟨inner, children, within⟩ := tree.children_within
  rw [← children]
  intro child member
  obtain ⟨earlier, other, later, rfl, rfl⟩ := of_mem_nodesOf member rfl
  have among : ∀ lexeme ∈ other.lexemes, lexeme ∈ tree.lexemes := by
    intro lexeme known
    apply within.subset
    rw [lexemesOf_append, lexemesOf]
    exact List.mem_append_right _ (List.mem_append_left _ known)
  obtain ⟨first, others, same, -, start⟩ := other.begins
  obtain ⟨last, isLast, stop⟩ := other.ends
  have isFirst : first ∈ other.lexemes := by
    rw [same]
    exact List.mem_cons_self
  have low := bounds ordered nonempty (among first isFirst)
  have high := bounds ordered nonempty (among last (List.mem_of_mem_getLast? isLast))
  rw [← start, ← stop]
  exact ⟨low.1, high.2⟩

end

theorem nodesOf_inOrder {trees : List Tree} (ordered : (lexemesOf trees).Pairwise
    fun earlier later => earlier.span.stop ≤ later.span.start) : InOrder (nodesOf trees) := by
  induction trees with
  | nil => exact .nil
  | cons tree trees induction =>
      obtain ⟨-, others, across⟩ := List.pairwise_append.mp ordered
      refine List.pairwise_cons.mpr ⟨fun node member => ?_, induction others⟩
      obtain ⟨earlier, other, later, rfl, rfl⟩ := of_mem_nodesOf member rfl
      obtain ⟨last, isLast, stop⟩ := tree.ends
      obtain ⟨first, more, same, -, start⟩ := other.begins
      rw [← stop, ← start]
      apply across last (List.mem_of_mem_getLast? isLast) first
      rw [lexemesOf_append, lexemesOf, same]
      exact List.mem_append_right _ List.mem_cons_self

end Tree

/-- The lexemes of a tree are what the source has there when it is scanned alone. -/
theorem exists_alone {source : String} {lexemes before rest : List Lexeme}
    (scanned : scan source = .ok lexemes) {tree : Tree}
    (parted : lexemes = before ++ (tree.lexemes ++ rest))
    (starts : ∀ lexeme ∈ rest.head?, lexeme.token.begins = true) :
    ∃ part read, encodeString part = tree.node.span.slice (encodeString source) ∧
      parse part = .ok [read] ∧ read.movedBy tree.node.span.start = tree.node := by
  obtain ⟨first, others, same, isFirst, start⟩ := tree.begins
  obtain ⟨last, isLast, stop⟩ := tree.ends
  obtain ⟨pieces, readable, spelled, known⟩ := exists_pieces scanned
  rw [parted, same, List.cons_append] at known
  obtain ⟨earlier, later, rfl, place, left⟩ := exists_parted_before known isFirst
  rw [← List.cons_append, ← same] at left
  obtain ⟨middle, behind, rfl, ending, here⟩ := exists_parted_behind left isLast starts
  have alone : scan (String.ofList (written middle)) = .ok (lexemesAt 0 middle) := by
    rw [scan, String.toList_ofList]
    exact lexemesFrom_pieces readable.right.left 0
  have moved := lexemesAt_movedBy first.span.start 0 middle
  rw [Nat.zero_add, here] at moved
  have derives : Derives tree.lexemes [tree.node] := by
    refine ⟨[tree], ?_, rfl⟩
    rw [Tree.lexemesOf, Tree.lexemesOf, List.append_nil]
  rw [moved] at derives
  obtain ⟨also, derived, nodes⟩ := Likeness.derives_alike (alike_movedBy _ _) derives
  refine ⟨String.ofList (written middle), ?_⟩
  cases also with
  | nil => cases nodes
  | cons read more =>
      obtain ⟨node, nothing⟩ := List.cons.inj nodes
      cases more with
      | cons => cases nothing
      | nil =>
          refine ⟨read, ?_, parse_eq_ok_iff.mpr ⟨_, alone, derived⟩, ?_⟩
          · have slice := slice_encode (written earlier) (written middle) (written behind)
            rw [Nat.zero_add] at place
            rw [place, ending, start, stop, ← written_append, ← written_append, spelled] at slice
            rw [Text.encodeString_ofList, ← slice]
            rfl
          · rw [← start]
            exact node.symm

/-- The spans of a source that is parsed are faithful to its nodes: in order in each body, and as
`SpanFaithful` says for every node. -/
theorem spans_faithful {source : String} {body : Body} (parsed : parse source = .ok body) :
    InOrder body ∧ ∀ node, Occurs node body → SpanFaithful (encodeString source) node := by
  obtain ⟨lexemes, scanned, trees, rfl, rfl⟩ := parse_eq_ok_iff.mp parsed
  have lossless := scan_lossless scanned
  refine ⟨Tree.nodesOf_inOrder lossless.ordered, fun node occurs => ?_⟩
  have nothing : ∀ lexeme ∈ ([] : List Lexeme).head?, lexeme.token.begins = true := nofun
  obtain ⟨tree, before, rest, rfl, parted, starts⟩ := Tree.exists_tree occurs rfl nothing
  rw [List.append_nil] at parted
  have part : tree.lexemes.Sublist (Tree.lexemesOf trees) := by
    rw [parted]
    exact (List.sublist_append_left _ _).trans (List.sublist_append_right _ _)
  have ordered := lossless.ordered.sublist part
  have nonempty : ∀ lexeme ∈ tree.lexemes, lexeme.span.start < lexeme.span.stop :=
    fun lexeme member => (lossless.within lexeme (part.subset member)).1
  obtain ⟨inner, children, within⟩ := tree.children_within
  rw [parted] at scanned
  constructor
  · obtain ⟨last, isLast, stop⟩ := tree.ends
    have member := List.mem_of_mem_getLast? isLast
    have bounds := Tree.bounds ordered nonempty member
    have inside := lossless.within last (part.subset member)
    omega
  · exact exists_alone scanned rfl starts
  · rw [← children]
    exact Tree.nodesOf_inOrder (ordered.sublist within)
  · exact Tree.children_inside ordered nonempty

/-- Nodes in a node, with a comment among them that holds a mark, and braces in a string. -/
def deepSource : String :=
  "a\x7b\x7b with .x \x7d\x7dé\x7b\x7b/* \x7b\x7b end \x7d\x7d */\x7d\x7d\x7b\x7b template \"\x7d\x7d\" \x7d\x7d" ++
    "\x7b\x7b else \x7d\x7db\x7b\x7b end \x7d\x7d"

def deepTrees : List Tree :=
  [.text ⟨"a", ⟨0, 1⟩⟩,
    .choice ⟨⟨1, 3⟩, ⟨12, 14⟩⟩ ⟨4, 8⟩ .scope ⟨⟨false, ["x"]⟩, ⟨9, 11⟩⟩
      [.text ⟨"é", ⟨14, 16⟩⟩,
        .single ⟨⟨35, 37⟩, ⟨52, 54⟩⟩ (.invoke ⟨38, 46⟩ ⟨"\x7d\x7d", ⟨47, 51⟩⟩ none)]
      ⟨⟨⟨54, 56⟩, ⟨62, 64⟩⟩, ⟨57, 61⟩⟩ [.text ⟨"b", ⟨64, 65⟩⟩]
      ⟨⟨⟨65, 67⟩, ⟨72, 74⟩⟩, ⟨68, 71⟩⟩]

def deepBody : Body :=
  [.text ⟨0, 1⟩ "a",
    .control ⟨1, 74⟩ .scope ⟨false, ["x"]⟩
      [.text ⟨14, 16⟩ "é", .invoke ⟨35, 54⟩ "\x7d\x7d" none] [.text ⟨64, 65⟩ "b"]]

theorem deepBody_faithful : parse deepSource = .ok deepBody ∧ InOrder deepBody ∧
    ∀ node, Occurs node deepBody → SpanFaithful (encodeString deepSource) node := by
  have scanned : scan deepSource = .ok (Tree.lexemesOf deepTrees) := by decide +kernel
  have parsed : parse deepSource = .ok deepBody :=
    parse_eq_ok_iff.mpr ⟨_, scanned, deepTrees, rfl, rfl⟩
  exact ⟨parsed, spans_faithful parsed⟩

end PageAssembly.Language
