import PageAssembly.Language.Grammar

/-!
The grammar of lexemes, by the trees of its derivations. A tree holds every lexeme that it is made
of; it spells a list of lexemes and stands for a node. What a tree spells tells where it ends, so a
list of lexemes is spelled in one way only.
-/

namespace PageAssembly.Language

structure Located (α : Type) where
  value : α
  span : Span

structure Braces where
  opened : Span
  closed : Span

structure Mark where
  braces : Braces
  word : Span

/-- The content of an action that is a whole node: a path, an identifier, or `template`, a string
and perhaps a path. -/
inductive Leaf where
  | output (path : Located Path)
  | slot (name : Located String)
  | invoke (word : Span) (name : Located String) (argument : Option (Located Path))

/-- The content of an action that begins a body: `define` and a string, `block`, a string and
perhaps a path, or `if`, `range` or `with` and a path. -/
inductive Head where
  | define (word : Span) (name : Located String)
  | block (word : Span) (name : Located String) (argument : Option (Located Path))
  | control (word : Span) (kind : Control) (path : Located Path)

/-- The derivation of a node. Only a control can have a second body. -/
inductive Tree where
  | text (content : Located String)
  | single (braces : Braces) (leaf : Leaf)
  | nested (braces : Braces) (head : Head) (body : List Tree) (finish : Mark)
  | choice (braces : Braces) (word : Span) (kind : Control) (path : Located Path) (body : List Tree)
      (alternative : Mark) (otherwise : List Tree) (finish : Mark)

def Path.token (path : Path) : Token :=
  if path.fromRoot then .root path.names else .field path.names

def Control.keyword : Control → Keyword
  | .condition => .condition
  | .each => .each
  | .scope => .scope

def Located.path (path : Located Path) : Lexeme :=
  ⟨path.value.token, path.span⟩

def Located.quoted (name : Located String) : Lexeme :=
  ⟨.quoted name.value, name.span⟩

def Braces.around (braces : Braces) (content : List Lexeme) : List Lexeme :=
  ⟨.openAction, braces.opened⟩ :: (content ++ [⟨.closeAction, braces.closed⟩])

def Mark.lexemes (mark : Mark) (word : Keyword) : List Lexeme :=
  mark.braces.around [⟨.keyword word, mark.word⟩]

def Leaf.lexemes : Leaf → List Lexeme
  | .output path => [path.path]
  | .slot name => [⟨.identifier name.value, name.span⟩]
  | .invoke word name argument =>
      ⟨.keyword .template, word⟩ :: name.quoted :: (argument.map Located.path).toList

def Head.lexemes : Head → List Lexeme
  | .define word name => [⟨.keyword .define, word⟩, name.quoted]
  | .block word name argument =>
      ⟨.keyword .block, word⟩ :: name.quoted :: (argument.map Located.path).toList
  | .control word kind path => [⟨.keyword kind.keyword, word⟩, path.path]

mutual

def Tree.lexemes : Tree → List Lexeme
  | .text content => [⟨.text content.value, content.span⟩]
  | .single braces leaf => braces.around leaf.lexemes
  | .nested braces head body finish =>
      braces.around head.lexemes ++ (lexemesOf body ++ finish.lexemes .finish)
  | .choice braces word kind path body alternative otherwise finish =>
      braces.around (Head.control word kind path).lexemes ++ (lexemesOf body ++
        (alternative.lexemes .alternative ++ (lexemesOf otherwise ++ finish.lexemes .finish)))

def Tree.lexemesOf : List Tree → List Lexeme
  | [] => []
  | tree :: trees => tree.lexemes ++ lexemesOf trees

end

def Leaf.node (span : Span) : Leaf → Node
  | .output path => .output span path.value
  | .slot name => .slot span name.value
  | .invoke _ name argument => .invoke span name.value (argument.map Located.value)

def Head.opening : Head → Opening
  | .define _ name => .define name.value
  | .block _ name argument => .block name.value (argument.map Located.value)
  | .control _ kind path => .control kind path.value

mutual

def Tree.node : Tree → Node
  | .text content => .text content.span content.value
  | .single braces leaf => leaf.node ⟨braces.opened.start, braces.closed.stop⟩
  | .nested braces head body finish =>
      head.opening.node ⟨braces.opened.start, finish.braces.closed.stop⟩ (nodesOf body) []
  | .choice braces _ kind path body _ otherwise finish =>
      .control ⟨braces.opened.start, finish.braces.closed.stop⟩ kind path.value (nodesOf body)
        (nodesOf otherwise)

def Tree.nodesOf : List Tree → Body
  | [] => []
  | tree :: trees => tree.node :: nodesOf trees

end

namespace Tree

@[simp]
theorem lexemesOf_append (earlier later : List Tree) :
    lexemesOf (earlier ++ later) = lexemesOf earlier ++ lexemesOf later := by
  induction earlier with
  | nil => rfl
  | cons tree trees induction =>
      rw [List.cons_append, lexemesOf, lexemesOf, induction, List.append_assoc]

@[simp]
theorem nodesOf_append (earlier later : List Tree) :
    nodesOf (earlier ++ later) = nodesOf earlier ++ nodesOf later := by
  induction earlier with
  | nil => rfl
  | cons tree trees induction => rw [List.cons_append, nodesOf, nodesOf, induction, List.cons_append]

end Tree

theorem path_injective {one other : Located Path} (same : one.path = other.path) : one = other := by
  obtain ⟨⟨fromRoot, names⟩, span⟩ := one
  obtain ⟨⟨otherFromRoot, otherNames⟩, otherSpan⟩ := other
  cases fromRoot <;> cases otherFromRoot <;> simp_all [Located.path, Path.token]

theorem quoted_injective {one other : Located String} (same : one.quoted = other.quoted) :
    one = other := by
  obtain ⟨value, span⟩ := one
  simp_all [Located.quoted]

theorem arguments_injective {one other : Option (Located Path)}
    (same : (one.map Located.path).toList = (other.map Located.path).toList) : one = other := by
  cases one with
  | none => cases other <;> simp_all
  | some path =>
      cases other with
      | none => simp at same
      | some path => exact congrArg some (path_injective (by simpa using same))

theorem keyword_injective {one other : Control} (same : one.keyword = other.keyword) :
    one = other := by
  cases one <;> cases other <;> first | rfl | cases same

theorem path_ne (path : Located Path) {token : Token} (span : Span)
    (noRoot : ∀ names, token ≠ .root names) (noField : ∀ names, token ≠ .field names) :
    path.path ≠ ⟨token, span⟩ := by
  intro same
  have tokens : path.value.token = token := congrArg Lexeme.token same
  rw [Path.token] at tokens
  split at tokens
  · exact noRoot _ tokens.symm
  · exact noField _ tokens.symm

theorem Leaf.lexemes_injective {one other : Leaf} (same : one.lexemes = other.lexemes) :
    one = other := by
  cases one with
  | output path =>
      cases other with
      | output also => exact congrArg Leaf.output (path_injective (List.head_eq_of_cons_eq same))
      | slot name => exact absurd (List.head_eq_of_cons_eq same) (path_ne path _ nofun nofun)
      | invoke word name argument => exact absurd (congrArg List.length same) (by simp [lexemes])
  | slot name =>
      cases other with
      | output path =>
          exact absurd (List.head_eq_of_cons_eq same).symm (path_ne path _ nofun nofun)
      | slot also =>
          obtain ⟨value, span⟩ := name
          cases same
          rfl
      | invoke word name argument => cases same
  | invoke word name argument =>
      cases other with
      | output path => exact absurd (congrArg List.length same) (by simp [lexemes])
      | slot name => cases same
      | invoke also otherName otherArgument =>
          simp only [Leaf.lexemes, List.cons.injEq, Lexeme.mk.injEq, true_and] at same
          obtain ⟨rfl, names, arguments⟩ := same
          rw [quoted_injective names, arguments_injective arguments]

theorem Head.lexemes_injective {one other : Head} (same : one.lexemes = other.lexemes) :
    one = other := by
  cases one with
  | define word name =>
      cases other with
      | define also otherName =>
          simp only [Head.lexemes, List.cons.injEq, Lexeme.mk.injEq, true_and, and_true] at same
          rw [same.1, quoted_injective same.2]
      | block also otherName argument => cases same
      | control also kind path => cases kind <;> cases same
  | block word name argument =>
      cases other with
      | define also otherName => cases same
      | block also otherName otherArgument =>
          simp only [Head.lexemes, List.cons.injEq, Lexeme.mk.injEq, true_and] at same
          obtain ⟨rfl, names, arguments⟩ := same
          rw [quoted_injective names, arguments_injective arguments]
      | control also kind path => cases kind <;> cases same
  | control word kind path =>
      cases other with
      | define also otherName => cases kind <;> cases same
      | block also otherName argument => cases kind <;> cases same
      | control also otherKind otherPath =>
          simp only [Head.lexemes, List.cons.injEq, Lexeme.mk.injEq, Token.keyword.injEq,
            and_true] at same
          obtain ⟨⟨kinds, rfl⟩, paths⟩ := same
          rw [keyword_injective kinds, path_injective paths]

theorem leaf_ne_head (leaf : Leaf) (head : Head) : leaf.lexemes ≠ head.lexemes := by
  intro same
  cases leaf with
  | output path =>
      have lengths := congrArg List.length same
      cases head <;> simp [Leaf.lexemes, Head.lexemes] at lengths
  | slot name =>
      have lengths := congrArg List.length same
      cases head <;> simp [Leaf.lexemes, Head.lexemes] at lengths
  | invoke word name argument =>
      cases head with
      | define also other => cases same
      | block also other argument => cases same
      | control also kind path => cases kind <;> cases same

def Inside (content : List Lexeme) : Prop :=
  ∀ lexeme ∈ content, ∀ span, lexeme ≠ ⟨.closeAction, span⟩

theorem inside_cons {lexeme : Lexeme} {lexemes : List Lexeme} :
    Inside (lexeme :: lexemes) ↔ (∀ span, lexeme ≠ ⟨.closeAction, span⟩) ∧ Inside lexemes :=
  List.forall_mem_cons

theorem inside_nil : Inside [] := by
  simp [Inside]

theorem arguments_inside (argument : Option (Located Path)) :
    Inside (argument.map Located.path).toList := by
  cases argument with
  | none => exact inside_nil
  | some path => exact inside_cons.mpr ⟨fun span => path_ne path span nofun nofun, inside_nil⟩

theorem Leaf.inside (leaf : Leaf) : Inside leaf.lexemes := by
  cases leaf with
  | output path => exact inside_cons.mpr ⟨fun span => path_ne path span nofun nofun, inside_nil⟩
  | slot name => exact inside_cons.mpr ⟨nofun, inside_nil⟩
  | invoke word name argument =>
      exact inside_cons.mpr ⟨nofun, inside_cons.mpr ⟨nofun, arguments_inside argument⟩⟩

theorem Head.inside (head : Head) : Inside head.lexemes := by
  cases head with
  | define word name => exact inside_cons.mpr ⟨nofun, inside_cons.mpr ⟨nofun, inside_nil⟩⟩
  | block word name argument =>
      exact inside_cons.mpr ⟨nofun, inside_cons.mpr ⟨nofun, arguments_inside argument⟩⟩
  | control word kind path =>
      exact inside_cons.mpr ⟨nofun,
        inside_cons.mpr ⟨fun span => path_ne path span nofun nofun, inside_nil⟩⟩

theorem keyword_inside (word : Keyword) (span : Span) : Inside [⟨.keyword word, span⟩] :=
  inside_cons.mpr ⟨nofun, inside_nil⟩

theorem around_injective {braces other : Braces} {content more rest later : List Lexeme}
    (inside : Inside content) (also : Inside more)
    (same : braces.around content ++ rest = other.around more ++ later) :
    braces = other ∧ content = more ∧ rest = later := by
  obtain ⟨opened, closed⟩ := braces
  obtain ⟨otherOpened, otherClosed⟩ := other
  simp only [Braces.around, List.cons_append, List.append_assoc, List.nil_append, List.cons.injEq,
    Lexeme.mk.injEq, true_and] at same
  obtain ⟨rfl, same⟩ := same
  induction content generalizing more with
  | nil =>
      cases more with
      | nil =>
          simp only [List.nil_append, List.cons.injEq, Lexeme.mk.injEq, true_and] at same
          obtain ⟨rfl, rfl⟩ := same
          exact ⟨rfl, rfl, rfl⟩
      | cons lexeme more =>
          simp only [List.nil_append, List.cons_append, List.cons.injEq] at same
          exact absurd same.1.symm (also lexeme List.mem_cons_self closed)
  | cons lexeme content induction =>
      cases more with
      | nil =>
          simp only [List.nil_append, List.cons_append, List.cons.injEq] at same
          exact absurd same.1 (inside lexeme List.mem_cons_self otherClosed)
      | cons another more =>
          simp only [List.cons_append, List.cons.injEq] at same
          obtain ⟨rfl, same⟩ := same
          obtain ⟨braces, rfl, rfl⟩ := induction
            (fun lexeme member => inside lexeme (List.mem_cons_of_mem _ member))
            (fun lexeme member => also lexeme (List.mem_cons_of_mem _ member)) same
          exact ⟨braces, rfl, rfl⟩

theorem Mark.lexemes_injective {one other : Mark} {word also : Keyword} {rest later : List Lexeme}
    (same : one.lexemes word ++ rest = other.lexemes also ++ later) :
    one = other ∧ word = also ∧ rest = later := by
  obtain ⟨braces, content, rfl⟩ :=
    around_injective (keyword_inside word _) (keyword_inside also _) same
  obtain ⟨marks, span⟩ := one
  obtain ⟨otherMarks, otherSpan⟩ := other
  simp only [List.cons.injEq, Lexeme.mk.injEq, Token.keyword.injEq, and_true] at content
  obtain ⟨rfl, rfl⟩ := content
  obtain rfl : marks = otherMarks := braces
  exact ⟨rfl, rfl, rfl⟩

theorem tree_ne_mark (tree : Tree) (mark : Mark) (word : Keyword) (rest later : List Lexeme) :
    tree.lexemes ++ rest ≠ mark.lexemes word ++ later := by
  have leafDiffers (leaf : Leaf) : leaf.lexemes ≠ [⟨.keyword word, mark.word⟩] := by
    cases leaf with
    | output path =>
        have differs : path.path ≠ ⟨.keyword word, mark.word⟩ := path_ne path _ nofun nofun
        exact fun same => differs (List.head_eq_of_cons_eq same)
    | slot name =>
        intro same
        cases same
    | invoke word name argument =>
        intro same
        have lengths := congrArg List.length same
        simp [Leaf.lexemes] at lengths
  have headDiffers (head : Head) : head.lexemes ≠ [⟨.keyword word, mark.word⟩] := by
    intro same
    have lengths := congrArg List.length same
    cases head <;> simp [Head.lexemes] at lengths
  have within := keyword_inside word mark.word
  intro same
  cases tree with
  | text content => cases same
  | single braces leaf => exact leafDiffers leaf (around_injective leaf.inside within same).2.1
  | nested braces head body finish =>
      rw [Tree.lexemes, List.append_assoc] at same
      exact headDiffers head (around_injective head.inside within same).2.1
  | choice braces span kind path body alternative otherwise finish =>
      rw [Tree.lexemes, List.append_assoc] at same
      exact headDiffers _ (around_injective (Head.inside _) within same).2.1

/-- What can follow the nodes of a body: nothing, or the mark that ends the body. -/
inductive Closes : List Lexeme → Prop where
  | nothing : Closes []
  | mark (mark : Mark) (word : Keyword) (rest : List Lexeme) : Closes (mark.lexemes word ++ rest)

theorem Closes.not_tree {rest : List Lexeme} (closes : Closes rest) (tree : Tree)
    (later : List Lexeme) : tree.lexemes ++ later ≠ rest := by
  cases closes with
  | nothing => cases tree <;> simp [Tree.lexemes, Braces.around]
  | mark mark word rest => exact tree_ne_mark tree mark word later rest

mutual

/-- Nodes tell where they end. -/
theorem tree_injective (one other : Tree) {rest later : List Lexeme}
    (same : one.lexemes ++ rest = other.lexemes ++ later) : one = other ∧ rest = later := by
  cases one with
  | text content =>
      cases other with
      | text also =>
          obtain ⟨value, span⟩ := content
          cases same
          exact ⟨rfl, rfl⟩
      | _ => cases same
  | single braces leaf =>
      cases other with
      | text also => cases same
      | single otherBraces other =>
          obtain ⟨rfl, contents, rfl⟩ := around_injective leaf.inside other.inside same
          rw [Leaf.lexemes_injective contents]
          exact ⟨rfl, rfl⟩
      | nested otherBraces head body finish =>
          rw [Tree.lexemes, Tree.lexemes, List.append_assoc] at same
          exact absurd (around_injective leaf.inside head.inside same).2.1 (leaf_ne_head leaf head)
      | choice otherBraces word kind path body alternative otherwise finish =>
          rw [Tree.lexemes, Tree.lexemes, List.append_assoc] at same
          exact absurd (around_injective leaf.inside (Head.inside _) same).2.1 (leaf_ne_head leaf _)
  | nested braces head body finish =>
      cases other with
      | text also => cases same
      | single otherBraces leaf =>
          rw [Tree.lexemes, Tree.lexemes, List.append_assoc] at same
          exact absurd (around_injective head.inside leaf.inside same).2.1.symm
            (leaf_ne_head leaf head)
      | nested otherBraces otherHead otherBody otherFinish =>
          simp only [Tree.lexemes, List.append_assoc] at same
          obtain ⟨rfl, contents, inner⟩ := around_injective head.inside otherHead.inside same
          obtain ⟨rfl, ends⟩ := trees_injective body otherBody (.mark _ _ _) (.mark _ _ _) inner
          obtain ⟨rfl, _, rfl⟩ := Mark.lexemes_injective ends
          rw [Head.lexemes_injective contents]
          exact ⟨rfl, rfl⟩
      | choice otherBraces word kind path otherBody alternative otherwise otherFinish =>
          simp only [Tree.lexemes, List.append_assoc] at same
          obtain ⟨_, _, inner⟩ := around_injective head.inside (Head.inside _) same
          obtain ⟨_, ends⟩ := trees_injective body otherBody (.mark _ _ _) (.mark _ _ _) inner
          cases (Mark.lexemes_injective ends).2.1
  | choice braces word kind path body alternative otherwise finish =>
      cases other with
      | text also => cases same
      | single otherBraces leaf =>
          rw [Tree.lexemes, Tree.lexemes, List.append_assoc] at same
          exact absurd (around_injective (Head.inside _) leaf.inside same).2.1.symm
            (leaf_ne_head leaf _)
      | nested otherBraces head otherBody otherFinish =>
          simp only [Tree.lexemes, List.append_assoc] at same
          obtain ⟨_, _, inner⟩ := around_injective (Head.inside _) head.inside same
          obtain ⟨_, ends⟩ := trees_injective body otherBody (.mark _ _ _) (.mark _ _ _) inner
          cases (Mark.lexemes_injective ends).2.1
      | choice otherBraces otherWord otherKind otherPath otherBody otherAlternative others
          otherFinish =>
          simp only [Tree.lexemes, List.append_assoc] at same
          obtain ⟨rfl, contents, inner⟩ := around_injective (Head.inside _) (Head.inside _) same
          obtain ⟨rfl, ends⟩ := trees_injective body otherBody (.mark _ _ _) (.mark _ _ _) inner
          obtain ⟨rfl, _, second⟩ := Mark.lexemes_injective ends
          obtain ⟨rfl, last⟩ := trees_injective otherwise others (.mark _ _ _) (.mark _ _ _) second
          obtain ⟨rfl, _, rfl⟩ := Mark.lexemes_injective last
          cases Head.lexemes_injective contents
          exact ⟨rfl, rfl⟩

theorem trees_injective (ones others : List Tree) {rest later : List Lexeme} (ends : Closes rest)
    (also : Closes later)
    (same : Tree.lexemesOf ones ++ rest = Tree.lexemesOf others ++ later) :
    ones = others ∧ rest = later := by
  cases ones with
  | nil =>
      cases others with
      | nil => exact ⟨rfl, same⟩
      | cons other others =>
          rw [Tree.lexemesOf, Tree.lexemesOf, List.append_assoc] at same
          exact absurd same.symm (ends.not_tree other _)
  | cons one ones =>
      cases others with
      | nil =>
          rw [Tree.lexemesOf, Tree.lexemesOf, List.append_assoc] at same
          exact absurd same (also.not_tree one _)
      | cons other others =>
          rw [Tree.lexemesOf, Tree.lexemesOf, List.append_assoc, List.append_assoc] at same
          obtain ⟨rfl, left⟩ := tree_injective one other same
          obtain ⟨rfl, rfl⟩ := trees_injective ones others ends also left
          exact ⟨rfl, rfl⟩

end

end PageAssembly.Language
