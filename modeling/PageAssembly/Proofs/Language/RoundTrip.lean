import PageAssembly.Proofs.Language.Lexemes
import PageAssembly.Proofs.Language.Reading

/-!
Printed nodes are read back, up to spans. Every node is scanned to what a tree spells, by recursion
on the node; only a text depends on what follows it, which is nothing or the next action.
-/

namespace PageAssembly.Language

theorem opening_alone (parts : List (List Char)) : actionOpening <+: action parts :=
  ⟨spaced parts ++ actionClosing, rfl⟩

theorem opening_action (parts : List (List Char)) (rest : List Char) :
    actionOpening <+: action parts ++ rest :=
  (opening_alone parts).trans (List.prefix_append _ rest)

theorem lexemes_cons {lexemes : List Lexeme} {token : Token} {tokens : List Token}
    (same : lexemes.map Lexeme.token = token :: tokens) :
    ∃ span more, lexemes = ⟨token, span⟩ :: more ∧ more.map Lexeme.token = tokens := by
  obtain ⟨⟨_, span⟩, more, rfl, rfl, others⟩ := List.map_eq_cons_iff.mp same
  exact ⟨span, more, rfl, others⟩

theorem lexemes_single {lexemes : List Lexeme} {token : Token}
    (same : lexemes.map Lexeme.token = [token]) : ∃ span, lexemes = [⟨token, span⟩] := by
  obtain ⟨span, more, rfl, others⟩ := lexemes_cons same
  exact ⟨span, by rw [List.map_eq_nil_iff.mp others]⟩

theorem named_lexemes {lexemes : List Lexeme} {word : Keyword} {name : String}
    {argument : Option Path}
    (tokens : lexemes.map Lexeme.token =
      .keyword word :: .quoted name :: (argument.map Path.token).toList) :
    ∃ span located found, Located.value located = name ∧ Option.map Located.value found = argument ∧
      lexemes = ⟨.keyword word, span⟩ :: located.quoted :: (found.map Located.path).toList := by
  obtain ⟨wordSpan, _, rfl, afterWord⟩ := lexemes_cons tokens
  obtain ⟨nameSpan, _, rfl, afterName⟩ := lexemes_cons afterWord
  cases argument with
  | none =>
      obtain rfl := List.map_eq_nil_iff.mp afterName
      exact ⟨wordSpan, ⟨name, nameSpan⟩, none, rfl, rfl, rfl⟩
  | some path =>
      obtain ⟨pathSpan, rfl⟩ := lexemes_single afterName
      exact ⟨wordSpan, ⟨name, nameSpan⟩, some ⟨path, pathSpan⟩, rfl, rfl, rfl⟩

theorem readAs_argument {argument : Option Path} (valid : ∀ path ∈ argument, path.Printable) :
    List.Forall₂ ReadAs (argumentParts argument) (argument.map Path.token).toList := by
  cases argument with
  | none => exact .nil
  | some path => exact .cons (readAs_path (valid path rfl)) .nil

theorem readAs_named (word : Keyword) (name : String) {argument : Option Path}
    (valid : ∀ path ∈ argument, path.Printable) :
    List.Forall₂ ReadAs (word.part :: quotedPart name :: argumentParts argument)
      (.keyword word :: .quoted name :: (argument.map Path.token).toList) :=
  .cons (readAs_keyword word) (.cons (readAs_quoted name) (readAs_argument valid))

section

variable (position : Nat) (rest : List Char)

theorem scanned_single {part : List Char} {token : Token} (read : ReadAs part token) :
    ∃ braces span, Scanned position (action [part]) rest (Braces.around braces [⟨token, span⟩]) := by
  obtain ⟨braces, lexemes, tokens, scanned⟩ := scanned_action (.cons read .nil) position rest
  obtain ⟨span, rfl⟩ := lexemes_single tokens
  exact ⟨braces, span, scanned⟩

theorem scanned_mark (word : Keyword) :
    ∃ mark : Mark, Scanned position (action [word.part]) rest (mark.lexemes word) := by
  obtain ⟨braces, span, scanned⟩ := scanned_single position rest (readAs_keyword word)
  exact ⟨⟨braces, span⟩, scanned⟩

theorem scanned_named (word : Keyword) (name : String) {argument : Option Path}
    (valid : ∀ path ∈ argument, path.Printable) :
    ∃ braces span located found, Located.value located = name ∧
      Option.map Located.value found = argument ∧
      Scanned position (action (word.part :: quotedPart name :: argumentParts argument)) rest
        (Braces.around braces
          (⟨.keyword word, span⟩ :: located.quoted :: (found.map Located.path).toList)) := by
  obtain ⟨braces, lexemes, tokens, scanned⟩ :=
    scanned_action (readAs_named word name valid) position rest
  obtain ⟨span, located, found, named, given, rfl⟩ := named_lexemes tokens
  exact ⟨braces, span, located, found, named, given, scanned⟩

theorem scanned_control (kind : Control) {path : Path} (valid : path.Printable) :
    ∃ braces word span, Scanned position (action [kind.keyword.part, path.part]) rest
      (Braces.around braces (Head.control word kind ⟨path, span⟩).lexemes) := by
  obtain ⟨braces, lexemes, tokens, scanned⟩ :=
    scanned_action (.cons (readAs_keyword kind.keyword) (.cons (readAs_path valid) .nil))
      position rest
  obtain ⟨word, _, rfl, afterWord⟩ := lexemes_cons tokens
  obtain ⟨span, rfl⟩ := lexemes_single afterWord
  exact ⟨braces, word, span, scanned⟩

end

/-- Wherever it stands before an action, the printed body is scanned to what trees spell that stand
for it up to spans. -/
def ScannedBody (body : Body) : Prop :=
  ∀ position rest, actionOpening <+: rest → ∃ trees,
    Node.bareOf (Tree.nodesOf trees) = Node.bareOf body ∧
      Scanned position (Node.sourceOf body) rest (Tree.lexemesOf trees)

theorem bare_opening_node (opening : Opening) (span other : Span) {body others : Body}
    (same : Node.bareOf body = Node.bareOf others) :
    (opening.node span body []).bare = (opening.node other others []).bare := by
  cases opening <;> simp [Opening.node, Node.bare, same]

theorem scanned_nested {position : Nat} {source rest : List Char} {body : Body} {braces : Braces}
    (head : Head)
    (begins : Scanned position source ((Node.sourceOf body ++ action [Keyword.finish.part]) ++ rest)
      (braces.around head.lexemes))
    (inner : ScannedBody body) :
    ∃ tree : Tree, tree.node.bare = (head.opening.node default body []).bare ∧
      Scanned position (source ++ (Node.sourceOf body ++ action [Keyword.finish.part])) rest
        tree.lexemes := by
  obtain ⟨trees, same, scanned⟩ := inner (position + Text.byteSize source)
    (action [Keyword.finish.part] ++ rest) (opening_action _ _)
  obtain ⟨finish, ends⟩ := scanned_mark (position + Text.byteSize source +
    Text.byteSize (Node.sourceOf body)) rest .finish
  exact ⟨.nested braces head trees finish, bare_opening_node _ _ _ same,
    begins.append (scanned.append ends)⟩

theorem scanned_choice {position : Nat} {source rest : List Char} {body otherwise : Body}
    {braces : Braces} {word : Span} {kind : Control} (path : Located Path)
    (begins : Scanned position source
      ((Node.sourceOf body ++ ((action [Keyword.alternative.part] ++ Node.sourceOf otherwise) ++
        action [Keyword.finish.part])) ++ rest)
      (braces.around (Head.control word kind path).lexemes))
    (inner : ScannedBody body) (second : ScannedBody otherwise) :
    ∃ tree : Tree, tree.node.bare = (Node.control default kind path.value body otherwise).bare ∧
      Scanned position
        (source ++ (Node.sourceOf body ++
          ((action [Keyword.alternative.part] ++ Node.sourceOf otherwise) ++
            action [Keyword.finish.part]))) rest tree.lexemes := by
  rw [List.append_assoc (action [Keyword.alternative.part])] at begins ⊢
  have alternativeFollows := (opening_action [Keyword.alternative.part]
    (Node.sourceOf otherwise ++ action [Keyword.finish.part])).trans (List.prefix_append _ rest)
  obtain ⟨trees, same, scanned⟩ := inner (position + Text.byteSize source) _ alternativeFollows
  obtain ⟨alternative, between⟩ := scanned_mark
    (position + Text.byteSize source + Text.byteSize (Node.sourceOf body))
    ((Node.sourceOf otherwise ++ action [Keyword.finish.part]) ++ rest) .alternative
  obtain ⟨others, sameOthers, scannedOthers⟩ := second _ _
    (opening_action [Keyword.finish.part] rest)
  obtain ⟨finish, ends⟩ := scanned_mark _ rest .finish
  refine ⟨.choice braces word kind path trees alternative others finish, ?_,
    begins.append (scanned.append (between.append (scannedOthers.append ends)))⟩
  simp [Tree.node, Node.bare, same, sameOthers]

def Follows (last : Bool) (rest : List Char) : Prop :=
  if last then rest = [] else actionOpening <+: rest

theorem opening_source {node : Node} (noText : node.content? = none) :
    actionOpening <+: node.source := by
  cases node with
  | text span content => cases noText
  | output span path => exact opening_alone _
  | slot span name => exact opening_alone _
  | invoke span name argument => exact opening_alone _
  | control span kind path body otherwise => exact opening_action _ _
  | define span name body => exact opening_action _ _
  | block span name argument body => exact opening_action _ _

theorem textEnds_opening {content : String} (plain : IsPlain content) {later : List Char}
    (begins : actionOpening <+: later) (closed : ¬ EndsOpen content) :
    TextEnds content.toList later := by
  refine ⟨.inr begins, fun found => ?_⟩
  obtain ⟨more, rfl⟩ := begins
  have brace : (actionOpening ++ more).take 1 = ['\x7b'] := rfl
  rw [brace, List.infix_concat_iff] at found
  rcases found with ⟨before, ends⟩ | within
  · have last : (before ++ ['\x7b']) ++ ['\x7b'] = content.toList ++ ['\x7b'] := by
      rw [← ends, actionOpening, List.append_assoc]
      rfl
    refine closed ?_
    rw [EndsOpen, ← List.append_cancel_right last, List.getLast?_concat]
  · exact plain.2 within

theorem Follows.textEnds {last : Bool} {rest : List Char} (follows : Follows last rest)
    {content : String} (plain : IsPlain content) {nodes : Body}
    (apart : ∀ next ∈ nodes.head?, Node.content? next = none)
    (closed : EndsOpen content → last ∧ nodes = []) :
    TextEnds content.toList (Node.sourceOf nodes ++ rest) := by
  cases nodes with
  | nil =>
      cases last with
      | true =>
          obtain rfl : rest = [] := follows
          exact ⟨.inl rfl, by simpa [Node.sourceOf] using plain.2⟩
      | false =>
          have begins : actionOpening <+: rest := follows
          exact textEnds_opening plain begins fun isOpen => nomatch (closed isOpen).1
  | cons next nodes =>
      have begins : actionOpening <+: next.source := opening_source (apart next rfl)
      have later : actionOpening <+: Node.sourceOf (next :: nodes) ++ rest :=
        (begins.trans (List.prefix_append _ _)).trans (List.prefix_append _ _)
      exact textEnds_opening plain later fun isOpen => nomatch (closed isOpen).2

mutual

/-- A printed node is scanned to what a tree spells. The bodies in it stand before an action, so
only a text asks what follows it. -/
theorem node_scanned (node : Node) (printable : node.Printable) (position : Nat) (rest : List Char)
    (ends : ∀ content ∈ node.content?, TextEnds content.toList rest) :
    ∃ tree : Tree, tree.node.bare = node.bare ∧
      Scanned position node.source rest tree.lexemes := by
  cases node with
  | text span content =>
      obtain ⟨read, scanned⟩ := scanned_text printable.1 (ends content rfl) position
      exact ⟨.text ⟨content, read⟩, rfl, scanned⟩
  | output span path =>
      obtain ⟨braces, read, scanned⟩ := scanned_single position rest (readAs_path printable)
      exact ⟨.single braces (.output ⟨path, read⟩), rfl, scanned⟩
  | slot span name =>
      obtain ⟨braces, read, scanned⟩ := scanned_single position rest (readAs_slot printable)
      exact ⟨.single braces (.slot ⟨name, read⟩), rfl, scanned⟩
  | invoke span name argument =>
      obtain ⟨braces, word, located, found, rfl, rfl, scanned⟩ :=
        scanned_named position rest .template name printable
      exact ⟨.single braces (.invoke word located found), rfl, scanned⟩
  | control span kind path body otherwise =>
      obtain ⟨valid, first, second⟩ := printable
      cases otherwise with
      | nil =>
          obtain ⟨braces, word, read, scanned⟩ := scanned_control position _ kind valid
          exact scanned_nested (.control word kind ⟨path, read⟩) scanned
            fun position rest follows => nodes_scanned false body first position rest follows
      | cons other others =>
          obtain ⟨braces, word, read, scanned⟩ := scanned_control position _ kind valid
          exact scanned_choice ⟨path, read⟩ scanned
            (fun position rest follows => nodes_scanned false body first position rest follows)
            (fun position rest follows =>
              nodes_scanned false (other :: others) second position rest follows)
  | define span name body =>
      have noArgument : ∀ path ∈ (none : Option Path), path.Printable := nofun
      obtain ⟨braces, word, located, found, rfl, given, scanned⟩ :=
        scanned_named position _ .define name noArgument
      obtain rfl := Option.map_eq_none_iff.mp given
      exact scanned_nested (.define word located) scanned
        fun position rest follows => nodes_scanned false body printable position rest follows
  | block span name argument body =>
      obtain ⟨valid, inner⟩ := printable
      obtain ⟨braces, word, located, found, rfl, rfl, scanned⟩ :=
        scanned_named position _ .block name valid
      exact scanned_nested (.block word located found) scanned
        fun position rest follows => nodes_scanned false body inner position rest follows

theorem nodes_scanned (last : Bool) (nodes : List Node) (printable : Node.PrintableIn last nodes)
    (position : Nat) (rest : List Char) (follows : Follows last rest) :
    ∃ trees, Node.bareOf (Tree.nodesOf trees) = Node.bareOf nodes ∧
      Scanned position (Node.sourceOf nodes) rest (Tree.lexemesOf trees) := by
  cases nodes with
  | nil => exact ⟨[], rfl, scanned_nil position rest⟩
  | cons node nodes =>
      obtain ⟨valid, apart, others⟩ := printable
      have ends : ∀ content ∈ node.content?,
          TextEnds content.toList (Node.sourceOf nodes ++ rest) := by
        intro content member
        have plain : IsPlain content := by
          cases node with
          | text span other =>
              cases member
              exact valid
          | _ => cases member
        exact follows.textEnds plain (apart content member).1 (apart content member).2
      obtain ⟨tree, same, scanned⟩ :=
        node_scanned node valid position (Node.sourceOf nodes ++ rest) ends
      obtain ⟨trees, sameOthers, scannedOthers⟩ := nodes_scanned last nodes others
        (position + Text.byteSize node.source) rest follows
      refine ⟨tree :: trees, ?_, scanned.append scannedOthers⟩
      rw [Tree.nodesOf, Node.bareOf, Node.bareOf, same, sameOthers]

end

/-- Printing a printable document gives a source that is parsed to the document, up to spans. -/
theorem parse_printed {body : Body} (printable : Body.Printable body) :
    ∃ parsed, parse (String.ofList (Node.sourceOf body)) = .ok parsed ∧
      Node.bareOf parsed = Node.bareOf body := by
  obtain ⟨trees, same, scanned⟩ := nodes_scanned true body printable 0 [] rfl
  have atEnd : lexemesFrom (0 + Text.byteSize (Node.sourceOf body)) [] = .ok [] := by
    rw [lexemesFrom]
  have whole := scanned [] atEnd
  rw [List.append_nil, List.append_nil] at whole
  refine ⟨_, parse_eq_ok_iff.mpr ⟨Tree.lexemesOf trees, ?_, trees, rfl, rfl⟩, same⟩
  rw [scan, String.toList_ofList]
  exact whole

theorem isPlain_append {content more : String} (plain : IsPlain content) (plainMore : IsPlain more)
    (closed : ¬ EndsOpen content) : IsPlain (content ++ more) := by
  refine ⟨fun empty => plain.1 (String.append_eq_empty_iff.mp empty).1, ?_⟩
  rw [String.toList_append, List.infix_append_iff]
  rintro (first | second | ⟨left, right, parts, ⟨before, ends⟩, begins⟩)
  · exact plain.2 first
  · exact plainMore.2 second
  · -- the braces of the action lie on both sides
    cases left with
    | nil =>
        rw [List.nil_append] at parts
        exact plainMore.2 (parts ▸ begins.isInfix)
    | cons brace left =>
        obtain ⟨rfl, rest⟩ := List.cons.inj parts
        cases left with
        | nil => exact closed (by rw [EndsOpen, ← ends, List.getLast?_concat])
        | cons another left =>
            obtain ⟨rfl, nothing⟩ := List.cons.inj rest
            obtain ⟨rfl, -⟩ := List.append_eq_nil_iff.mp nothing.symm
            exact plain.2 ⟨before, [], by rw [List.append_nil, ← ends]; rfl⟩

theorem endsOpen_append {content more : String} (nonempty : more ≠ "")
    (isOpen : EndsOpen (content ++ more)) : EndsOpen more := by
  have characters : more.toList ≠ [] := fun empty => nonempty (String.toList_eq_nil_iff.mp empty)
  rwa [EndsOpen, String.toList_append, List.getLast?_append_of_ne_nil _ characters] at isOpen

theorem printableIn_joinedWith {last : Bool} {node : Node} {nodes : List Node}
    (valid : node.Printable) (others : Node.PrintableIn last nodes)
    (ends : ∀ content ∈ node.content?, EndsOpen content → last ∧ nodes = []) :
    Node.PrintableIn last (node.joinedWith nodes) := by
  cases node with
  | text span content =>
      cases nodes with
      | nil => exact ⟨valid, fun _ same => ⟨nofun, ends _ same⟩, trivial⟩
      | cons next nodes =>
          have closed : ¬ EndsOpen content := fun isOpen => nomatch (ends content rfl isOpen).2
          cases next with
          | text nextSpan more =>
              obtain ⟨plain, apart, later⟩ := others
              refine ⟨isPlain_append valid plain closed, fun whole same => ?_, later⟩
              cases same
              exact ⟨(apart more rfl).1,
                fun isOpen => (apart more rfl).2 (endsOpen_append plain.1 isOpen)⟩
          | _ =>
              refine ⟨valid, fun _ same => ?_, others⟩
              cases same
              exact ⟨fun next same => Option.some.inj same ▸ rfl, fun isOpen => absurd isOpen closed⟩
  | _ => exact ⟨valid, nofun, others⟩

theorem path_valid {path : Path} (valid : path.token.Valid) : path.Printable := by
  obtain ⟨_ | _, names⟩ := path <;> exact valid

theorem argument_valid {argument : Option (Located Path)}
    (valid : ∀ lexeme ∈ (argument.map Located.path).toList, lexeme.token.Valid) :
    ∀ path ∈ argument.map Located.value, path.Printable := by
  cases argument with
  | none => exact nofun
  | some located =>
      intro path same
      cases same
      exact path_valid (valid located.path List.mem_cons_self)

theorem Sound.around {braces : Braces} {content after : List Lexeme}
    (sound : Sound (braces.around content ++ after)) :
    (∀ lexeme ∈ content, lexeme.token.Valid) ∧ Sound after := by
  have inside : Sound (content ++ [⟨.closeAction, braces.closed⟩] ++ after) := sound.2.2
  refine ⟨?_, inside.right⟩
  clear sound
  induction content with
  | nil => exact nofun
  | cons lexeme content induction =>
      exact List.forall_mem_cons.mpr ⟨inside.1, induction inside.2.2⟩

theorem leaf_valid {leaf : Leaf} (valid : ∀ lexeme ∈ leaf.lexemes, lexeme.token.Valid)
    (span : Span) : (leaf.node span).joined.Printable := by
  cases leaf with
  | output path => exact path_valid (valid _ List.mem_cons_self)
  | slot name => exact valid _ List.mem_cons_self
  | invoke word name argument =>
      exact argument_valid fun lexeme member =>
        valid lexeme (List.mem_cons_of_mem _ (List.mem_cons_of_mem _ member))

theorem head_valid {head : Head} (valid : ∀ lexeme ∈ head.lexemes, lexeme.token.Valid)
    {body : Body} (inner : Node.PrintableIn false (Node.joinedOf body)) (span : Span) :
    (head.opening.node span body []).joined.Printable := by
  cases head with
  | define word name => exact inner
  | block word name argument =>
      refine ⟨argument_valid fun lexeme member => ?_, inner⟩
      exact valid lexeme (List.mem_cons_of_mem _ (List.mem_cons_of_mem _ member))
  | control word kind path =>
      exact ⟨path_valid (valid _ (List.mem_cons_of_mem _ List.mem_cons_self)), inner, trivial⟩

theorem lexemesOf_eq_nil {trees : List Tree} (nothing : Tree.lexemesOf trees = []) : trees = [] := by
  cases trees with
  | nil => rfl
  | cons tree trees => cases tree <;> simp [Tree.lexemesOf, Tree.lexemes, Braces.around] at nothing

mutual

/-- A tree of scanned lexemes stands for a printable node once texts are joined. A text in its
bodies cannot end in an opening brace, for the mark of the body's end is still to come. -/
theorem tree_printable (tree : Tree) (after : List Lexeme) (sound : Sound (tree.lexemes ++ after)) :
    tree.node.joined.Printable := by
  cases tree with
  | text content => exact sound.1
  | single braces leaf => exact leaf_valid sound.around.1 _
  | nested braces head body finish =>
      rw [Tree.lexemes, List.append_assoc, List.append_assoc] at sound
      obtain ⟨contents, inner⟩ := sound.around
      exact head_valid contents (trees_printable false body _ inner nofun) _
  | choice braces word kind path body alternative otherwise finish =>
      simp only [Tree.lexemes, List.append_assoc] at sound
      obtain ⟨contents, inner⟩ := sound.around
      have second := inner.right.around.2
      exact ⟨path_valid (contents _ (List.mem_cons_of_mem _ List.mem_cons_self)),
        trees_printable false body _ inner nofun, trees_printable false otherwise _ second nofun⟩

theorem trees_printable (last : Bool) (trees : List Tree) (after : List Lexeme)
    (sound : Sound (Tree.lexemesOf trees ++ after)) (goesOn : last = false → after ≠ []) :
    Node.PrintableIn last (Node.joinedOf (Tree.nodesOf trees)) := by
  cases trees with
  | nil => trivial
  | cons tree trees =>
      rw [Tree.lexemesOf, List.append_assoc] at sound
      refine printableIn_joinedWith (tree_printable tree _ sound)
        (trees_printable last trees after sound.right goesOn) ?_
      intro content member isOpen
      cases tree with
      | text located =>
          cases member
          have nothingLeft : Tree.lexemesOf trees ++ after = [] := sound.2.1 _ rfl isOpen
          obtain ⟨nothing, atEnd⟩ := List.append_eq_nil_iff.mp nothingLeft
          obtain rfl := lexemesOf_eq_nil nothing
          refine ⟨?_, rfl⟩
          cases last with
          | true => rfl
          | false => exact absurd atEnd (goesOn rfl)
      | single braces leaf => cases leaf <;> cases member
      | nested braces head body finish => cases head <;> cases member
      | choice braces word kind path body alternative otherwise finish => cases member

end

theorem printable_of_parse {source : String} {body : Body} (parsed : parse source = .ok body) :
    Body.Printable (Node.joinedOf body) := by
  obtain ⟨lexemes, scanned, trees, rfl, rfl⟩ := parse_eq_ok_iff.mp parsed
  refine trees_printable true trees [] ?_ nofun
  rw [List.append_nil]
  exact lexemesFrom_sound scanned

/-- Every source that is parsed has a printed form, with comments left out, that says the same. -/
theorem parse_normal_form {source : String} {body : Body} (parsed : parse source = .ok body) :
    ∃ again, parse (String.ofList (Node.sourceOf (Node.joinedOf body))) = .ok again ∧
      Node.bareOf again = Node.bareOf (Node.joinedOf body) :=
  parse_printed (printable_of_parse parsed)

/-- A printable document is read back from its printed source, spans aside; and what a source is
parsed to is printable once neighbouring texts are joined. -/
theorem parsing_undoes_printing :
    (∀ body, Body.Printable body → ∃ parsed,
      parse (String.ofList (Node.sourceOf body)) = .ok parsed ∧
        Node.bareOf parsed = Node.bareOf body) ∧
    (∀ source body, parse source = .ok body → Body.Printable (Node.joinedOf body)) :=
  ⟨fun _ => parse_printed, fun _ _ => printable_of_parse⟩

def quotingBody : Body :=
  [.text default "a\x7d\x7d",
    .block default "x \x7d\x7d \"\\\n\x7b\x7b" (some ⟨true, ["_a1"]⟩) [.slot default "css"],
    .control default .each .dot [] [.text default "none"],
    .text default "\x7b"]

def commentedSource : String := "a\x7b\x7b/* b */\x7d\x7dc"

def commentedBody : Body := [.text ⟨0, 1⟩ "a", .text ⟨12, 13⟩ "c"]

theorem quotingBody_printable : Body.Printable quotingBody := by
  have argument : IsName "_a1" := isName_of_check rfl rfl
  have slot : IsSlotName "css" :=
    ⟨isName_of_check rfl rfl, fun word => by cases word <;> decide⟩
  have text : IsPlain "a\x7d\x7d" := ⟨by decide, by decide⟩
  have other : IsPlain "none" := ⟨by decide, by decide⟩
  have ending : IsPlain "\x7b" := ⟨by decide, by decide⟩
  simp [Body.Printable, quotingBody, Node.PrintableIn, Node.Printable, Node.content?, Path.Printable,
    Path.dot, EndsOpen, argument, slot, text, other, ending]

theorem quotingBody_undone :
    (Body.Printable quotingBody ∧ ∃ parsed,
      parse (String.ofList (Node.sourceOf quotingBody)) = .ok parsed ∧
        Node.bareOf parsed = Node.bareOf quotingBody) ∧
    (parse commentedSource = .ok commentedBody ∧
      Body.Printable (Node.joinedOf commentedBody)) := by
  have scanned : scan commentedSource =
      .ok [⟨.text "a", ⟨0, 1⟩⟩, ⟨.text "c", ⟨12, 13⟩⟩] := by
    simp [scan, commentedSource, lexemesFrom, textLength, commentClosing, Text.cut?, Text.after?]
    rfl
  have parsed : parse commentedSource = .ok commentedBody :=
    parse_eq_ok_iff.mpr ⟨_, scanned, [.text ⟨"a", ⟨0, 1⟩⟩, .text ⟨"c", ⟨12, 13⟩⟩], rfl, rfl⟩
  exact ⟨⟨quotingBody_printable, parsing_undoes_printing.1 _ quotingBody_printable⟩,
    parsed, parsing_undoes_printing.2 _ _ parsed⟩

end PageAssembly.Language
