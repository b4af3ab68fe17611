import PageAssembly.Proofs.Language.Derivation

/-!
Reading lexemes one by one comes to deriving them. Between two lexemes the state stands for trees
that are complete, actions around them whose bodies are not, and perhaps the beginning of an action;
together these spell what has been read. So a list that is read to its end is spelled by trees, and
what trees spell is read to their nodes.
-/

namespace PageAssembly.Language

namespace State

def steps (state : State) (lexemes : List Lexeme) : Option State :=
  lexemes.foldlM step state

theorem steps_append (state : State) (earlier later : List Lexeme) :
    state.steps (earlier ++ later) = (state.steps earlier).bind fun next => next.steps later :=
  List.foldlM_append

def Ended (state : State) : Prop :=
  state.phase = .between ∧ state.frames = []

theorem run_eq_ok_iff {size stop : Nat} {state : State} {lexemes : List Lexeme} {body : Body} :
    state.run size stop lexemes = .ok body ↔
      ∃ final, state.steps lexemes = some final ∧ final.Ended ∧ final.nodes = body := by
  induction lexemes generalizing state stop with
  | nil =>
      rw [run]
      split
      · rename_i ended
        have empty : state.Ended := ⟨ended.1, List.isEmpty_iff.mp ended.2⟩
        constructor
        · intro read
          cases read
          exact ⟨state, rfl, empty, rfl⟩
        · rintro ⟨final, reached, _, rfl⟩
          cases reached
          rfl
      · rename_i unfinished
        constructor
        · intro read
          cases read
        · rintro ⟨final, reached, ended, _⟩
          cases reached
          exact absurd ⟨ended.1, List.isEmpty_iff.mpr ended.2⟩ unfinished
  | cons lexeme lexemes induction =>
      rw [run, steps, List.foldlM_cons]
      cases state.step lexeme with
      | none =>
          constructor
          · intro read
            cases read
          · rintro ⟨final, reached, _⟩
            cases reached
      | some next => exact induction

end State

theorem steps_leaf (braces : Braces) (leaf : Leaf) (nodes : Body) (frames : List Frame) :
    (State.mk .between nodes frames).steps (braces.around leaf.lexemes) =
      some ⟨.between, nodes ++ [leaf.node ⟨braces.opened.start, braces.closed.stop⟩], frames⟩ := by
  cases leaf with
  | output path =>
      obtain ⟨⟨_ | _, names⟩, span⟩ := path <;> rfl
  | slot name => rfl
  | invoke word name argument =>
      rcases argument with _ | ⟨⟨_ | _, names⟩, span⟩ <;> rfl

theorem steps_head (braces : Braces) (head : Head) (nodes : Body) (frames : List Frame) :
    (State.mk .between nodes frames).steps (braces.around head.lexemes) =
      some ⟨.between, [], ⟨head.opening, braces.opened.start, nodes, none⟩ :: frames⟩ := by
  cases head with
  | define word name => rfl
  | block word name argument =>
      rcases argument with _ | ⟨⟨_ | _, names⟩, span⟩ <;> rfl
  | control word kind path =>
      obtain ⟨⟨_ | _, names⟩, span⟩ := path <;> cases kind <;> rfl

theorem steps_finish (mark : Mark) (inner : Body) (frame : Frame) (frames : List Frame) :
    (State.mk .between inner (frame :: frames)).steps (mark.lexemes .finish) =
      some ⟨.between, frame.outer ++ [match frame.first with
        | some first => frame.opening.node ⟨frame.start, mark.braces.closed.stop⟩ first inner
        | none => frame.opening.node ⟨frame.start, mark.braces.closed.stop⟩ inner []], frames⟩ :=
  rfl

theorem steps_alternative (mark : Mark) (inner outer : Body) (kind : Control) (path : Path)
    (start : Nat) (frames : List Frame) :
    (State.mk .between inner (⟨.control kind path, start, outer, none⟩ :: frames)).steps
        (mark.lexemes .alternative) =
      some ⟨.between, [], ⟨.control kind path, start, outer, some inner⟩ :: frames⟩ :=
  rfl

mutual

theorem steps_tree (tree : Tree) (nodes : Body) (frames : List Frame) :
    (State.mk .between nodes frames).steps tree.lexemes =
      some ⟨.between, nodes ++ [tree.node], frames⟩ := by
  cases tree with
  | text content => rfl
  | single braces leaf => exact steps_leaf braces leaf nodes frames
  | nested braces head body finish =>
      simp only [Tree.lexemes, State.steps_append, steps_head, Option.bind_some, steps_trees body,
        steps_finish, List.nil_append, Tree.node]
  | choice braces word kind path body alternative otherwise finish =>
      simp only [Tree.lexemes, State.steps_append, steps_head, Option.bind_some, steps_trees body,
        steps_trees otherwise, Head.opening, steps_alternative, steps_finish, List.nil_append,
        Tree.node, Opening.node]

theorem steps_trees (trees : List Tree) (nodes : Body) (frames : List Frame) :
    (State.mk .between nodes frames).steps (Tree.lexemesOf trees) =
      some ⟨.between, nodes ++ Tree.nodesOf trees, frames⟩ := by
  cases trees with
  | nil =>
      rw [Tree.nodesOf, List.append_nil]
      rfl
  | cons tree trees =>
      rw [Tree.lexemesOf, State.steps_append, steps_tree tree, Option.bind_some,
        steps_trees trees, Tree.nodesOf, List.append_assoc, List.singleton_append]

end

def Naming.keyword : Naming → Keyword
  | .template => .template
  | .define => .define
  | .block => .block

/-- The lexemes between the braces of an action with this content. -/
inductive Spells : Content → List Lexeme → Prop where
  | output (path : Located Path) : Spells (.output path.value) (Leaf.output path).lexemes
  | slot (name : Located String) : Spells (.slot name.value) (Leaf.slot name).lexemes
  | invoke (word : Span) (name : Located String) (argument : Option (Located Path)) :
      Spells (.invoke name.value (argument.map Located.value))
        (Leaf.invoke word name argument).lexemes
  | opening (head : Head) : Spells (.opening head.opening) head.lexemes
  | alternative (word : Span) : Spells .alternative [⟨.keyword .alternative, word⟩]
  | finish (word : Span) : Spells .finish [⟨.keyword .finish, word⟩]

/-- What has been read of an action that has begun. -/
inductive Begun : Phase → List Lexeme → Prop where
  | between : Begun .between []
  | opened (opened : Span) : Begun (.opened opened.start) [⟨.openAction, opened⟩]
  | name (opened word : Span) (naming : Naming) :
      Begun (.name opened.start naming)
        [⟨.openAction, opened⟩, ⟨.keyword naming.keyword, word⟩]
  | argument (opened word : Span) {naming : Naming} (takesOne : naming ≠ .define)
      (name : Located String) :
      Begun (.argument opened.start naming name.value)
        [⟨.openAction, opened⟩, ⟨.keyword naming.keyword, word⟩, name.quoted]
  | path (opened word : Span) (kind : Control) :
      Begun (.path opened.start kind) [⟨.openAction, opened⟩, ⟨.keyword kind.keyword, word⟩]
  | closing (opened : Span) {content : Content} {lexemes : List Lexeme}
      (spells : Spells content lexemes) :
      Begun (.closing opened.start content) (⟨.openAction, opened⟩ :: lexemes)

/-- What has been read before the innermost body: the trees before each action around it, and the
actions themselves up to where their bodies stand. -/
inductive Encloses : List Frame → List Lexeme → Prop where
  | outermost : Encloses [] []
  | first {frames : List Frame} {before : List Lexeme} (encloses : Encloses frames before)
      (trees : List Tree) (braces : Braces) (head : Head) :
      Encloses (⟨head.opening, braces.opened.start, Tree.nodesOf trees, none⟩ :: frames)
        (before ++ Tree.lexemesOf trees ++ braces.around head.lexemes)
  | second {frames : List Frame} {before : List Lexeme} (encloses : Encloses frames before)
      (trees : List Tree) (braces : Braces) (word : Span) (kind : Control) (path : Located Path)
      (body : List Tree) (alternative : Mark) :
      Encloses (⟨.control kind path.value, braces.opened.start, Tree.nodesOf trees,
          some (Tree.nodesOf body)⟩ :: frames)
        (before ++ Tree.lexemesOf trees ++ braces.around (Head.control word kind path).lexemes ++
          Tree.lexemesOf body ++ alternative.lexemes .alternative)

/-- The state stands for the lexemes that have been read. -/
structure StandsFor (state : State) (lexemes : List Lexeme) : Prop where
  parts : ∃ before trees begun, Encloses state.frames before ∧ Tree.nodesOf trees = state.nodes ∧
    Begun state.phase begun ∧ lexemes = before ++ Tree.lexemesOf trees ++ begun
  permitted : ∀ start, state.phase = .closing start .alternative → state.allowsAlternative

theorem standsFor_initial : StandsFor .initial [] :=
  ⟨⟨[], [], [], .outermost, rfl, .between, rfl⟩, nofun⟩

section

variable {frames : List Frame} {before : List Lexeme} (trees : List Tree)

theorem standsFor_complete (encloses : Encloses frames before) :
    StandsFor ⟨.between, Tree.nodesOf trees, frames⟩ (before ++ Tree.lexemesOf trees) :=
  ⟨⟨before, trees, [], encloses, rfl, .between, (List.append_nil _).symm⟩, nofun⟩

theorem standsFor_tree (encloses : Encloses frames before) (tree : Tree) :
    StandsFor ⟨.between, Tree.nodesOf trees ++ [tree.node], frames⟩
      (before ++ Tree.lexemesOf trees ++ tree.lexemes) := by
  have stands := standsFor_complete (trees ++ [tree]) encloses
  simpa [Tree.nodesOf, Tree.lexemesOf] using stands

theorem standsFor_begun (encloses : Encloses frames before) {phase : Phase} {begun : List Lexeme}
    (begins : Begun phase begun) (other : ∀ start, phase ≠ .closing start .alternative) :
    StandsFor ⟨phase, Tree.nodesOf trees, frames⟩ (before ++ Tree.lexemesOf trees ++ begun) :=
  ⟨⟨before, trees, begun, encloses, rfl, begins, rfl⟩, fun start same => absurd same (other start)⟩

theorem standsFor_alternative (encloses : Encloses frames before) (opened word : Span)
    (permitted : (State.mk (.closing opened.start .alternative) (Tree.nodesOf trees)
      frames).allowsAlternative) :
    StandsFor ⟨.closing opened.start .alternative, Tree.nodesOf trees, frames⟩
      (before ++ Tree.lexemesOf trees ++
        [⟨.openAction, opened⟩, ⟨.keyword .alternative, word⟩]) :=
  ⟨⟨before, trees, _, encloses, rfl, .closing opened (.alternative word), rfl⟩,
    fun _ _ => permitted⟩

theorem standsFor_finish (encloses : Encloses frames before) (mark : Mark) {phase : Phase}
    {next : State}
    (closed : (State.mk phase (Tree.nodesOf trees) frames).close mark.braces.opened.start
      mark.braces.closed.stop .finish = some next) :
    StandsFor next (before ++ Tree.lexemesOf trees ++ mark.lexemes .finish) := by
  cases encloses with
  | outermost => cases closed
  | first encloses outer braces head =>
      cases closed
      have stands := standsFor_tree outer encloses (.nested braces head trees mark)
      simpa [Tree.node, Tree.lexemes, Frame.first] using stands
  | second encloses outer braces word kind path body alternative =>
      cases closed
      have stands := standsFor_tree outer encloses
        (.choice braces word kind path body alternative trees mark)
      simpa [Tree.node, Tree.lexemes, Opening.node] using stands

theorem standsFor_otherwise (encloses : Encloses frames before) (mark : Mark) {phase : Phase}
    {next : State}
    (permitted : (State.mk phase (Tree.nodesOf trees) frames).allowsAlternative)
    (closed : (State.mk phase (Tree.nodesOf trees) frames).close mark.braces.opened.start
      mark.braces.closed.stop .alternative = some next) :
    StandsFor next (before ++ Tree.lexemesOf trees ++ mark.lexemes .alternative) := by
  cases encloses with
  | outermost => cases closed
  | first encloses outer braces head =>
      cases head with
      | define word name => cases permitted
      | block word name argument => cases permitted
      | control word kind path =>
          cases closed
          have stands := standsFor_complete []
            (.second encloses outer braces word kind path trees mark)
          simpa [Tree.nodesOf, Tree.lexemesOf, Head.opening] using stands
  | second encloses outer braces word kind path body alternative => cases permitted

theorem standsFor_close (encloses : Encloses frames before) (braces : Braces) {content : Content}
    {inside : List Lexeme} (spells : Spells content inside) {phase : Phase} {next : State}
    (permitted : content = .alternative →
      (State.mk phase (Tree.nodesOf trees) frames).allowsAlternative)
    (closed : (State.mk phase (Tree.nodesOf trees) frames).close braces.opened.start
      braces.closed.stop content = some next) :
    StandsFor next (before ++ Tree.lexemesOf trees ++ braces.around inside) := by
  cases spells with
  | output path =>
      cases closed
      exact standsFor_tree trees encloses (.single braces (.output path))
  | slot name =>
      cases closed
      exact standsFor_tree trees encloses (.single braces (.slot name))
  | invoke word name argument =>
      cases closed
      exact standsFor_tree trees encloses (.single braces (.invoke word name argument))
  | opening head =>
      cases closed
      have stands := standsFor_complete [] (.first encloses trees braces head)
      simpa [Tree.nodesOf, Tree.lexemesOf] using stands
  | alternative word =>
      exact standsFor_otherwise trees encloses ⟨braces, word⟩ (permitted rfl) closed
  | finish word => exact standsFor_finish trees encloses ⟨braces, word⟩ closed

end

theorem standsFor_keyword {frames : List Frame} {before : List Lexeme} (trees : List Tree)
    (encloses : Encloses frames before) (opened span : Span) (word : Keyword) {phase : Phase}
    (follows : (State.mk (.opened opened.start) (Tree.nodesOf trees) frames).afterKeyword?
      opened.start word = some phase) :
    StandsFor ⟨phase, Tree.nodesOf trees, frames⟩
      (before ++ Tree.lexemesOf trees ++ [⟨.openAction, opened⟩, ⟨.keyword word, span⟩]) := by
  cases word with
  | template =>
      cases follows
      exact standsFor_begun trees encloses (.name opened span .template) nofun
  | define =>
      cases follows
      exact standsFor_begun trees encloses (.name opened span .define) nofun
  | block =>
      cases follows
      exact standsFor_begun trees encloses (.name opened span .block) nofun
  | condition =>
      cases follows
      exact standsFor_begun trees encloses (.path opened span .condition) nofun
  | each =>
      cases follows
      exact standsFor_begun trees encloses (.path opened span .each) nofun
  | scope =>
      cases follows
      exact standsFor_begun trees encloses (.path opened span .scope) nofun
  | alternative =>
      rw [State.afterKeyword?] at follows
      split at follows
      · rename_i permitted
        cases follows
        exact standsFor_alternative trees encloses opened span permitted
      · cases follows
  | finish =>
      rw [State.afterKeyword?] at follows
      split at follows
      · cases follows
      · cases follows
        exact standsFor_begun trees encloses (.closing opened (.finish span)) nofun

theorem spells_named {naming : Naming} (takesOne : naming ≠ .define) (word : Span)
    (name : Located String) (argument : Option (Located Path)) :
    Spells (.named naming name.value (argument.map Located.value))
      (⟨.keyword naming.keyword, word⟩ :: name.quoted :: (argument.map Located.path).toList) := by
  cases naming with
  | template => exact .invoke word name argument
  | define => exact absurd rfl takesOne
  | block => exact .opening (.block word name argument)

theorem named_ne_alternative (naming : Naming) (name : String) (argument : Option Path) :
    Content.named naming name argument ≠ .alternative := by
  cases naming <;> exact nofun

theorem named_other (naming : Naming) (name : String) (argument : Option Path) {opened : Nat}
    (start : Nat) :
    Phase.closing opened (.named naming name argument) ≠ .closing start .alternative :=
  fun same => named_ne_alternative naming name argument (Phase.closing.inj same).2

/-- One lexeme that can stand where it does. -/
theorem standsFor_step {state next : State} {lexeme : Lexeme} {lexemes : List Lexeme}
    (stands : StandsFor state lexemes) (stepped : state.step lexeme = some next) :
    StandsFor next (lexemes ++ [lexeme]) := by
  obtain ⟨⟨before, trees, begun, encloses, nodes, begins, rfl⟩, permitted⟩ := stands
  obtain ⟨phase, inner, frames⟩ := state
  obtain ⟨token, span⟩ := lexeme
  simp only at encloses nodes begins permitted
  subst nodes
  rw [List.append_assoc]
  cases begins with
  | between =>
      cases token with
      | text content =>
          cases stepped
          exact standsFor_tree trees encloses (.text ⟨content, span⟩)
      | openAction =>
          cases stepped
          exact standsFor_begun trees encloses (.opened span) nofun
      | _ => cases stepped
  | opened opened =>
      cases token with
      | field names =>
          cases stepped
          exact standsFor_begun trees encloses
            (.closing opened (.output ⟨⟨false, names⟩, span⟩)) nofun
      | root names =>
          cases stepped
          exact standsFor_begun trees encloses
            (.closing opened (.output ⟨⟨true, names⟩, span⟩)) nofun
      | identifier name =>
          cases stepped
          exact standsFor_begun trees encloses (.closing opened (.slot ⟨name, span⟩)) nofun
      | keyword word =>
          obtain ⟨phase, follows, rfl⟩ := Option.map_eq_some_iff.mp stepped
          exact standsFor_keyword trees encloses opened span word follows
      | _ => cases stepped
  | name opened word naming =>
      cases token with
      | quoted name =>
          cases naming with
          | define =>
              cases stepped
              exact standsFor_begun trees encloses
                (.closing opened (.opening (.define word ⟨name, span⟩))) nofun
          | template =>
              cases stepped
              have takesOne : Naming.template ≠ .define := nofun
              exact standsFor_begun trees encloses
                (.argument opened word takesOne ⟨name, span⟩) nofun
          | block =>
              cases stepped
              have takesOne : Naming.block ≠ .define := nofun
              exact standsFor_begun trees encloses
                (.argument opened word takesOne ⟨name, span⟩) nofun
      | _ => cases naming <;> cases stepped
  | @argument opened word naming takesOne name =>
      cases token with
      | field names =>
          cases stepped
          exact standsFor_begun trees encloses (.closing opened
            (spells_named takesOne word name (some ⟨⟨false, names⟩, span⟩)))
            (named_other naming _ _)
      | root names =>
          cases stepped
          exact standsFor_begun trees encloses (.closing opened
            (spells_named takesOne word name (some ⟨⟨true, names⟩, span⟩)))
            (named_other naming _ _)
      | closeAction =>
          exact standsFor_close trees encloses ⟨opened, span⟩
            (spells_named takesOne word name none)
            (fun same => absurd same (named_ne_alternative naming _ _)) stepped
      | _ => cases stepped
  | path opened word kind =>
      cases token with
      | field names =>
          cases stepped
          exact standsFor_begun trees encloses (.closing opened
            (.opening (.control word kind ⟨⟨false, names⟩, span⟩))) nofun
      | root names =>
          cases stepped
          exact standsFor_begun trees encloses (.closing opened
            (.opening (.control word kind ⟨⟨true, names⟩, span⟩))) nofun
      | _ => cases stepped
  | closing opened spells =>
      cases token with
      | closeAction =>
          refine standsFor_close trees encloses ⟨opened, span⟩ spells ?_ stepped
          rintro rfl
          exact permitted _ rfl
      | _ => cases stepped

theorem standsFor_steps {state final : State} {earlier lexemes : List Lexeme}
    (stands : StandsFor state earlier) (reached : state.steps lexemes = some final) :
    StandsFor final (earlier ++ lexemes) := by
  induction lexemes generalizing state earlier with
  | nil =>
      cases reached
      rw [List.append_nil]
      exact stands
  | cons lexeme lexemes induction =>
      rw [State.steps, List.foldlM_cons] at reached
      obtain ⟨next, stepped, reached⟩ := Option.bind_eq_some_iff.mp reached
      have later := induction (standsFor_step stands stepped) reached
      rwa [List.append_assoc, List.singleton_append] at later

/-- A state in which the source can end stands for trees and nothing else. -/
theorem StandsFor.trees {final : State} {lexemes : List Lexeme}
    (stands : StandsFor final lexemes) (ended : final.Ended) :
    ∃ trees, Tree.lexemesOf trees = lexemes ∧ Tree.nodesOf trees = final.nodes := by
  obtain ⟨before, trees, begun, encloses, nodes, begins, rfl⟩ := stands.parts
  rw [ended.1] at begins
  rw [ended.2] at encloses
  cases begins
  cases encloses
  exact ⟨trees, by simp, nodes⟩

/-- Trees spell the lexemes and stand for the nodes. -/
def Derives (lexemes : List Lexeme) (body : Body) : Prop :=
  ∃ trees, Tree.lexemesOf trees = lexemes ∧ Tree.nodesOf trees = body

theorem bodyOf_eq_ok_iff {size : Nat} {lexemes : List Lexeme} {body : Body} :
    bodyOf size lexemes = .ok body ↔ Derives lexemes body := by
  rw [bodyOf, State.run_eq_ok_iff]
  constructor
  · rintro ⟨final, reached, ended, rfl⟩
    exact (standsFor_steps standsFor_initial reached).trees ended
  · rintro ⟨trees, rfl, rfl⟩
    exact ⟨_, steps_trees trees [] [], ⟨rfl, rfl⟩, rfl⟩

theorem parse_eq_ok_iff {source : String} {body : Body} :
    parse source = .ok body ↔ ∃ lexemes, scan source = .ok lexemes ∧ Derives lexemes body := by
  rw [parse]
  cases scan source with
  | error error =>
      constructor
      · intro parsed
        cases parsed
      · rintro ⟨lexemes, scanned, _⟩
        cases scanned
  | ok lexemes =>
      refine Iff.trans bodyOf_eq_ok_iff ⟨fun derives => ⟨lexemes, rfl, derives⟩, ?_⟩
      rintro ⟨_, scanned, derives⟩
      cases scanned
      exact derives

/-- Lexemes are read to nodes exactly if trees that spell them stand for these nodes, and no other
trees spell them; a source is parsed to nodes exactly if it can be scanned and its lexemes are read
to them. -/
theorem parser_accepts_grammar :
    (∀ size lexemes body, bodyOf size lexemes = .ok body ↔
      ∃ trees, Tree.lexemesOf trees = lexemes ∧ Tree.nodesOf trees = body) ∧
    Function.Injective Tree.lexemesOf ∧
    (∀ source body, parse source = .ok body ↔ ∃ lexemes, scan source = .ok lexemes ∧
      ∃ trees, Tree.lexemesOf trees = lexemes ∧ Tree.nodesOf trees = body) := by
  refine ⟨fun _ _ _ => bodyOf_eq_ok_iff, ?_, fun _ _ => parse_eq_ok_iff⟩
  intro trees others same
  exact (trees_injective trees others .nothing .nothing (by rw [same])).1

end PageAssembly.Language
