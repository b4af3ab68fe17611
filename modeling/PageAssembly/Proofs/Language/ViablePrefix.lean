import PageAssembly.Proofs.Language.Correspondence
import PageAssembly.Proofs.Language.Coverage

/-!
Where reading stops. Every state that is reached can be led to the end of a source, so lexemes can
be read exactly if tokens can follow theirs that make them derivable. An error therefore stands at
the first token that nothing could continue, and it lists what could have stood there.
-/

namespace PageAssembly.Language

open Text (byteSize encodeString length_encode)

/-- The tokens are those of trees, wherever these stand. -/
def Derivable (tokens : List Token) : Prop :=
  ∃ trees, (Tree.lexemesOf trees).map Lexeme.token = tokens

/-- Tokens can follow that make these derivable. -/
def Viable (tokens : List Token) : Prop :=
  ∃ later, Derivable (tokens ++ later)

def Token.isFixed : Token → Bool
  | .openAction | .closeAction | .keyword _ => true
  | _ => false

/-- Each token of one spelling that can follow is listed once, and nothing else is. -/
structure Expects (tokens expected : List Token) : Prop where
  distinct : expected.Nodup
  exact : ∀ token, token ∈ expected ↔ token.isFixed = true ∧ Viable (tokens ++ [token])

/-- What an error says of the lexemes of a source of `size` bytes: they can be continued up to a
token and not with it, or they can be continued where the source ends and are not complete there. At
the end the error starts behind the source and stops where the last lexeme does. -/
inductive Reported (size : Nat) (lexemes : List Lexeme) : SourceError → Prop
  | token {earlier later : List Lexeme} {lexeme : Lexeme} {expected : List Token}
      (parted : lexemes = earlier ++ lexeme :: later)
      (viable : Viable (earlier.map Lexeme.token))
      (stuck : ¬ Viable (earlier.map Lexeme.token ++ [lexeme.token]))
      (expects : Expects (earlier.map Lexeme.token) expected) :
      Reported size lexemes ⟨lexeme.span, .unexpected (some lexeme.token) expected⟩
  | ending {last : Lexeme} {more expected : List Token}
      (isLast : lexemes.getLast? = some last) (within : last.span.stop ≤ size) (proper : more ≠ [])
      (continued : Derivable (lexemes.map Lexeme.token ++ more))
      (incomplete : ¬ Derivable (lexemes.map Lexeme.token))
      (expects : Expects (lexemes.map Lexeme.token) expected) :
      Reported size lexemes ⟨⟨size, last.span.stop⟩, .unexpected none expected⟩

def Content.needsFrame : Content → Bool
  | .alternative | .finish => true
  | _ => false

def Phase.needsFrame : Phase → Bool
  | .closing _ content => content.needsFrame
  | _ => false

namespace State

/-- The mark of an alternative or of an end is read only where an action waits for it. -/
def Coherent (state : State) : Prop :=
  state.phase.needsFrame = true → state.frames ≠ []

theorem coherent_of_phase {state : State} (free : state.phase.needsFrame = false) :
    state.Coherent := by
  intro needs
  rw [free] at needs
  cases needs

theorem coherent_initial : initial.Coherent :=
  coherent_of_phase rfl

theorem between_of_close {state next : State} {start stop : Nat} {content : Content}
    (closed : state.close start stop content = some next) : next.phase = .between := by
  obtain ⟨phase, nodes, frames⟩ := state
  cases content with
  | alternative | finish =>
      cases frames with
      | nil => cases closed
      | cons frame frames =>
          cases closed
          rfl
  | _ =>
      cases closed
      rfl

theorem coherent_close {state next : State} {start stop : Nat} {content : Content}
    (closed : state.close start stop content = some next) : next.Coherent := by
  apply coherent_of_phase
  rw [between_of_close closed]
  rfl

theorem exists_close {state : State} {content : Content}
    (waiting : content.needsFrame = true → state.frames ≠ []) (start stop : Nat) :
    ∃ next, state.close start stop content = some next := by
  obtain ⟨phase, nodes, frames⟩ := state
  cases content with
  | alternative | finish =>
      cases frames with
      | nil => exact absurd rfl (waiting rfl)
      | cons frame frames => exact ⟨_, rfl⟩
  | _ => exact ⟨_, rfl⟩

theorem exists_close_coherent {state : State} (coherent : state.Coherent) {start : Nat}
    {content : Content} (phase : state.phase = .closing start content) (stop : Nat) :
    ∃ next, state.close start stop content = some next := by
  apply exists_close
  intro needs
  apply coherent
  rw [phase]
  exact needs

theorem coherent_afterKeyword {state : State} {start : Nat} {word : Keyword} {phase : Phase}
    (follows : state.afterKeyword? start word = some phase) :
    State.Coherent { state with phase := phase } := by
  cases word with
  | alternative =>
      rw [afterKeyword?] at follows
      split at follows
      · rename_i allows
        intro _ nothing
        rw [allowsAlternative, nothing] at allows
        cases allows
      · cases follows
  | finish =>
      rw [afterKeyword?] at follows
      split at follows
      · cases follows
      · rename_i waiting
        intro _ nothing
        exact waiting (List.isEmpty_iff.mpr nothing)
  | _ =>
      cases follows
      exact coherent_of_phase rfl

theorem step_coherent {state next : State} {lexeme : Lexeme}
    (stepped : state.step lexeme = some next) : next.Coherent := by
  obtain ⟨phase, nodes, frames⟩ := state
  obtain ⟨token, span⟩ := lexeme
  cases phase with
  | between =>
      cases token with
      | text | openAction =>
          cases stepped
          exact coherent_of_phase rfl
      | _ => cases stepped
  | opened start =>
      cases token with
      | field | root | identifier =>
          cases stepped
          exact coherent_of_phase rfl
      | keyword word =>
          obtain ⟨phase, follows, rfl⟩ := Option.map_eq_some_iff.mp stepped
          exact coherent_afterKeyword follows
      | _ => cases stepped
  | name start naming =>
      cases token with
      | quoted =>
          cases naming <;> cases stepped <;>
            exact coherent_of_phase rfl
      | _ => cases naming <;> cases stepped
  | argument start naming name =>
      cases token with
      | field | root =>
          cases naming <;> cases stepped <;>
            exact coherent_of_phase rfl
      | closeAction => exact coherent_close stepped
      | _ => cases stepped
  | path start kind =>
      cases token with
      | field | root =>
          cases stepped
          exact coherent_of_phase rfl
      | _ => cases stepped
  | closing start content =>
      cases token with
      | closeAction => exact coherent_close stepped
      | _ => cases stepped

theorem steps_coherent {state final : State} {lexemes : List Lexeme} (coherent : state.Coherent)
    (reached : state.steps lexemes = some final) : final.Coherent := by
  induction lexemes generalizing state with
  | nil =>
      cases reached
      exact coherent
  | cons lexeme lexemes induction =>
      rw [steps, List.foldlM_cons] at reached
      obtain ⟨next, stepped, reached⟩ := Option.bind_eq_some_iff.mp reached
      exact induction (step_coherent stepped) reached

/-- Every action that still waits gets its end. -/
theorem exists_end_between {state : State} (between : state.phase = .between) :
    ∃ lexemes final, state.steps lexemes = some final ∧ final.Ended := by
  obtain ⟨phase, nodes, frames⟩ := state
  obtain rfl : phase = .between := between
  induction frames generalizing nodes with
  | nil => exact ⟨[], _, rfl, rfl, rfl⟩
  | cons frame frames induction =>
      obtain ⟨lexemes, final, reached, ended⟩ := induction _
      refine ⟨Mark.lexemes ⟨⟨default, default⟩, default⟩ .finish ++ lexemes, final, ?_, ended⟩
      rw [steps_append, steps_finish]
      exact reached

theorem exists_between {state : State} (coherent : state.Coherent) :
    ∃ lexemes next, state.steps lexemes = some next ∧ next.phase = .between := by
  obtain ⟨phase, nodes, frames⟩ := state
  let path : Lexeme := ⟨.field [], default⟩
  let close : Lexeme := ⟨.closeAction, default⟩
  cases phase with
  | between => exact ⟨[], _, rfl, rfl⟩
  | opened start => exact ⟨[path, close], _, rfl, rfl⟩
  | name start naming =>
      cases naming <;> exact ⟨[⟨.quoted "", default⟩, close], _, rfl, rfl⟩
  | argument start naming name =>
      cases naming <;> exact ⟨[close], _, rfl, rfl⟩
  | path start kind => exact ⟨[path, close], _, rfl, rfl⟩
  | closing start content =>
      obtain ⟨next, closed⟩ := exists_close_coherent coherent rfl 0
      refine ⟨[close], next, ?_, between_of_close closed⟩
      rw [steps, List.foldlM_cons]
      exact Option.bind_eq_some_iff.mpr ⟨next, closed, rfl⟩

theorem exists_end {state : State} (coherent : state.Coherent) :
    ∃ lexemes final, state.steps lexemes = some final ∧ final.Ended := by
  obtain ⟨earlier, next, reached, between⟩ := exists_between coherent
  obtain ⟨later, final, goesOn, ended⟩ := exists_end_between between
  refine ⟨earlier ++ later, final, ?_, ended⟩
  rw [steps_append, reached]
  exact goesOn

theorem keyword_expected_iff (state : State) (start : Nat) (word : Keyword) :
    .keyword word ∈ State.expected { state with phase := .opened start } ↔
      ∃ phase, state.afterKeyword? start word = some phase := by
  have allows : State.allowsAlternative { state with phase := .opened start } =
    state.allowsAlternative := rfl
  cases word with
  | alternative =>
      cases known : state.allowsAlternative <;> simp [expected, afterKeyword?, allows, known]
  | finish =>
      cases known : state.frames.isEmpty <;> cases state.allowsAlternative <;>
        simp_all [expected, afterKeyword?]
  | _ => simp [expected, afterKeyword?]

theorem expected_fixed (state : State) : ∀ token ∈ state.expected, token.isFixed = true := by
  obtain ⟨phase, nodes, frames⟩ := state
  cases phase with
  | opened start =>
      simp only [expected]
      split <;> split <;> decide
  | name | path => exact List.forall_mem_nil _
  | _ => exact List.forall_mem_singleton.mpr rfl

theorem expected_nodup (state : State) : state.expected.Nodup := by
  obtain ⟨phase, nodes, frames⟩ := state
  cases phase with
  | opened start =>
      simp only [expected]
      split <;> split <;> decide
  | name | path => exact .nil
  | _ => exact List.pairwise_singleton _ _

theorem mem_expected_iff {state : State} (coherent : state.Coherent) {token : Token}
    (fixed : token.isFixed = true) (span : Span) :
    token ∈ state.expected ↔ ∃ next, state.step ⟨token, span⟩ = some next := by
  obtain ⟨phase, nodes, frames⟩ := state
  cases token with
  | keyword word =>
      cases phase with
      | opened start =>
          rw [keyword_expected_iff ⟨.opened start, nodes, frames⟩ start word]
          simp [step]
      | name start naming => cases naming <;> simp [expected, step]
      | _ => simp [expected, step]
  | openAction =>
      cases phase with
      | opened start => simp [expected, step]
      | name start naming => cases naming <;> simp [expected, step]
      | _ => simp [expected, step]
  | closeAction =>
      cases phase with
      | opened start => simp [expected, step]
      | name start naming => cases naming <;> simp [expected, step]
      | argument start naming name =>
          apply iff_of_true List.mem_cons_self
          refine exists_close (fun needs => ?_) start span.stop
          cases naming <;> cases needs
      | closing start content =>
          exact iff_of_true List.mem_cons_self (exists_close_coherent coherent rfl span.stop)
      | _ => simp [expected, step]
  | _ => cases fixed

/-- How reading fails: at a lexeme that cannot stand where it does, or behind the last one. -/
theorem run_eq_error {size stop : Nat} {state : State} {lexemes : List Lexeme} {error : SourceError}
    (failed : state.run size stop lexemes = .error error) :
    (∃ earlier lexeme later final, lexemes = earlier ++ lexeme :: later ∧
      state.steps earlier = some final ∧ final.step lexeme = none ∧
      error = ⟨lexeme.span, .unexpected (some lexeme.token) final.expected⟩) ∨
    ∃ final, state.steps lexemes = some final ∧ ¬ final.Ended ∧
      error = ⟨⟨size, (lexemes.getLast?.map fun last => last.span.stop).getD stop⟩,
        .unexpected none final.expected⟩ := by
  induction lexemes generalizing state stop with
  | nil =>
      rw [run] at failed
      split at failed
      · cases failed
      · rename_i unfinished
        cases failed
        refine Or.inr ⟨state, rfl, fun ended => ?_, rfl⟩
        exact unfinished ⟨ended.1, List.isEmpty_iff.mpr ended.2⟩
  | cons lexeme lexemes induction =>
      rw [run] at failed
      cases stepped : state.step lexeme with
      | none =>
          rw [stepped] at failed
          cases failed
          exact Or.inl ⟨[], lexeme, lexemes, state, rfl, rfl, stepped, rfl⟩
      | some next =>
          rw [stepped] at failed
          have goesOn (others : List Lexeme) :
              state.steps (lexeme :: others) = next.steps others := by
            rw [steps, List.foldlM_cons, stepped]
            rfl
          rcases induction failed with ⟨earlier, other, later, final, rfl, reached, stuck, same⟩ |
            ⟨final, reached, unfinished, same⟩
          · refine Or.inl ⟨lexeme :: earlier, other, later, final, rfl, ?_, stuck, same⟩
            rw [goesOn, reached]
          · refine Or.inr ⟨final, ?_, unfinished, ?_⟩
            · rw [goesOn, reached]
            · rw [same]
              cases lexemes with
              | nil => rfl
              | cons other lexemes =>
                  have isLast := List.getLast?_eq_some_getLast (List.cons_ne_nil other lexemes)
                  rw [List.getLast?_cons_cons, isLast]
                  rfl

end State

def anyLikeness : Likeness where
  place _ _ := True
  body _ _ := True
  empty := trivial
  extended _ _ := trivial

theorem derivable_iff {lexemes : List Lexeme} :
    Derivable (lexemes.map Lexeme.token) ↔ ∃ body, Derives lexemes body := by
  constructor
  · rintro ⟨trees, same⟩
    have derives : Derives (Tree.lexemesOf trees) (Tree.nodesOf trees) := ⟨trees, rfl, rfl⟩
    obtain ⟨body, derived, -⟩ :=
      Likeness.derives_alike (anyLikeness.alike_of_tokens (fun _ _ => trivial) same) derives
    exact ⟨body, derived⟩
  · rintro ⟨body, trees, rfl, -⟩
    exact ⟨trees, rfl⟩

/-- Tokens can be continued exactly if they can be read. -/
theorem viable_iff {lexemes : List Lexeme} : Viable (lexemes.map Lexeme.token) ↔
    ∃ final, State.initial.steps lexemes = some final := by
  constructor
  · rintro ⟨later, trees, same⟩
    obtain ⟨begun, rest, spelled, tokens, -⟩ := List.map_eq_append_iff.mp same
    have reached := steps_trees trees [] []
    rw [spelled, State.steps_append] at reached
    obtain ⟨next, reached, -⟩ := Option.bind_eq_some_iff.mp reached
    have alike := Likeness.steps_alike anyLikeness.states_initial
      (anyLikeness.alike_of_tokens (fun _ _ => trivial) tokens)
    obtain ⟨final, also, -⟩ := exists_of_rel_some alike reached
    exact ⟨final, also⟩
  · rintro ⟨next, reached⟩
    obtain ⟨later, final, goesOn, ended⟩ :=
      State.exists_end (State.steps_coherent State.coherent_initial reached)
    refine ⟨later.map Lexeme.token, ?_⟩
    rw [← List.map_append]
    refine derivable_iff.mpr ⟨final.nodes, derives_iff.mpr ⟨final, ?_, ended, rfl⟩⟩
    rw [State.steps_append, reached]
    exact goesOn

theorem viable_concat_iff {lexemes : List Lexeme} {next : State}
    (reached : State.initial.steps lexemes = some next) (token : Token) (span : Span) :
    Viable (lexemes.map Lexeme.token ++ [token]) ↔
      ∃ final, next.step ⟨token, span⟩ = some final := by
  have single : State.initial.steps (lexemes.concat ⟨token, span⟩) = next.step ⟨token, span⟩ := by
    rw [List.concat_eq_append, State.steps_append, reached, Option.bind_some, State.steps,
      List.foldlM_cons]
    cases next.step ⟨token, span⟩ <;> rfl
  rw [← single, ← viable_iff, List.map_concat, List.concat_eq_append]

theorem expects_of_reached {lexemes : List Lexeme} {next : State}
    (reached : State.initial.steps lexemes = some next) :
    Expects (lexemes.map Lexeme.token) next.expected where
  distinct := next.expected_nodup
  exact token := by
    have coherent := State.steps_coherent State.coherent_initial reached
    constructor
    · intro member
      have fixed := next.expected_fixed token member
      refine ⟨fixed, (viable_concat_iff reached token default).mpr ?_⟩
      exact (State.mem_expected_iff coherent fixed default).mp member
    · rintro ⟨fixed, viable⟩
      apply (State.mem_expected_iff coherent fixed default).mpr
      exact (viable_concat_iff reached token default).mp viable

/-- A source that can be scanned and not be parsed has one error. It stands where its tokens cannot
be continued any more, which is at the first token that could not follow or at the end. -/
theorem error_at_viable_end {source : String} {lexemes : List Lexeme}
    (scanned : scan source = .ok lexemes) (unparsed : ∀ body, parse source ≠ .ok body) :
    ∃ error, parse source = .error error ∧
      Reported (byteSize source.toList) lexemes error := by
  cases outcome : parse source with
  | ok body => exact absurd outcome (unparsed body)
  | error error =>
      refine ⟨error, rfl, ?_⟩
      rw [parse, scanned] at outcome
      rcases State.run_eq_error outcome with
        ⟨earlier, lexeme, later, next, parted, reached, stuck, rfl⟩ |
        ⟨next, reached, unfinished, rfl⟩
      · refine .token parted (viable_iff.mpr ⟨next, reached⟩) ?_ (expects_of_reached reached)
        rw [viable_concat_iff reached lexeme.token lexeme.span, stuck]
        rintro ⟨final, impossible⟩
        cases impossible
      · have incomplete : ¬ Derivable (lexemes.map Lexeme.token) := by
          rw [derivable_iff]
          rintro ⟨body, derives⟩
          exact unparsed body (parse_eq_ok_iff.mpr ⟨lexemes, scanned, derives⟩)
        obtain ⟨more, continued⟩ := viable_iff.mpr ⟨next, reached⟩
        cases isLast : lexemes.getLast? with
        | none =>
            obtain rfl := List.getLast?_eq_none_iff.mp isLast
            have empty : Derivable [] := ⟨[], rfl⟩
            exact absurd empty incomplete
        | some last =>
            have within := ((scan_lossless scanned).within last (List.mem_of_getLast? isLast)).2
            refine .ending isLast ?_ ?_ continued incomplete (expects_of_reached reached)
            · rwa [encodeString, length_encode] at within
            · rintro rfl
              rw [List.append_nil] at continued
              exact incomplete continued

def doubled : String :=
  "\x7b\x7b if .x \x7d\x7d\x7b\x7b else \x7d\x7d\x7b\x7b else \x7d\x7d"

def doubledLexemes : List Lexeme :=
  [⟨.openAction, ⟨0, 2⟩⟩, ⟨.keyword .condition, ⟨3, 5⟩⟩, ⟨.field ["x"], ⟨6, 8⟩⟩,
    ⟨.closeAction, ⟨9, 11⟩⟩, ⟨.openAction, ⟨11, 13⟩⟩, ⟨.keyword .alternative, ⟨14, 18⟩⟩,
    ⟨.closeAction, ⟨19, 21⟩⟩, ⟨.openAction, ⟨21, 23⟩⟩, ⟨.keyword .alternative, ⟨24, 28⟩⟩,
    ⟨.closeAction, ⟨29, 31⟩⟩]

theorem doubled_reported : scan doubled = .ok doubledLexemes ∧
    (∀ body, parse doubled ≠ .ok body) ∧
    ∃ error, parse doubled = .error error ∧
      Reported (byteSize doubled.toList) doubledLexemes error := by
  have scanned : scan doubled = .ok doubledLexemes := by decide +kernel
  have unparsed : ∀ body, parse doubled ≠ .ok body := by
    intro body same
    rw [parse, scanned] at same
    cases same
  exact ⟨scanned, unparsed, error_at_viable_end scanned unparsed⟩

def unfinished : String :=
  "\x7b\x7b if .x \x7d\x7d\x7b\x7b/* c */\x7d\x7d"

/-- At the end of a source an error need not be the empty span there. -/
theorem unfinished_reaches_back : byteSize unfinished.toList = 22 ∧
    parse unfinished = .error ⟨⟨22, 11⟩, .unexpected none [.openAction]⟩ := by
  have scanned : scan unfinished = .ok [⟨.openAction, ⟨0, 2⟩⟩, ⟨.keyword .condition, ⟨3, 5⟩⟩,
      ⟨.field ["x"], ⟨6, 8⟩⟩, ⟨.closeAction, ⟨9, 11⟩⟩] := by decide +kernel
  have size : byteSize unfinished.toList = 22 := by decide +kernel
  refine ⟨size, ?_⟩
  rw [parse, scanned, size]
  rfl

end PageAssembly.Language
