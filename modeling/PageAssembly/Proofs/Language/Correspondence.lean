import Mathlib.Data.List.Forall2
import PageAssembly.Proofs.Language.Reading

/-!
Reading never asks where a lexeme stands, and it only ever puts a node behind a body. So lexemes
with the same tokens are read in the same way: what is known of their positions is known of the
spans of the nodes, and a relation between bodies that a further node on both sides keeps holds
between what is read.
-/

namespace PageAssembly.Language

/-- Lexemes are derived to the nodes of the state that they lead to, if a source can end there. -/
theorem derives_iff {lexemes : List Lexeme} {nodes : Body} :
    Derives lexemes nodes ↔
      ∃ final, State.initial.steps lexemes = some final ∧ final.Ended ∧ final.nodes = nodes := by
  rw [← @bodyOf_eq_ok_iff 0, bodyOf, State.run_eq_ok_iff]

section

variable (place : Nat → Nat → Prop) (body : Body → Body → Prop)

def SpansAlike (one other : Span) : Prop :=
  place one.start other.start ∧ place one.stop other.stop

/-- Nodes of the same kind and content, the bodies in them compared by `body`. -/
inductive NodesAlike : Node → Node → Prop
  | text {one other : Span} (spans : SpansAlike place one other) (content : String) :
      NodesAlike (.text one content) (.text other content)
  | output {one other : Span} (spans : SpansAlike place one other) (path : Path) :
      NodesAlike (.output one path) (.output other path)
  | slot {one other : Span} (spans : SpansAlike place one other) (name : String) :
      NodesAlike (.slot one name) (.slot other name)
  | invoke {one other : Span} (spans : SpansAlike place one other) (name : String)
      (argument : Option Path) : NodesAlike (.invoke one name argument) (.invoke other name argument)
  | opening {one other : Span} (spans : SpansAlike place one other) (opening : Opening)
      {first also second further : Body} (firsts : body first also) (seconds : body second further) :
      NodesAlike (opening.node one first second) (opening.node other also further)

end

/-- What two readings have in common: how positions go together, and how bodies do. -/
structure Likeness where
  place : Nat → Nat → Prop
  body : Body → Body → Prop
  empty : body [] []
  extended : ∀ {nodes others : Body} {node other : Node}, body nodes others →
    NodesAlike place body node other → body (nodes ++ [node]) (others ++ [other])

section

variable {α β γ δ : Type} {related : α → β → Prop} {mapped : γ → δ → Prop}
  {one : Option α} {other : Option β} (pairs : Option.Rel related one other)
include pairs

theorem rel_map {f : α → γ} {g : β → δ} (both : ∀ {a b}, related a b → mapped (f a) (g b)) :
    Option.Rel mapped (one.map f) (other.map g) := by
  cases pairs with
  | some pair => exact .some (both pair)
  | none => exact .none

theorem rel_bind {f : α → Option γ} {g : β → Option δ}
    (both : ∀ {a b}, related a b → Option.Rel mapped (f a) (g b)) :
    Option.Rel mapped (one.bind f) (other.bind g) := by
  cases pairs with
  | some pair => exact both pair
  | none => exact .none

theorem exists_of_rel_some {a : α} (known : one = some a) :
    ∃ b, other = some b ∧ related a b := by
  cases pairs with
  | some pair =>
      obtain rfl := Option.some.inj known
      exact ⟨_, rfl, pair⟩
  | none => cases known

end

namespace Likeness

variable (like : Likeness)

inductive Phases : Phase → Phase → Prop
  | between : Phases .between .between
  | opened {start also : Nat} (starts : like.place start also) :
      Phases (.opened start) (.opened also)
  | name {start also : Nat} (starts : like.place start also) (naming : Naming) :
      Phases (.name start naming) (.name also naming)
  | argument {start also : Nat} (starts : like.place start also) (naming : Naming) (name : String) :
      Phases (.argument start naming name) (.argument also naming name)
  | path {start also : Nat} (starts : like.place start also) (kind : Control) :
      Phases (.path start kind) (.path also kind)
  | closing {start also : Nat} (starts : like.place start also) (content : Content) :
      Phases (.closing start content) (.closing also content)

structure Frames (one other : Frame) : Prop where
  opening : one.opening = other.opening
  start : like.place one.start other.start
  outer : like.body one.outer other.outer
  first : Option.Rel like.body one.first other.first

structure States (one other : State) : Prop where
  phase : like.Phases one.phase other.phase
  nodes : like.body one.nodes other.nodes
  frames : List.Forall₂ like.Frames one.frames other.frames

structure Lexemes (one other : Lexeme) : Prop where
  token : one.token = other.token
  span : SpansAlike like.place one.span other.span

theorem alike_of_tokens (anywhere : ∀ position also, like.place position also)
    {lexemes others : List Lexeme} (same : lexemes.map Lexeme.token = others.map Lexeme.token) :
    List.Forall₂ like.Lexemes lexemes others := by
  have pairs := List.forall₂_eq_eq_eq ▸ same
  rw [List.forall₂_map_left_iff, List.forall₂_map_right_iff] at pairs
  exact pairs.imp fun one other tokens => ⟨tokens, anywhere _ _, anywhere _ _⟩

theorem states_initial : like.States .initial .initial :=
  ⟨.between, like.empty, .nil⟩

variable {like}

theorem States.allowsAlternative_eq {one other : State} (alike : like.States one other) :
    one.allowsAlternative = other.allowsAlternative := by
  obtain ⟨phase, nodes, frames⟩ := one
  obtain ⟨phase, nodes, others⟩ := other
  have inFrames := alike.frames
  simp only at inFrames
  cases inFrames with
  | nil => rfl
  | @cons frame other _ _ frameAlike _ =>
      obtain ⟨opening, start, outer, first⟩ := frame
      obtain ⟨_, _, _, second⟩ := other
      obtain ⟨rfl, -, -, firsts⟩ := frameAlike
      cases opening with
      | control kind path => cases firsts <;> rfl
      | _ => rfl

theorem States.isEmpty_frames {one other : State} (alike : like.States one other) :
    one.frames.isEmpty = other.frames.isEmpty := by
  have sizes := alike.frames.length_eq
  rw [Bool.eq_iff_iff, List.isEmpty_iff, List.isEmpty_iff, ← List.length_eq_zero_iff,
    ← List.length_eq_zero_iff, sizes]

theorem States.push {one other : State} (alike : like.States one other) {node also : Node}
    (nodes : NodesAlike like.place like.body node also) :
    like.States (one.push node) (other.push also) :=
  ⟨.between, like.extended alike.nodes nodes, alike.frames⟩

theorem States.withPhase {one other : State} (alike : like.States one other) {phase also : Phase}
    (phases : like.Phases phase also) :
    like.States { one with phase := phase } { other with phase := also } :=
  ⟨phases, alike.nodes, alike.frames⟩

theorem States.close {one other : State} (alike : like.States one other) {span also : Span}
    (spans : SpansAlike like.place span also) (content : Content) :
    Option.Rel like.States (one.close span.start span.stop content)
      (other.close also.start also.stop content) := by
  cases content with
  | output path => exact .some (alike.push (.output spans path))
  | slot name => exact .some (alike.push (.slot spans name))
  | invoke name argument => exact .some (alike.push (.invoke spans name argument))
  | opening opening =>
      exact .some ⟨.between, like.empty, .cons ⟨rfl, spans.1, alike.nodes, .none⟩ alike.frames⟩
  | alternative =>
      obtain ⟨_, nodes, frames⟩ := one
      obtain ⟨_, others, otherFrames⟩ := other
      have inFrames := alike.frames
      simp only at inFrames
      cases inFrames with
      | nil => exact .none
      | cons frame rest =>
          exact .some ⟨.between, like.empty,
            .cons ⟨frame.opening, frame.start, frame.outer, .some alike.nodes⟩ rest⟩
  | finish =>
      obtain ⟨_, nodes, frames⟩ := one
      obtain ⟨_, others, otherFrames⟩ := other
      have inFrames := alike.frames
      simp only at inFrames
      cases inFrames with
      | nil => exact .none
      | @cons frame also _ _ frameAlike rest =>
          obtain ⟨opening, start, outer, first⟩ := frame
          obtain ⟨_, _, _, second⟩ := also
          obtain ⟨rfl, starts, outers, firsts⟩ := frameAlike
          have closed : SpansAlike like.place ⟨start, span.stop⟩ ⟨_, also.stop⟩ :=
            ⟨starts, spans.2⟩
          cases firsts with
          | none =>
              exact .some ⟨.between,
                like.extended outers (.opening closed opening alike.nodes like.empty), rest⟩
          | some bodies =>
              exact .some ⟨.between,
                like.extended outers (.opening closed opening bodies alike.nodes), rest⟩

theorem States.afterKeyword {one other : State} (alike : like.States one other) {start also : Nat}
    (starts : like.place start also) (word : Keyword) :
    Option.Rel like.Phases (one.afterKeyword? start word) (other.afterKeyword? also word) := by
  cases word with
  | template => exact .some (.name starts .template)
  | define => exact .some (.name starts .define)
  | block => exact .some (.name starts .block)
  | condition => exact .some (.path starts .condition)
  | each => exact .some (.path starts .each)
  | scope => exact .some (.path starts .scope)
  | alternative =>
      rw [State.afterKeyword?, State.afterKeyword?, alike.allowsAlternative_eq]
      split
      · exact .some (.closing starts .alternative)
      · exact .none
  | finish =>
      rw [State.afterKeyword?, State.afterKeyword?, alike.isEmpty_frames]
      split
      · exact .none
      · exact .some (.closing starts .finish)

theorem step_alike {one other : State} (alike : like.States one other) {lexeme also : Lexeme}
    (lexemes : like.Lexemes lexeme also) :
    Option.Rel like.States (one.step lexeme) (other.step also) := by
  obtain ⟨token, span⟩ := lexeme
  obtain ⟨_, otherSpan⟩ := also
  obtain ⟨rfl, spans⟩ := lexemes
  obtain ⟨phase, nodes, frames⟩ := one
  obtain ⟨otherPhase, others, otherFrames⟩ := other
  have phases := alike.phase
  simp only at phases
  cases phases with
  | between =>
      cases token with
      | text content => exact .some (alike.push (.text spans content))
      | openAction => exact .some (alike.withPhase (.opened spans.1))
      | _ => exact .none
  | opened starts =>
      cases token with
      | field names => exact .some (alike.withPhase (.closing starts (.output ⟨false, names⟩)))
      | root names => exact .some (alike.withPhase (.closing starts (.output ⟨true, names⟩)))
      | identifier name => exact .some (alike.withPhase (.closing starts (.slot name)))
      | keyword word =>
          exact rel_map (alike.afterKeyword starts word) fun phases => alike.withPhase phases
      | _ => exact .none
  | name starts naming =>
      cases token with
      | quoted name =>
          cases naming with
          | define => exact .some (alike.withPhase (.closing starts (.named .define name none)))
          | template => exact .some (alike.withPhase (.argument starts .template name))
          | block => exact .some (alike.withPhase (.argument starts .block name))
      | _ => cases naming <;> exact .none
  | argument starts naming name =>
      cases token with
      | field names =>
          exact .some (alike.withPhase (.closing starts (.named naming name (some ⟨false, names⟩))))
      | root names =>
          exact .some (alike.withPhase (.closing starts (.named naming name (some ⟨true, names⟩))))
      | closeAction =>
          have closed : SpansAlike like.place ⟨_, span.stop⟩ ⟨_, otherSpan.stop⟩ :=
            ⟨starts, spans.2⟩
          exact alike.close closed (.named naming name none)
      | _ => exact .none
  | path starts kind =>
      cases token with
      | field names =>
          exact .some
            (alike.withPhase (.closing starts (.opening (.control kind ⟨false, names⟩))))
      | root names =>
          exact .some
            (alike.withPhase (.closing starts (.opening (.control kind ⟨true, names⟩))))
      | _ => exact .none
  | closing starts content =>
      cases token with
      | closeAction =>
          have closed : SpansAlike like.place ⟨_, span.stop⟩ ⟨_, otherSpan.stop⟩ :=
            ⟨starts, spans.2⟩
          exact alike.close closed content
      | _ => exact .none

theorem steps_alike {one other : State} (alike : like.States one other)
    {lexemes others : List Lexeme} (pairs : List.Forall₂ like.Lexemes lexemes others) :
    Option.Rel like.States (one.steps lexemes) (other.steps others) := by
  induction pairs generalizing one other with
  | nil => exact .some alike
  | cons pair _ induction =>
      rw [State.steps, State.steps, List.foldlM_cons, List.foldlM_cons]
      exact rel_bind (step_alike alike pair) fun next => induction next

theorem States.ended {one other : State} (alike : like.States one other) (ended : one.Ended) :
    other.Ended := by
  obtain ⟨phase, nodes, frames⟩ := one
  obtain ⟨otherPhase, others, otherFrames⟩ := other
  obtain ⟨rfl, rfl⟩ := ended
  obtain ⟨phases, -, inFrames⟩ := alike
  cases phases
  cases inFrames
  exact ⟨rfl, rfl⟩

theorem derives_alike {lexemes others : List Lexeme} {nodes : Body}
    (pairs : List.Forall₂ like.Lexemes lexemes others) (derives : Derives lexemes nodes) :
    ∃ also, Derives others also ∧ like.body nodes also := by
  obtain ⟨final, reached, ended, rfl⟩ := derives_iff.mp derives
  have alike := steps_alike like.states_initial pairs
  obtain ⟨last, same, finals⟩ := exists_of_rel_some alike reached
  exact ⟨last.nodes, derives_iff.mpr ⟨last, same, finals.ended ended, rfl⟩, finals.nodes⟩

end Likeness

end PageAssembly.Language
