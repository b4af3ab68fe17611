import PageAssembly.Language.Node
import PageAssembly.Language.Scanner

/-!
From lexemes to nodes, one lexeme at a time. The state holds the nodes read so far and the actions
that still wait for their end, innermost first; it always tells which tokens may come next.
-/

namespace PageAssembly.Language

inductive Naming where
  | template
  | define
  | block
deriving DecidableEq

inductive Opening where
  | define (name : String)
  | block (name : String) (argument : Option Path)
  | control (kind : Control) (path : Path)
deriving DecidableEq

def Opening.node (opening : Opening) (span : Span) (body otherwise : Body) : Node :=
  match opening with
  | .define name => .define span name body
  | .block name argument => .block span name argument body
  | .control kind path => .control span kind path body otherwise

inductive Content where
  | output (path : Path)
  | slot (name : String)
  | invoke (name : String) (argument : Option Path)
  | opening (opening : Opening)
  | alternative
  | finish
deriving DecidableEq

/-- Where in an action the next token stands; the number is the byte at which the action starts. -/
inductive Phase where
  | between
  | opened (start : Nat)
  | name (start : Nat) (naming : Naming)
  | argument (start : Nat) (naming : Naming) (name : String)
  | path (start : Nat) (kind : Control)
  | closing (start : Nat) (content : Content)
deriving DecidableEq

/-- An action whose end is still to come: where it starts, the nodes that stand before it in the
body around it, and its first body once the alternative has begun. -/
structure Frame where
  opening : Opening
  start : Nat
  outer : Body
  first : Option Body

structure State where
  phase : Phase
  nodes : Body
  frames : List Frame

def State.initial : State := ⟨.between, [], []⟩

def Frame.allowsAlternative (frame : Frame) : Bool :=
  match frame.opening with
  | .control _ _ => frame.first.isNone
  | _ => false

def State.allowsAlternative (state : State) : Bool :=
  match state.frames with
  | frame :: _ => frame.allowsAlternative
  | [] => false

def State.push (state : State) (node : Node) : State :=
  { state with phase := .between, nodes := state.nodes ++ [node] }

def State.afterKeyword? (state : State) (start : Nat) : Keyword → Option Phase
  | .template => some (.name start .template)
  | .define => some (.name start .define)
  | .block => some (.name start .block)
  | .condition => some (.path start .condition)
  | .each => some (.path start .each)
  | .scope => some (.path start .scope)
  | .alternative => if state.allowsAlternative then some (.closing start .alternative) else none
  | .finish => if state.frames.isEmpty then none else some (.closing start .finish)

def Content.named (naming : Naming) (name : String) (argument : Option Path) : Content :=
  match naming with
  | .template => .invoke name argument
  | .define => .opening (.define name)
  | .block => .opening (.block name argument)

def State.close (state : State) (start stop : Nat) : Content → Option State
  | .output path => some (state.push (.output ⟨start, stop⟩ path))
  | .slot name => some (state.push (.slot ⟨start, stop⟩ name))
  | .invoke name argument => some (state.push (.invoke ⟨start, stop⟩ name argument))
  | .opening opening => some ⟨.between, [], ⟨opening, start, state.nodes, none⟩ :: state.frames⟩
  | .alternative =>
      match state.frames with
      | frame :: frames => some ⟨.between, [], { frame with first := some state.nodes } :: frames⟩
      | [] => none
  | .finish =>
      match state.frames with
      | frame :: frames =>
          let node :=
            match frame.first with
            | some first => frame.opening.node ⟨frame.start, stop⟩ first state.nodes
            | none => frame.opening.node ⟨frame.start, stop⟩ state.nodes []
          some ⟨.between, frame.outer ++ [node], frames⟩
      | [] => none

def State.step (state : State) (lexeme : Lexeme) : Option State :=
  match state.phase, lexeme.token with
  | .between, .text content => some (state.push (.text lexeme.span content))
  | .between, .openAction => some { state with phase := .opened lexeme.span.start }
  | .opened start, .field names =>
      some { state with phase := .closing start (.output ⟨false, names⟩) }
  | .opened start, .root names =>
      some { state with phase := .closing start (.output ⟨true, names⟩) }
  | .opened start, .identifier name => some { state with phase := .closing start (.slot name) }
  | .opened start, .keyword word =>
      (state.afterKeyword? start word).map fun phase => { state with phase := phase }
  | .name start .define, .quoted name =>
      some { state with phase := .closing start (.named .define name none) }
  | .name start naming, .quoted name => some { state with phase := .argument start naming name }
  | .argument start naming name, .field names =>
      some { state with phase := .closing start (.named naming name (some ⟨false, names⟩)) }
  | .argument start naming name, .root names =>
      some { state with phase := .closing start (.named naming name (some ⟨true, names⟩)) }
  | .argument start naming name, .closeAction =>
      state.close start lexeme.span.stop (.named naming name none)
  | .path start kind, .field names =>
      some { state with phase := .closing start (.opening (.control kind ⟨false, names⟩)) }
  | .path start kind, .root names =>
      some { state with phase := .closing start (.opening (.control kind ⟨true, names⟩)) }
  | .closing start content, .closeAction => state.close start lexeme.span.stop content
  | _, _ => none

/-- The tokens of one spelling that may come next. -/
def State.expected (state : State) : List Token :=
  match state.phase with
  | .between => [.openAction]
  | .opened _ =>
      [.keyword .template, .keyword .define, .keyword .block, .keyword .condition, .keyword .each,
        .keyword .scope] ++
        (if state.allowsAlternative then [.keyword .alternative] else []) ++
        (if state.frames.isEmpty then [] else [.keyword .finish])
  | .name _ _ => []
  | .argument _ _ _ => [.closeAction]
  | .path _ _ => []
  | .closing _ _ => [.closeAction]

/-- Reads the lexemes of a source of `size` bytes up to its end, the last one before them ending at
byte `stop`. An error at the end starts there and reaches back to the last lexeme, which comments
can follow. -/
def State.run (size stop : Nat) (state : State) : List Lexeme → Except SourceError Body
  | [] =>
      if state.phase = .between ∧ state.frames.isEmpty then
        .ok state.nodes
      else
        .error ⟨⟨size, stop⟩, .unexpected none state.expected⟩
  | lexeme :: lexemes =>
      match state.step lexeme with
      | some next => next.run size lexeme.span.stop lexemes
      | none => .error ⟨lexeme.span, .unexpected (some lexeme.token) state.expected⟩

def bodyOf (size : Nat) (lexemes : List Lexeme) : Except SourceError Body :=
  State.initial.run size size lexemes

def parse (source : String) : Except SourceError Body := do
  let lexemes ← scan source
  bodyOf (Text.byteSize source.toList) lexemes

end PageAssembly.Language
