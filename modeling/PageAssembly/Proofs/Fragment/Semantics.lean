import PageAssembly.Proofs.Fragment.Values

/-!
What fragments mean, with no bound on how deep invocations nest. A task is done at once, cannot be
done, stands for another task, or is done in two parts; an invocation is done as the body of its
fragment. A task that never ends has no outcome, but all the same its evaluation gets to
invocations, each of them nested so and so deep.
-/

namespace PageAssembly.Semantics

open PageAssembly.Language (Body Node Path)

/-- An invocation with its dot; a node or a body, in the fragment that it stands in, with the dot;
or a body for each of some values. -/
inductive Task where
  | invocation (name : String) (dot : Json)
  | node (fragment : String) (node : Node) (dot : Json)
  | body (fragment : String) (body : Body) (dot : Json)
  | items (fragment : String) (body : Body) (items : List Json)

section

variable (set : FragmentSet) (slots : Slots) (root : Json)

/-- Tasks that are done by writing these bytes. -/
inductive Writes : Task → Bytes → Prop where
  | text {fragment : String} {span : Language.Span} {content : String} {dot : Json} :
      Writes (.node fragment (.text span content) dot) (Text.encodeString content)
  | output {fragment : String} {span : Language.Span} {path : Path} {dot value : Json}
      (denotes : Denotes root dot path value) :
      Writes (.node fragment (.output span path) dot) (Text.encode (value.shown.flatMap entity))
  | slot {fragment : String} {span : Language.Span} {name : String} {dot : Json} {markup : Bytes}
      (known : slots.get? name = some markup) : Writes (.node fragment (.slot span name) dot) markup
  | define {fragment : String} {span : Language.Span} {name : String} {body : Body} {dot : Json} :
      Writes (.node fragment (.define span name body) dot) []
  | empty {fragment : String} {dot : Json} : Writes (.body fragment [] dot) []
  | noItems {fragment : String} {body : Body} : Writes (.items fragment body []) []

/-- Nodes that cannot be done. -/
inductive Refuses : Task → ExecutionError → Prop where
  | slot {fragment : String} {span : Language.Span} {name : String} {dot : Json}
      (unknown : slots.get? name = none) :
      Refuses (.node fragment (.slot span name) dot) (.unknownSlot name fragment)
  | each {fragment : String} {span : Language.Span} {path : Path} {body otherwise : Body}
      {dot value : Json} (denotes : Denotes root dot path value)
      (single : ∀ items, ¬ Items value items) :
      Refuses (.node fragment (.control span .each path body otherwise) dot)
        (.notIterable path.print fragment)

/-- Nodes that stand for other tasks. A block is invoked where it is defined; only invocations and
the bodies of `with` and `range` have a dot of their own. -/
inductive Means : Task → Task → Prop where
  | invoke {fragment : String} {span : Language.Span} {name : String} {argument : Option Path}
      {dot value : Json} (passes : Passes root dot argument value) :
      Means (.node fragment (.invoke span name argument) dot) (.invocation name value)
  | block {fragment : String} {span : Language.Span} {name : String} {argument : Option Path}
      {body : Body} {dot value : Json} (passes : Passes root dot argument value) :
      Means (.node fragment (.block span name argument body) dot) (.invocation name value)
  | condition {fragment : String} {span : Language.Span} {path : Path} {body otherwise : Body}
      {dot value : Json} (denotes : Denotes root dot path value) (holds : ¬ Void value) :
      Means (.node fragment (.control span .condition path body otherwise) dot)
        (.body fragment body dot)
  | conditionElse {fragment : String} {span : Language.Span} {path : Path} {body otherwise : Body}
      {dot value : Json} (denotes : Denotes root dot path value) (void : Void value) :
      Means (.node fragment (.control span .condition path body otherwise) dot)
        (.body fragment otherwise dot)
  | scope {fragment : String} {span : Language.Span} {path : Path} {body otherwise : Body}
      {dot value : Json} (denotes : Denotes root dot path value) (holds : ¬ Void value) :
      Means (.node fragment (.control span .scope path body otherwise) dot)
        (.body fragment body value)
  | scopeElse {fragment : String} {span : Language.Span} {path : Path} {body otherwise : Body}
      {dot value : Json} (denotes : Denotes root dot path value) (void : Void value) :
      Means (.node fragment (.control span .scope path body otherwise) dot)
        (.body fragment otherwise dot)
  | each {fragment : String} {span : Language.Span} {path : Path} {body otherwise : Body}
      {dot value item : Json} {items : List Json} (denotes : Denotes root dot path value)
      (several : Items value (item :: items)) :
      Means (.node fragment (.control span .each path body otherwise) dot)
        (.items fragment body (item :: items))
  | eachElse {fragment : String} {span : Language.Span} {path : Path} {body otherwise : Body}
      {dot value : Json} (denotes : Denotes root dot path value) (nothing : Items value []) :
      Means (.node fragment (.control span .each path body otherwise) dot)
        (.body fragment otherwise dot)

/-- Tasks that have a first part and a part after it. -/
inductive Splits : Task → Task → Task → Prop where
  | body {fragment : String} {node : Node} {nodes : Body} {dot : Json} :
      Splits (.body fragment (node :: nodes) dot) (.node fragment node dot)
        (.body fragment nodes dot)
  | items {fragment : String} {body : Body} {item : Json} {items : List Json} :
      Splits (.items fragment body (item :: items)) (.body fragment body item)
        (.items fragment body items)

/-- The outcome of a task: what it writes, and the first error if there is one. -/
inductive Evaluates : Task → Output → Prop where
  | write {task : Task} {bytes : Bytes} (writes : Writes slots root task bytes) :
      Evaluates task ⟨bytes, none⟩
  | fail {task : Task} {error : ExecutionError} (refuses : Refuses slots root task error) :
      Evaluates task ⟨[], some error⟩
  | means {task other : Task} {output : Output} (means : Means root task other)
      (outcome : Evaluates other output) : Evaluates task output
  | missing {name : String} {dot : Json} (undefined : set.find? name = none) :
      Evaluates (.invocation name dot) ⟨[], some (.missingFragment name)⟩
  | invoke {name : String} {fragment : Fragment} {dot : Json} {output : Output}
      (defined : set.find? name = some fragment)
      (inside : Evaluates (.body fragment.name fragment.body dot) output) :
      Evaluates (.invocation name dot) output
  | stop {task first later : Task} {bytes : Bytes} {error : ExecutionError}
      (splits : Splits task first later) (failed : Evaluates first ⟨bytes, some error⟩) :
      Evaluates task ⟨bytes, some error⟩
  | go {task first later : Task} {bytes more : Bytes} {failure : Option ExecutionError}
      (splits : Splits task first later) (done : Evaluates first ⟨bytes, none⟩)
      (rest : Evaluates later ⟨more, failure⟩) : Evaluates task ⟨bytes ++ more, failure⟩

/-- Evaluating a task gets, when it has written these bytes and has met no error, to an invocation
that is nested so deep in it. -/
inductive Reaches : Task → Nat → Bytes → Prop where
  | here {name : String} {dot : Json} : Reaches (.invocation name dot) 0 []
  | means {task other : Task} {depth : Nat} {bytes : Bytes} (means : Means root task other)
      (reached : Reaches other depth bytes) : Reaches task depth bytes
  | invoke {name : String} {fragment : Fragment} {dot : Json} {depth : Nat} {bytes : Bytes}
      (defined : set.find? name = some fragment)
      (inside : Reaches (.body fragment.name fragment.body dot) depth bytes) :
      Reaches (.invocation name dot) (depth + 1) bytes
  | first {task first later : Task} {depth : Nat} {bytes : Bytes} (splits : Splits task first later)
      (reached : Reaches first depth bytes) : Reaches task depth bytes
  | later {task first later : Task} {depth : Nat} {bytes more : Bytes}
      (splits : Splits task first later) (done : Evaluates set slots root first ⟨bytes, none⟩)
      (reached : Reaches later depth more) : Reaches task depth (bytes ++ more)

end

end PageAssembly.Semantics
