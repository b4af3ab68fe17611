import PageAssembly.Proofs.Fragment.Semantics

/-!
Executing a fragment comes to what the fragment means. As long as an execution does not run out of
depth it is the evaluation of its tasks; it runs out of depth exactly where the evaluation gets to
an invocation that is nested too deep.
-/

namespace PageAssembly

open PageAssembly.Language (Body Node Path)

namespace Output

def OutOfDepth (output : Output) : Prop :=
  output.failure = some .tooDeep

theorem outOfDepth_andThen {output : Output} (out : output.OutOfDepth) (next : Unit → Output) :
    output.andThen next = output := by
  rw [andThen, show output.failure = some .tooDeep from out]

theorem andThen_failed (bytes : Bytes) (error : ExecutionError) (next : Unit → Output) :
    (Output.mk bytes (some error)).andThen next = ⟨bytes, some error⟩ :=
  rfl

theorem andThen_done (bytes : Bytes) (next : Unit → Output) :
    (Output.mk bytes none).andThen next = ⟨bytes ++ (next ()).bytes, (next ()).failure⟩ :=
  rfl

end Output

namespace Semantics

/-- What an execution makes of a task in which invocations may nest `depth` deep. -/
def Task.output (set : FragmentSet) (slots : Slots) (root : Json) (depth : Nat) : Task → Output
  | .invocation name dot => Execution.ofInvocation set slots root depth name dot
  | .node fragment one dot =>
      Execution.ofNode slots root (Execution.ofInvocation set slots root depth) fragment one dot
  | .body fragment nodes dot =>
      Execution.ofBody slots root (Execution.ofInvocation set slots root depth) fragment nodes dot
  | .items fragment nodes values =>
      Output.onEach (Execution.ofBody slots root (Execution.ofInvocation set slots root depth)
        fragment nodes) values

section

variable {set : FragmentSet} {slots : Slots} {root : Json}

theorem output_of_writes {task : Task} {bytes : Bytes} (writes : Writes slots root task bytes)
    (depth : Nat) : task.output set slots root depth = ⟨bytes, none⟩ := by
  cases writes with
  | text => simp only [Task.output, Execution.ofNode, Output.write, Form.piece_bytes]
  | output denotes =>
      simp only [Task.output, Execution.ofNode, Output.write, Form.piece_bytes,
        denotes_iff.mp denotes, escapeContent_eq]
  | slot known => simp only [Task.output, Execution.ofNode, Output.write, Form.piece_bytes, known]
  | define => simp only [Task.output, Execution.ofNode, Output.write, Form.piece_bytes]
  | empty => simp only [Task.output, Execution.ofBody, Output.write, Form.piece_bytes]
  | noItems => simp only [Task.output, Output.onEach, Output.write, Form.piece_bytes]

theorem output_of_refuses {task : Task} {error : ExecutionError}
    (refuses : Refuses slots root task error) (depth : Nat) :
    task.output set slots root depth = ⟨[], some error⟩ := by
  cases refuses with
  | slot unknown => simp only [Task.output, Execution.ofNode, Output.fail, Form.piece_bytes, unknown]
  | @each _ _ _ _ _ _ value denotes single =>
      have nothing : value.items? = none := by
        rw [Option.eq_none_iff_forall_ne_some]
        intro items found
        exact single items (items_iff.mpr found)
      simp only [Task.output, Execution.ofNode, Output.fail, Form.piece_bytes,
        denotes_iff.mp denotes, nothing]

theorem output_of_means {task other : Task} (means : Means root task other) (depth : Nat) :
    task.output set slots root depth = other.output set slots root depth := by
  cases means with
  | invoke passes => simp only [Task.output, Execution.ofNode, passes_iff.mp passes]
  | block passes => simp only [Task.output, Execution.ofNode, passes_iff.mp passes]
  | condition denotes holds =>
      simp only [void_iff, Bool.not_eq_false] at holds
      simp only [Task.output, Execution.ofNode, denotes_iff.mp denotes, holds, if_true]
  | conditionElse denotes void =>
      simp only [Task.output, Execution.ofNode, denotes_iff.mp denotes, (void_iff _).mp void,
        Bool.false_eq_true, if_false]
  | scope denotes holds =>
      simp only [void_iff, Bool.not_eq_false] at holds
      simp only [Task.output, Execution.ofNode, denotes_iff.mp denotes, holds, if_true]
  | scopeElse denotes void =>
      simp only [Task.output, Execution.ofNode, denotes_iff.mp denotes, (void_iff _).mp void,
        Bool.false_eq_true, if_false]
  | each denotes several =>
      simp only [Task.output, Execution.ofNode, denotes_iff.mp denotes, items_iff.mp several]
  | eachElse denotes nothing =>
      simp only [Task.output, Execution.ofNode, denotes_iff.mp denotes, items_iff.mp nothing]

theorem output_of_splits {task first later : Task} (splits : Splits task first later)
    (depth : Nat) :
    task.output set slots root depth =
      (first.output set slots root depth).andThen fun _ => later.output set slots root depth := by
  cases splits with
  | body => simp only [Task.output, Execution.ofBody]
  | items => simp only [Task.output, Output.onEach]

theorem output_of_undefined {name : String} (undefined : set.find? name = none) (dot : Json)
    (depth : Nat) :
    (Task.invocation name dot).output set slots root (depth + 1) =
      ⟨[], some (.missingFragment name)⟩ := by
  simp only [Task.output, Execution.ofInvocation, Output.fail, Form.piece_bytes, undefined]

theorem output_of_defined {name : String} {fragment : Fragment} {dot : Json}
    (defined : set.find? name = some fragment) (depth : Nat) :
    (Task.invocation name dot).output set slots root (depth + 1) =
      (Task.body fragment.name fragment.body dot).output set slots root depth := by
  simp only [Task.output, Execution.ofInvocation, defined]

/-- An evaluation that comes to its end is what every execution with enough depth does. -/
theorem Evaluates.output_eq {task : Task} {outcome : Output}
    (evaluates : Evaluates set slots root task outcome) (depth : Nat) :
    (task.output set slots root depth).OutOfDepth ∨
      task.output set slots root depth = outcome := by
  induction evaluates generalizing depth with
  | write writes => exact Or.inr (output_of_writes writes depth)
  | fail refuses => exact Or.inr (output_of_refuses refuses depth)
  | means means _ induction =>
      rw [output_of_means means]
      exact induction depth
  | missing undefined =>
      cases depth with
      | zero => exact Or.inl rfl
      | succ depth => exact Or.inr (output_of_undefined undefined _ depth)
  | invoke defined _ induction =>
      cases depth with
      | zero => exact Or.inl rfl
      | succ depth =>
          rw [output_of_defined defined]
          exact induction depth
  | stop splits _ induction =>
      rw [output_of_splits splits]
      rcases induction depth with out | same
      · rw [Output.outOfDepth_andThen out]
        exact Or.inl out
      · rw [same, Output.andThen_failed]
        exact Or.inr rfl
  | go splits _ _ induction inductionLater =>
      rw [output_of_splits splits]
      rcases induction depth with out | same
      · rw [Output.outOfDepth_andThen out]
        exact Or.inl out
      · rw [same, Output.andThen_done]
        rcases inductionLater depth with out | also
        · exact Or.inl out
        · rw [also]
          exact Or.inr rfl

/-- Where an evaluation gets to an invocation nested so deep, an execution that allows no such depth
stops, there or before. -/
theorem Reaches.outOfDepth {task : Task} {depth : Nat} {bytes : Bytes}
    (reaches : Reaches set slots root task depth bytes) :
    (task.output set slots root depth).OutOfDepth := by
  induction reaches with
  | here => rfl
  | means means _ induction =>
      rw [output_of_means means]
      exact induction
  | invoke defined _ induction =>
      rw [output_of_defined defined]
      exact induction
  | first splits _ induction =>
      rw [output_of_splits splits, Output.outOfDepth_andThen induction]
      exact induction
  | later splits done _ induction =>
      rw [output_of_splits splits]
      rcases done.output_eq _ with out | same
      · rw [Output.outOfDepth_andThen out]
        exact out
      · rw [same, Output.andThen_done]
        exact induction

/-- What an execution does with a task in which invocations may nest `depth` deep: it evaluates the
task, or writes what the evaluation does until it gets to an invocation nested deeper. -/
inductive Bounded (set : FragmentSet) (slots : Slots) (root : Json) (depth : Nat) (task : Task) :
    Prop where
  | evaluated (inDepth : ¬ (task.output set slots root depth).OutOfDepth)
      (evaluates : Evaluates set slots root task (task.output set slots root depth))
  | reached (out : (task.output set slots root depth).OutOfDepth)
      (reaches : Reaches set slots root task depth (task.output set slots root depth).bytes)

section

variable {task first later other : Task} {depth : Nat}

theorem bounded_of_writes {bytes : Bytes} (writes : Writes slots root task bytes) :
    Bounded set slots root depth task := by
  have same : task.output set slots root depth = ⟨bytes, none⟩ := output_of_writes writes depth
  refine .evaluated ?_ ?_ <;> rw [same]
  · intro out
    cases out
  · exact .write writes

theorem bounded_of_refuses {error : ExecutionError} (refuses : Refuses slots root task error) :
    Bounded set slots root depth task := by
  have same : task.output set slots root depth = ⟨[], some error⟩ :=
    output_of_refuses refuses depth
  refine .evaluated ?_ ?_ <;> rw [same]
  · intro out
    cases refuses <;> cases out
  · exact .fail refuses

theorem bounded_of_means (means : Means root task other)
    (bounded : Bounded set slots root depth other) : Bounded set slots root depth task := by
  have same : task.output set slots root depth = other.output set slots root depth :=
    output_of_means means depth
  cases bounded with
  | evaluated inDepth evaluates =>
      rw [← same] at inDepth evaluates
      exact .evaluated inDepth (.means means evaluates)
  | reached out reaches =>
      rw [← same] at out reaches
      exact .reached out (.means means reaches)

theorem bounded_of_splits (splits : Splits task first later)
    (bounded : Bounded set slots root depth first)
    (boundedLater : Bounded set slots root depth later) : Bounded set slots root depth task := by
  have same : task.output set slots root depth =
      (first.output set slots root depth).andThen fun _ => later.output set slots root depth :=
    output_of_splits splits depth
  cases bounded with
  | reached out reaches =>
      rw [Output.outOfDepth_andThen out] at same
      rw [← same] at out reaches
      exact .reached out (.first splits reaches)
  | evaluated inDepth evaluates =>
      rcases ended : first.output set slots root depth with ⟨bytes, _ | error⟩ <;>
        rw [ended] at same inDepth evaluates
      · rw [Output.andThen_done] at same
        cases boundedLater with
        | evaluated inDepthLater also =>
            refine .evaluated ?_ ?_ <;> rw [same]
            · exact inDepthLater
            · exact .go splits evaluates also
        | reached out reaches =>
            refine .reached ?_ ?_ <;> rw [same]
            · exact out
            · exact .later splits evaluates reaches
      · rw [Output.andThen_failed] at same
        refine .evaluated ?_ ?_ <;> rw [same]
        · exact inDepth
        · exact .stop splits evaluates

theorem bounded_items {fragment : String} {body : Body}
    (each : ∀ dot, Bounded set slots root depth (.body fragment body dot)) (items : List Json) :
    Bounded set slots root depth (.items fragment body items) := by
  induction items with
  | nil => exact bounded_of_writes .noItems
  | cons item items induction => exact bounded_of_splits .items (each item) induction

mutual

theorem bounded_node (invoked : ∀ name dot, Bounded set slots root depth (.invocation name dot))
    (fragment : String) (node : Node) (dot : Json) :
    Bounded set slots root depth (.node fragment node dot) := by
  cases node with
  | text _ content => exact bounded_of_writes .text
  | output _ path => exact bounded_of_writes (.output (denotes_iff.mpr rfl))
  | slot _ name =>
      cases known : slots.get? name with
      | none => exact bounded_of_refuses (.slot known)
      | some markup => exact bounded_of_writes (.slot known)
  | invoke _ name argument => exact bounded_of_means (.invoke (passes_iff.mpr rfl)) (invoked name _)
  | block _ name argument _ => exact bounded_of_means (.block (passes_iff.mpr rfl)) (invoked name _)
  | define _ _ _ => exact bounded_of_writes .define
  | control _ kind path body otherwise =>
      have inBody := bounded_body invoked fragment body
      have inOtherwise := bounded_body invoked fragment otherwise
      obtain ⟨value, denotes⟩ : ∃ value, Denotes root dot path value := ⟨_, denotes_iff.mpr rfl⟩
      cases kind with
      | condition =>
          by_cases void : Void value
          · exact bounded_of_means (.conditionElse denotes void) (inOtherwise dot)
          · exact bounded_of_means (.condition denotes void) (inBody dot)
      | scope =>
          by_cases void : Void value
          · exact bounded_of_means (.scopeElse denotes void) (inOtherwise dot)
          · exact bounded_of_means (.scope denotes void) (inBody value)
      | each =>
          cases several : value.items? with
          | none =>
              refine bounded_of_refuses (.each denotes ?_)
              intro items also
              rw [items_iff.mp also] at several
              cases several
          | some items =>
              have through := items_iff.mpr several
              cases items with
              | nil => exact bounded_of_means (.eachElse denotes through) (inOtherwise dot)
              | cons item items =>
                  exact bounded_of_means (.each denotes through) (bounded_items inBody _)

theorem bounded_body (invoked : ∀ name dot, Bounded set slots root depth (.invocation name dot))
    (fragment : String) (body : Body) (dot : Json) :
    Bounded set slots root depth (.body fragment body dot) := by
  cases body with
  | nil => exact bounded_of_writes .empty
  | cons node nodes =>
      exact bounded_of_splits .body (bounded_node invoked fragment node dot)
        (bounded_body invoked fragment nodes dot)

end

theorem bounded_invocation (depth : Nat) (name : String) (dot : Json) :
    Bounded set slots root depth (.invocation name dot) := by
  induction depth generalizing name dot with
  | zero => exact .reached rfl .here
  | succ depth induction =>
      cases defined : set.find? name with
      | none =>
          have same : (Task.invocation name dot).output set slots root (depth + 1) =
              ⟨[], some (.missingFragment name)⟩ := output_of_undefined defined dot depth
          refine .evaluated ?_ ?_ <;> rw [same]
          · intro out
            cases out
          · exact .missing defined
      | some fragment =>
          have same : (Task.invocation name dot).output set slots root (depth + 1) =
              (Task.body fragment.name fragment.body dot).output set slots root depth :=
            output_of_defined defined depth
          cases bounded_body induction fragment.name fragment.body dot with
          | evaluated inDepth evaluates =>
              rw [← same] at inDepth evaluates
              exact .evaluated inDepth (.invoke defined evaluates)
          | reached out reaches =>
              rw [← same] at out reaches
              exact .reached out (.invoke defined reaches)

end

end

end Semantics

open Semantics (Evaluates Reaches)

/-- An execution that stays in depth comes to the one outcome that its main fragment has. It runs
out of depth exactly where the evaluation of that fragment gets, before any error, to an invocation
nested a hundred deep, and then it has written what the evaluation writes up to there. -/
theorem execute_follows_language (set : FragmentSet) (main : String) (data : Json)
    (slots : Slots) :
    (¬ (execute set main data slots).OutOfDepth → ∀ outcome,
      Evaluates set slots data (.invocation main data) outcome ↔
        execute set main data slots = outcome) ∧
    ((execute set main data slots).OutOfDepth ↔
      ∃ bytes, Reaches set slots data (.invocation main data) 100 bytes) ∧
    ((execute set main data slots).OutOfDepth →
      Reaches set slots data (.invocation main data) 100 (execute set main data slots).bytes) := by
  have evaluated : ∀ outcome, Evaluates set slots data (.invocation main data) outcome →
      (execute set main data slots).OutOfDepth ∨ execute set main data slots = outcome :=
    fun outcome evaluates => evaluates.output_eq maxDepth
  have stopped : (∃ bytes, Reaches set slots data (.invocation main data) 100 bytes) →
      (execute set main data slots).OutOfDepth :=
    fun ⟨_, reaches⟩ => reaches.outOfDepth
  have bounded : Semantics.Bounded set slots data maxDepth (.invocation main data) :=
    Semantics.bounded_invocation maxDepth main data
  cases bounded with
  | evaluated inDepth evaluates =>
      refine ⟨?_, ⟨fun out => absurd out inDepth, stopped⟩, fun out => absurd out inDepth⟩
      intro _ outcome
      constructor
      · intro also
        exact (evaluated outcome also).resolve_left inDepth
      · rintro rfl
        exact evaluates
  | reached out reaches =>
      exact ⟨fun inDepth => absurd out inDepth, ⟨fun _ => ⟨_, reaches⟩, stopped⟩, fun _ => reaches⟩

def Fragment.descending : Fragment :=
  ⟨"main", [.output ⟨0, 0⟩ ⟨false, ["name"]⟩,
    .control ⟨0, 0⟩ .scope ⟨false, ["next"]⟩ [.invoke ⟨0, 0⟩ "main" (some .dot)] []]⟩

def Fragment.cyclic : Fragment :=
  ⟨"main", [.text ⟨0, 0⟩ "a", .invoke ⟨0, 0⟩ "main" none]⟩

theorem cyclic_outOfDepth (slots : Slots) (root dot : Json) (depth : Nat) :
    (Execution.ofInvocation (FragmentSet.empty.insert .cyclic) slots root depth "main"
      dot).OutOfDepth := by
  induction depth generalizing dot with
  | zero => rfl
  | succ depth induction =>
      have inner := induction .null
      have same : (Execution.ofInvocation (FragmentSet.empty.insert .cyclic) slots root (depth + 1)
          "main" dot).failure =
          ((Execution.ofInvocation (FragmentSet.empty.insert .cyclic) slots root depth "main"
            .null).andThen fun _ => Output.write []).failure := rfl
      rw [Output.OutOfDepth, same, Output.outOfDepth_andThen inner]
      exact inner

theorem descending_follows_language :
    let set := FragmentSet.empty.insert .descending
    let endless := FragmentSet.empty.insert .cyclic
    let data := Json.object [("name", .string "<"), ("next", .object [("name", .string "b")])]
    let slots : Slots := ⟨[], [], []⟩
    (¬ (execute set "main" data slots).OutOfDepth ∧ ∀ outcome,
      Evaluates set slots data (.invocation "main" data) outcome ↔
        execute set "main" data slots = outcome) ∧
    ((execute endless "main" data slots).OutOfDepth ∧
      Reaches endless slots data (.invocation "main" data) 100
        (execute endless "main" data slots).bytes) := by
  intro set endless data slots
  have ended : (execute set "main" data slots).failure = none := rfl
  have inDepth : ¬ (execute set "main" data slots).OutOfDepth := by
    rw [Output.OutOfDepth, ended]
    exact nofun
  have out : (execute endless "main" data slots).OutOfDepth :=
    cyclic_outOfDepth slots data data maxDepth
  exact ⟨⟨inDepth, (execute_follows_language set "main" data slots).1 inDepth⟩,
    out, (execute_follows_language endless "main" data slots).2.2 out⟩

end PageAssembly
