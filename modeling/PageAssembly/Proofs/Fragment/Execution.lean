import PageAssembly.Fragment.Execution
import PageAssembly.Proofs.Fragment.Discovery

/-!
Which fragments an execution asks for. A run can only invoke names that stand in the bodies it goes
through, so a set that has all names that can be reached from a fragment has all that any run of it
asks for.
-/

namespace PageAssembly

open PageAssembly.Language (Body Node)
open PageAssembly.Fragment (invocationsOf invocationsOfNode)

def Output.NothingMissing (output : Output) : Prop :=
  ∀ name, output.failure ≠ some (.missingFragment name)

namespace Output

theorem nothing_missing_write (bytes : Bytes) : (write bytes).NothingMissing := by
  intro name failed
  cases failed

theorem nothing_missing_and_then {output : Output} {next : Unit → Output}
    (first : output.NothingMissing) (later : (next ()).NothingMissing) :
    (output.andThen next).NothingMissing := by
  rw [andThen]
  split
  · exact first
  · exact later

theorem nothing_missing_on_each {α : Type} {run : α → Output}
    (each : ∀ item, (run item).NothingMissing) (items : List α) :
    (onEach run items).NothingMissing := by
  induction items with
  | nil => exact nothing_missing_write []
  | cons item items induction => exact nothing_missing_and_then (each item) induction

end Output

namespace Execution

section

variable (slots : Slots) (root : Json) {invoke : String → Json → Output} (fragment : String)

mutual

theorem node_nothing_missing (node : Node) (dot : Json)
    (invoked : ∀ name ∈ invocationsOfNode node, ∀ dot, (invoke name dot).NothingMissing) :
    (ofNode slots root invoke fragment node dot).NothingMissing := by
  cases node with
  | text _ content => exact Output.nothing_missing_write _
  | output _ path => exact Output.nothing_missing_write _
  | slot _ name =>
      simp only [ofNode]
      split
      · exact Output.nothing_missing_write _
      · intro other failed
        cases failed
  | invoke _ name path => exact invoked name (by simp [invocationsOfNode]) _
  | block _ name path _ => exact invoked name (by simp [invocationsOfNode]) _
  | define _ _ _ => exact Output.nothing_missing_write _
  | control _ kind path body otherwise =>
      have inBody := body_nothing_missing body (fun name member =>
        invoked name (by simp [invocationsOfNode, member]))
      have inOtherwise := body_nothing_missing otherwise (fun name member =>
        invoked name (by simp [invocationsOfNode, member]))
      cases kind with
      | condition =>
          simp only [ofNode]
          split
          · exact inBody dot
          · exact inOtherwise dot
      | scope =>
          simp only [ofNode]
          split
          · exact inBody _
          · exact inOtherwise dot
      | each =>
          simp only [ofNode]
          split
          · exact inOtherwise dot
          · exact Output.nothing_missing_on_each inBody _
          · intro other failed
            cases failed

theorem body_nothing_missing (body : Body)
    (invoked : ∀ name ∈ invocationsOf body, ∀ dot, (invoke name dot).NothingMissing) (dot : Json) :
    (ofBody slots root invoke fragment body dot).NothingMissing := by
  cases body with
  | nil => exact Output.nothing_missing_write []
  | cons node nodes =>
      have first := node_nothing_missing node dot (fun name member =>
        invoked name (by simp [invocationsOf, member]))
      have later := body_nothing_missing nodes (fun name member =>
        invoked name (by simp [invocationsOf, member])) dot
      exact Output.nothing_missing_and_then first later

end

end

/-- An invocation whose names are all defined is never in want of a fragment, however deep it may
nest. -/
theorem invocation_nothing_missing {set : FragmentSet} (slots : Slots) (root : Json) (depth : Nat)
    (name : String) (dot : Json)
    (defined : ∀ target, Relation.ReflTransGen (Closure.Invokes set.find?) name target →
      ∃ fragment, set.find? target = some fragment) :
    (ofInvocation set slots root depth name dot).NothingMissing := by
  induction depth generalizing name dot with
  | zero =>
      intro other failed
      cases failed
  | succ depth induction =>
      obtain ⟨fragment, found⟩ := defined name .refl
      simp only [ofInvocation, found]
      apply body_nothing_missing
      intro target member dot
      apply induction
      intro further reached
      exact defined further (reached.head ⟨fragment, found, member⟩)

end Execution

end PageAssembly
