import PageAssembly.Fragment.Execution
import PageAssembly.Proofs.Fragment.Reaching

/-!
What an execution depends on. Which invocations a body makes goes by the data, but it makes none
that does not stand in it; so an execution asks only for names that can be reached from where it
starts, and two sets that agree on these names are the same to it.
-/

namespace PageAssembly

open PageAssembly.Language (Body Node)
open PageAssembly.Fragment (invocationsOf invocationsOfNode)

namespace Execution

section

variable (slots : Slots) (root : Json) {invoke other : String → Json → Output} (fragment : String)

mutual

/-- Two ways to invoke that agree on the names in a node are the same to it, also where one of them
fails. -/
theorem ofNode_congr (node : Node)
    (same : ∀ name ∈ invocationsOfNode node, invoke name = other name) :
    ofNode slots root invoke fragment node = ofNode slots root other fragment node := by
  funext dot
  cases node with
  | text => simp only [ofNode]
  | output => simp only [ofNode]
  | slot => simp only [ofNode]
  | define => simp only [ofNode]
  | invoke span name argument =>
      have agrees := same name (by simp [invocationsOfNode])
      simp only [ofNode, agrees]
  | block span name argument body =>
      have agrees := same name (by simp [invocationsOfNode])
      simp only [ofNode, agrees]
  | control span kind path body otherwise =>
      have inBody := ofBody_congr body fun name member =>
        same name (by simp [invocationsOfNode, member])
      have inOtherwise := ofBody_congr otherwise fun name member =>
        same name (by simp [invocationsOfNode, member])
      cases kind <;> simp only [ofNode, inBody, inOtherwise]

theorem ofBody_congr (body : Body) (same : ∀ name ∈ invocationsOf body, invoke name = other name) :
    ofBody slots root invoke fragment body = ofBody slots root other fragment body := by
  funext dot
  cases body with
  | nil => simp only [ofBody]
  | cons node nodes =>
      have first := ofNode_congr node fun name member =>
        same name (by simp [invocationsOf, member])
      have later := ofBody_congr nodes fun name member =>
        same name (by simp [invocationsOf, member])
      simp only [ofBody, first, later]

end

end

theorem ofInvocation_congr {set more : FragmentSet} (slots : Slots) (root : Json) (depth : Nat)
    (name : String)
    (agree : ∀ target, Closure.Reachable set.find? name target →
      more.find? target = set.find? target) :
    ofInvocation more slots root depth name = ofInvocation set slots root depth name := by
  induction depth generalizing name with
  | zero => rfl
  | succ depth induction =>
      funext dot
      have here := agree name .refl
      cases found : set.find? name with
      | none =>
          rw [found] at here
          simp only [ofInvocation, here, found]
      | some fragment =>
          rw [found] at here
          simp only [ofInvocation, here, found]
          apply congrFun
          apply ofBody_congr
          intro target invoked
          apply induction
          intro further reached
          exact agree further (reached.head ⟨fragment, found, invoked⟩)

end Execution

/-- Sets that have the same fragments, or none, under all names that can be reached from the main
fragment are the same to every execution of it: it writes the same bytes and ends the same way. -/
theorem execution_confined {set more : FragmentSet} {main : String}
    (agree : ∀ name, Closure.Reachable set.find? main name → more.find? name = set.find? name)
    (data : Json) (slots : Slots) :
    execute more main data slots = execute set main data slots := by
  have same := Execution.ofInvocation_congr slots data maxDepth main agree
  unfold execute
  exact congrFun same data

namespace Confinement

/-- A main fragment that asks for a part, which invokes it again and asks for what nobody has. -/
def bare : FragmentSet :=
  FragmentSet.empty.insertAll
    [⟨"main", [.control ⟨0, 0⟩ .each ⟨false, ["items"]⟩ [.invoke ⟨0, 0⟩ "part" (some .dot)] []]⟩,
      ⟨"part", [.output ⟨0, 0⟩ .dot, .invoke ⟨0, 0⟩ "main" none, .invoke ⟨0, 0⟩ "gone" none]⟩]

def crowded : FragmentSet :=
  bare.insertAll [⟨"stranger", [.text ⟨0, 0⟩ "a", .invoke ⟨0, 0⟩ "main" none]⟩, ⟨"item", []⟩]

theorem reached_bare {name : String} (reached : Closure.Reachable bare.find? "main" name) :
    name ∈ ["main", "part", "gone"] := by
  induction reached with
  | refl => exact List.mem_cons_self
  | @tail _ target _ invokes induction =>
      obtain ⟨fragment, found, member⟩ := invokes
      simp only [List.mem_cons, List.not_mem_nil, or_false] at induction
      rcases induction with rfl | rfl | rfl
      · cases found
        obtain rfl : target = "part" := by
          simpa [Fragment.invocations, invocationsOf, invocationsOfNode] using member
        simp
      · cases found
        have either : target = "main" ∨ target = "gone" := by
          simpa [Fragment.invocations, invocationsOf, invocationsOfNode] using member
        rcases either with rfl | rfl <;> simp
      · cases found

theorem crowded_confined :
    let data := Json.object [("items", .array [.string "<", .null])]
    (∀ name, Closure.Reachable bare.find? "main" name → crowded.find? name = bare.find? name) ∧
      ∀ slots, execute crowded "main" data slots = execute bare "main" data slots := by
  intro data
  have agree : ∀ name, Closure.Reachable bare.find? "main" name →
      crowded.find? name = bare.find? name := by
    intro name reached
    have listed := reached_bare reached
    simp only [List.mem_cons, List.not_mem_nil, or_false] at listed
    rcases listed with rfl | rfl | rfl <;> rfl
  exact ⟨agree, execution_confined agree data⟩

end Confinement

end PageAssembly
