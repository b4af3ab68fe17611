import PageAssembly.Fragment.Collection

/-!
The closure of a fragment: all that can be reached from it by invocations, each fragment once, in
the order in which a search finds them that looks at near ones first. Names are looked up in
layers; the first layer that has a name decides.
-/

namespace PageAssembly

inductive ClosureError where
  | missingRoot (name : String)
  | missing (name referencedBy : String)
deriving DecidableEq

def ClosureError.missingName : ClosureError → String
  | .missingRoot name => name
  | .missing name _ => name

def ClosureError.message : ClosureError → String
  | .missingRoot name => "no such template \"" ++ name ++ "\""
  | .missing name referencedBy =>
      "\x7b\x7b template \"" ++ name ++ "\" \x7d\x7d was referenced by \"" ++ referencedBy ++
        "\", but was not found"

namespace Closure

def find? (layers : List FragmentSet) (name : String) : Option Fragment :=
  layers.findSome? fun layer => layer.find? name

def unvisited (layers : List FragmentSet) (visited : List String) : List String :=
  (layers.flatMap FragmentSet.names).filter fun name => name ∉ visited

theorem mem_names_of_get? {α : Type} {table : List (String × α)} {name : String} {value : α}
    (found : Table.get? table name = some value) : name ∈ Table.names table := by
  induction table with
  | nil => simp [Table.get?] at found
  | cons entry rest induction =>
      obtain ⟨key, stored⟩ := entry
      by_cases same : key = name
      · simp [Table.names, same]
      · simp only [Table.get?, same, if_false] at found
        have later := induction found
        simp only [Table.names, List.map_cons, List.mem_cons] at later ⊢
        exact Or.inr later

theorem mem_names_of_find? {layers : List FragmentSet} {name : String} {fragment : Fragment}
    (found : find? layers name = some fragment) : name ∈ layers.flatMap FragmentSet.names := by
  obtain ⟨layer, member, stored⟩ := List.exists_of_findSome?_eq_some found
  exact List.mem_flatMap.mpr ⟨layer, member, mem_names_of_get? stored⟩

/-- What an unvisited name can still add to a search: itself and what it invokes. -/
def ahead (layers : List FragmentSet) (visited : List String) : List String :=
  (unvisited layers visited).flatMap fun name =>
    name :: ((find? layers name).map Fragment.invocations).getD []

theorem length_flatMap_filter_le (keeps : String → Bool) (adds : String → List String)
    (names : List String) :
    ((names.filter keeps).flatMap adds).length ≤ (names.flatMap adds).length := by
  induction names with
  | nil => exact Nat.le_refl _
  | cons name names induction =>
      rw [List.flatMap_cons, List.length_append]
      cases kept : keeps name with
      | true =>
          rw [List.filter_cons_of_pos kept, List.flatMap_cons, List.length_append]
          omega
      | false =>
          rw [List.filter_cons_of_neg (Bool.eq_false_iff.mp kept)]
          omega

theorem length_flatMap_without {name : String} {names : List String} (member : name ∈ names)
    (adds : String → List String) :
    ((names.filter fun other => other ≠ name).flatMap adds).length + (adds name).length ≤
      (names.flatMap adds).length := by
  obtain ⟨before, after, rfl⟩ := List.append_of_mem member
  have first := length_flatMap_filter_le (fun other => other ≠ name) adds before
  have last := length_flatMap_filter_le (fun other => other ≠ name) adds after
  rw [List.filter_append, List.filter_cons_of_neg (by simp)]
  simp only [List.flatMap_append, List.flatMap_cons, List.length_append]
  omega

theorem ahead_cons_lt {layers : List FragmentSet} {name : String} {fragment : Fragment}
    {visited : List String} (found : find? layers name = some fragment) (fresh : name ∉ visited) :
    (ahead layers (name :: visited)).length + fragment.invocations.length <
      (ahead layers visited).length := by
  have narrowed : unvisited layers (name :: visited) =
      (unvisited layers visited).filter fun other => other ≠ name := by
    simp only [unvisited, List.filter_filter, List.mem_cons, not_or, Bool.decide_and, ne_eq]
  have known : name ∈ unvisited layers visited := by
    simp [unvisited, fresh, mem_names_of_find? found]
  have shorter := length_flatMap_without known fun name =>
    name :: ((find? layers name).map Fragment.invocations).getD []
  rw [found, Option.map_some, Option.getD_some, List.length_cons] at shorter
  rw [ahead, narrowed, ahead]
  omega

/-- The search holds the names visited, the invocations still to follow with the fragments that make
them, and the fragments found. -/
def search (layers : List FragmentSet) (visited : List String) (queue : List (String × String))
    (found : List Fragment) : Except ClosureError (List Fragment) :=
  match queue with
  | [] => .ok found
  | (name, referencedBy) :: queue =>
      if _ : name ∈ visited then
        search layers visited queue found
      else
        match _ : find? layers name with
        | none => .error (.missing name referencedBy)
        | some fragment =>
            search layers (name :: visited)
              (queue ++ fragment.invocations.map fun target => (target, name))
              (found ++ [fragment])
termination_by (ahead layers visited).length + queue.length
decreasing_by
  · exact Nat.lt_succ_self _
  · have fewer := ahead_cons_lt (by assumption) (by assumption)
    rw [List.length_append, List.length_map, List.length_cons]
    omega

end Closure

def closure (layers : List FragmentSet) (root : String) : Except ClosureError (List Fragment) :=
  match Closure.find? layers root with
  | none => .error (.missingRoot root)
  | some fragment =>
      Closure.search layers [root] (fragment.invocations.map fun target => (target, root))
        [fragment]

end PageAssembly
