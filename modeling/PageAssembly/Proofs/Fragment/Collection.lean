import PageAssembly.Fragment.Collection
import PageAssembly.Proofs.Table

/-!
Sets of fragments through their look-up: a fragment is found under its own name, and of several
fragments of one name that are added the last is found.
-/

namespace PageAssembly

def lastNamed? (fragments : List Fragment) (name : String) : Option Fragment :=
  fragments.reverse.find? fun fragment => fragment.name = name

theorem lastNamed?_append (earlier later : List Fragment) (name : String) :
    lastNamed? (earlier ++ later) name = (lastNamed? later name).or (lastNamed? earlier name) := by
  rw [lastNamed?, List.reverse_append, List.find?_append]
  rfl

theorem lastNamed?_eq_none_iff {fragments : List Fragment} {name : String} :
    lastNamed? fragments name = none ↔ name ∉ fragments.map Fragment.name := by
  simp [lastNamed?]

namespace FragmentSet

theorem name_of_find? {set : FragmentSet} {name : String} {fragment : Fragment}
    (found : set.find? name = some fragment) : fragment.name = name :=
  set.named (name, fragment) (Table.mem_of_get? found)

theorem contains_iff {set : FragmentSet} {name : String} :
    set.contains name = true ↔ ∃ fragment, set.find? name = some fragment :=
  Option.isSome_iff_exists

theorem find?_insert (set : FragmentSet) (fragment : Fragment) (name : String) :
    (set.insert fragment).find? name =
      if fragment.name = name then some fragment else set.find? name :=
  Table.get?_put set.table fragment.name name fragment

theorem find?_insertAll (set : FragmentSet) (fragments : List Fragment) (name : String) :
    (set.insertAll fragments).find? name = (lastNamed? fragments name).or (set.find? name) := by
  induction fragments generalizing set with
  | nil => rfl
  | cons fragment fragments induction =>
      have later := induction (set.insert fragment)
      simp only [insertAll, List.foldl_cons] at later ⊢
      rw [later, find?_insert]
      simp only [lastNamed?, List.reverse_cons, List.find?_append, Option.or_assoc]
      by_cases same : fragment.name = name <;> simp [same]

theorem contains_insertAll (set : FragmentSet) (fragments : List Fragment) (name : String) :
    (set.insertAll fragments).contains name = true ↔
      name ∈ fragments.map Fragment.name ∨ set.contains name = true := by
  rw [contains, find?_insertAll, Option.isSome_or, Bool.or_eq_true, contains]
  apply or_congr_left
  simp [lastNamed?, List.find?_isSome]

theorem merge_all (set : FragmentSet) (files : List SourceFile) :
    files.foldl merge set = set.insertAll (files.flatMap SourceFile.fragments) := by
  induction files generalizing set with
  | nil => rfl
  | cons file files induction =>
      rw [List.foldl_cons, induction]
      simp only [merge, insertAll, List.flatMap_cons, List.foldl_append]

theorem insert_comm {one other : Fragment} (apart : one.name ≠ other.name) (set : FragmentSet) :
    (set.insert one).insert other = (set.insert other).insert one := by
  simp only [insert, mk.injEq]
  exact Table.put_comm apart one other set.table

theorem insertAll_insert {fragment : Fragment} {fragments : List Fragment}
    (apart : fragment.name ∉ fragments.map Fragment.name) (set : FragmentSet) :
    (set.insert fragment).insertAll fragments = (set.insertAll fragments).insert fragment := by
  induction fragments generalizing set with
  | nil => rfl
  | cons first fragments induction =>
      rw [List.map_cons, List.mem_cons, not_or] at apart
      simp only [insertAll, List.foldl_cons] at induction ⊢
      rw [insert_comm apart.1, induction apart.2]

theorem insertAll_comm {earlier later : List Fragment}
    (apart : ∀ name ∈ earlier.map Fragment.name, name ∉ later.map Fragment.name)
    (set : FragmentSet) :
    (set.insertAll earlier).insertAll later = (set.insertAll later).insertAll earlier := by
  induction earlier generalizing set with
  | nil => rfl
  | cons first earlier induction =>
      have unnamed : first.name ∉ later.map Fragment.name := apart _ List.mem_cons_self
      have rest := induction (fun name among => apart name (List.mem_cons_of_mem _ among))
        (set.insert first)
      rw [insertAll_insert unnamed] at rest
      exact rest

end FragmentSet

end PageAssembly
