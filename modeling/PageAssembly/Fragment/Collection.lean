import PageAssembly.Fragment.Source
import PageAssembly.Table

/-!
Fragments under their names. One that is added takes the place of the one before it.
-/

namespace PageAssembly

structure FragmentSet where
  table : List (String × Fragment)
  named : ∀ entry ∈ table, entry.2.name = entry.1

namespace FragmentSet

def empty : FragmentSet := ⟨[], by simp⟩

def find? (set : FragmentSet) (name : String) : Option Fragment :=
  Table.get? set.table name

def contains (set : FragmentSet) (name : String) : Bool :=
  (set.find? name).isSome

def insert (set : FragmentSet) (fragment : Fragment) : FragmentSet where
  table := Table.put set.table fragment.name fragment
  named := by
    intro entry member
    rcases Table.mem_put member with rfl | earlier
    · rfl
    · exact set.named entry earlier

def insertAll (set : FragmentSet) (fragments : List Fragment) : FragmentSet :=
  fragments.foldl insert set

def merge (set : FragmentSet) (file : SourceFile) : FragmentSet :=
  set.insertAll file.fragments

def names (set : FragmentSet) : List String :=
  Table.names set.table

def size (set : FragmentSet) : Nat :=
  set.table.length

def lookup (set : FragmentSet) (name : String) : Except FragmentError Fragment :=
  match set.find? name with
  | some fragment => .ok fragment
  | none => .error (.notFound name)

/-- Parses a source and adds its fragments; one that is malformed adds none. -/
def register (set : FragmentSet) (name source : String) :
    Except FragmentError (SourceFile × FragmentSet) :=
  match SourceFile.parse name source with
  | .ok file => .ok (file, set.merge file)
  | .error error => .error error

end FragmentSet

end PageAssembly
