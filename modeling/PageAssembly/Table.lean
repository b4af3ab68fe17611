/-!
Tables from names to values, kept as lists in increasing order of the names.
-/

namespace PageAssembly.Table

variable {α : Type}

def get? (table : List (String × α)) (name : String) : Option α :=
  match table with
  | [] => none
  | (key, value) :: rest => if key = name then some value else get? rest name

def put (table : List (String × α)) (name : String) (value : α) : List (String × α) :=
  match table with
  | [] => [(name, value)]
  | (key, old) :: rest =>
      if name < key then (name, value) :: (key, old) :: rest
      else if key = name then (name, value) :: rest
      else (key, old) :: put rest name value

theorem mem_put {table : List (String × α)} {name : String} {value : α} {entry : String × α}
    (member : entry ∈ put table name value) : entry = (name, value) ∨ entry ∈ table := by
  induction table with
  | nil => exact Or.inl (by simpa [put] using member)
  | cons head rest induction =>
      obtain ⟨key, old⟩ := head
      simp only [put] at member
      split at member
      · simpa using member
      · split at member
        · exact (List.mem_cons.mp member).imp_right (List.mem_cons_of_mem _)
        · rcases List.mem_cons.mp member with same | later
          · exact Or.inr (same ▸ List.mem_cons_self)
          · exact (induction later).imp_right (List.mem_cons_of_mem _)

def remove (table : List (String × α)) (name : String) : List (String × α) :=
  table.filter fun (key, _) => key ≠ name

def has (table : List (String × α)) (name : String) : Bool :=
  (get? table name).isSome

def names (table : List (String × α)) : List String :=
  table.map Prod.fst

/-- Of two entries under one name the later counts. -/
def ofList (entries : List (String × α)) : List (String × α) :=
  entries.foldl (fun table (name, value) => put table name value) []

end PageAssembly.Table
