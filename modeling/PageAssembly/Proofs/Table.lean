import PageAssembly.Table

/-!
What a table answers after a value is put into it, and that values under different names can be put
into it in any order.
-/

namespace PageAssembly.Table

variable {α : Type}

theorem get?_put (table : List (String × α)) (name other : String) (value : α) :
    get? (put table name value) other = if name = other then some value else get? table other := by
  induction table with
  | nil => rfl
  | cons entry rest induction =>
      obtain ⟨key, old⟩ := entry
      simp only [put]
      split
      · rfl
      · split
        · rename_i same
          subst key
          by_cases asked : name = other <;> simp [get?, asked]
        · rename_i different
          by_cases asked : key = other
          · subst other
            simp [get?, Ne.symm different]
          · simp only [get?, asked, if_false, induction]

theorem mem_of_get? {table : List (String × α)} {name : String} {value : α}
    (stored : get? table name = some value) : (name, value) ∈ table := by
  induction table with
  | nil => cases stored
  | cons entry rest induction =>
      obtain ⟨key, old⟩ := entry
      simp only [get?] at stored
      split at stored
      · rename_i same
        cases stored
        exact same ▸ List.mem_cons_self
      · exact List.mem_cons_of_mem _ (induction stored)

theorem put_of_lt {key name : String} (before : name < key) (old value : α)
    (rest : List (String × α)) :
    put ((key, old) :: rest) name value = (name, value) :: (key, old) :: rest := by
  rw [put, if_pos before]

theorem put_same (name : String) (old value : α) (rest : List (String × α)) :
    put ((name, old) :: rest) name value = (name, value) :: rest := by
  rw [put, if_neg (String.lt_irrefl name), if_pos rfl]

theorem put_of_gt {key name : String} (after : key < name) (old value : α)
    (rest : List (String × α)) :
    put ((key, old) :: rest) name value = (key, old) :: put rest name value := by
  have apart : key ≠ name := by
    rintro rfl
    exact String.lt_irrefl key after
  rw [put, if_neg (String.lt_asymm after), if_neg apart]

theorem put_comm_of_lt {lower upper : String} (order : lower < upper) (one other : α)
    (table : List (String × α)) :
    put (put table lower one) upper other = put (put table upper other) lower one := by
  induction table with
  | nil =>
      change put [(lower, one)] upper other = put [(upper, other)] lower one
      rw [put_of_gt order, put_of_lt order, put]
  | cons entry rest induction =>
      obtain ⟨key, old⟩ := entry
      rcases Std.lt_trichotomy lower key with before | rfl | after
      · rw [put_of_lt before, put_of_gt order]
        rcases Std.lt_trichotomy upper key with first | rfl | behind
        · rw [put_of_lt first, put_of_lt order]
        · rw [put_same, put_of_lt order]
        · rw [put_of_gt behind, put_of_lt before]
      · rw [put_same, put_of_gt order, put_of_gt order, put_same]
      · have behind : key < upper := String.lt_trans after order
        rw [put_of_gt after, put_of_gt behind, put_of_gt behind, put_of_gt after, induction]

theorem put_comm {name also : String} (apart : name ≠ also) (one other : α)
    (table : List (String × α)) :
    put (put table name one) also other = put (put table also other) name one := by
  rcases Std.lt_trichotomy name also with order | same | order
  · exact put_comm_of_lt order one other table
  · exact absurd same apart
  · exact (put_comm_of_lt order other one table).symm

theorem put_of_last {table : List (String × α)} {name : String}
    (last : ∀ entry ∈ table, entry.1 < name) (value : α) :
    put table name value = table ++ [(name, value)] := by
  induction table with
  | nil => rfl
  | cons entry rest induction =>
      rw [put_of_gt (last entry List.mem_cons_self),
        induction fun other member => last other (List.mem_cons_of_mem _ member)]
      rfl

theorem foldl_put_of_ordered {before entries : List (String × α)}
    (ordered : (before ++ entries).Pairwise fun one other => one.1 < other.1) :
    entries.foldl (fun table entry => put table entry.1 entry.2) before = before ++ entries := by
  induction entries generalizing before with
  | nil => exact (List.append_nil before).symm
  | cons entry entries induction =>
      have last : ∀ earlier ∈ before, earlier.1 < entry.1 := fun earlier member =>
        (List.pairwise_append.mp ordered).2.2 earlier member entry List.mem_cons_self
      rw [List.append_cons] at ordered ⊢
      rw [List.foldl_cons, put_of_last last]
      exact induction ordered

/-- Entries that stand in increasing order of their names are a table already. -/
theorem ofList_of_ordered {entries : List (String × α)}
    (ordered : entries.Pairwise fun one other => one.1 < other.1) : ofList entries = entries :=
  @foldl_put_of_ordered α [] entries ordered

end PageAssembly.Table
