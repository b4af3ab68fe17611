import PageAssembly.Text.Blank

/-!
Splitting texts at separators. All of it goes back to one equation, for a text in which a separator
stands between two others; for words the same holds with blanks.
-/

namespace PageAssembly.Text

section

variable {isSeparator : Char → Bool}

theorem splitWhere_ne_nil (isSeparator : Char → Bool) (text : List Char) :
    splitWhere isSeparator text ≠ [] := by
  cases text with
  | nil => simp [splitWhere]
  | cons c text =>
      rw [splitWhere]
      split
      · simp
      · split <;> simp

theorem splitWhere_cons_of_not {c : Char} (plain : isSeparator c = false) {text piece : List Char}
    {pieces : List (List Char)} (split : splitWhere isSeparator text = piece :: pieces) :
    splitWhere isSeparator (c :: text) = (c :: piece) :: pieces := by
  simp [splitWhere, plain, split]

theorem splitWhere_append {c : Char} (separates : isSeparator c = true) (left right : List Char) :
    splitWhere isSeparator (left ++ c :: right) =
      splitWhere isSeparator left ++ splitWhere isSeparator right := by
  induction left with
  | nil => simp [splitWhere, separates]
  | cons first left induction =>
      rw [List.cons_append]
      cases also : isSeparator first with
      | true => simp [splitWhere, also, induction]
      | false =>
          obtain ⟨piece, pieces, split⟩ :=
            List.exists_cons_of_ne_nil (splitWhere_ne_nil isSeparator left)
          rw [split] at induction
          rw [splitWhere_cons_of_not also split, splitWhere_cons_of_not also induction]
          rfl

theorem splitWhere_of_none {text : List Char} (inseparable : ∀ c ∈ text, isSeparator c = false) :
    splitWhere isSeparator text = [text] := by
  induction text with
  | nil => rfl
  | cons c text induction =>
      have rest := induction fun other member =>
        inseparable other (List.mem_cons_of_mem _ member)
      exact splitWhere_cons_of_not (inseparable c List.mem_cons_self) rest

theorem of_mem_splitWhere {text piece : List Char} (member : piece ∈ splitWhere isSeparator text)
    {c : Char} (inside : c ∈ piece) : c ∈ text ∧ isSeparator c = false := by
  induction text generalizing piece with
  | nil =>
      rw [splitWhere, List.mem_singleton] at member
      rw [member] at inside
      cases inside
  | cons first text induction =>
      cases separates : isSeparator first with
      | true =>
          rw [splitWhere, if_pos separates] at member
          rcases List.mem_cons.mp member with rfl | later
          · cases inside
          · exact (induction later inside).imp_left (List.mem_cons_of_mem _)
      | false =>
          obtain ⟨piece', pieces, split⟩ :=
            List.exists_cons_of_ne_nil (splitWhere_ne_nil isSeparator text)
          rw [splitWhere_cons_of_not separates split] at member
          rw [split] at induction
          rcases List.mem_cons.mp member with rfl | later
          · rcases List.mem_cons.mp inside with rfl | further
            · exact ⟨List.mem_cons_self, separates⟩
            · exact (induction List.mem_cons_self further).imp_left (List.mem_cons_of_mem _)
          · exact (induction (List.mem_cons_of_mem _ later) inside).imp_left
              (List.mem_cons_of_mem _)

end

theorem words_append {c : Char} (blank : isBlank c = true) (left right : List Char) :
    words (left ++ c :: right) = words left ++ words right := by
  rw [words, splitWhere_append blank, List.filter_append]
  rfl

theorem words_cons {c : Char} (blank : isBlank c = true) (text : List Char) :
    words (c :: text) = words text :=
  words_append blank [] text

theorem words_of_none {text : List Char} (nonempty : text ≠ [])
    (visible : ∀ c ∈ text, isBlank c = false) : words text = [text] := by
  rw [words, splitWhere_of_none visible]
  simp [nonempty]

theorem of_mem_words {text word : List Char} (member : word ∈ words text) :
    word ≠ [] ∧ ∀ c ∈ word, c ∈ text ∧ isBlank c = false := by
  obtain ⟨piece, nonempty⟩ := List.mem_filter.mp member
  refine ⟨by simpa using nonempty, ?_⟩
  intro c inside
  exact of_mem_splitWhere piece inside

end PageAssembly.Text
