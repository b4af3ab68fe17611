import Mathlib.Data.List.Basic
import PageAssembly.Language.Diagnostic

/-!
Lines and columns. The place behind a text is found by walking through it; the line of a position in
a text whose lines end in line feeds is the one that the walk up to the position leads to. The end
of a text belongs to its last line even if that is ended.
-/

namespace PageAssembly.Language

structure Place where
  line : Nat
  column : Nat
deriving DecidableEq

namespace Place

def next (place : Place) (c : Char) : Place :=
  if c = '\n' then ⟨place.line + 1, 1⟩ else ⟨place.line, place.column + 1⟩

def through (place : Place) (text : List Char) : Place :=
  text.foldl next place

def behind (before : List Char) : Place :=
  through ⟨1, 1⟩ before

/-- The place that a report shows for a position of a text. Behind a last line feed that is one
column further in the line of the line feed. -/
def shown (place : Place) (text : List Char) (position : Nat) : Place :=
  if text.length ≤ position ∧ text.getLast? = some '\n' then
    ⟨(place.through text.dropLast).line, (place.through text.dropLast).column + 1⟩
  else
    place.through (text.take position)

def Before (place other : Place) : Prop :=
  place.line < other.line ∨ place.line = other.line ∧ place.column < other.column

theorem through_append (place : Place) (text later : List Char) :
    place.through (text ++ later) = (place.through text).through later :=
  List.foldl_append

theorem through_row (place : Place) {row : List Char} (plain : '\n' ∉ row) :
    place.through row = ⟨place.line, place.column + row.length⟩ := by
  induction row generalizing place with
  | nil => rfl
  | cons c row induction =>
      have here : c ≠ '\n' := (List.ne_of_not_mem_cons plain).symm
      have further := induction (place.next c) (List.not_mem_of_not_mem_cons plain)
      rw [next, if_neg here] at further
      rw [through, List.foldl_cons, ← through, next, if_neg here, further, List.length_cons,
        Nat.add_right_comm, Nat.add_assoc]

theorem through_line (place : Place) {row : List Char} (plain : '\n' ∉ row) :
    place.through (row ++ ['\n']) = ⟨place.line + 1, 1⟩ := by
  rw [through_append, through_row place plain]
  rfl

theorem Before.trans {one two three : Place} (first : one.Before two) (second : two.Before three) :
    one.Before three := by
  unfold Before at *
  omega

theorem Before.ne {place other : Place} (before : place.Before other) : place ≠ other := by
  rintro rfl
  unfold Before at before
  omega

theorem before_next (place : Place) (c : Char) : place.Before (place.next c) := by
  rw [next]
  split
  · exact Or.inl (Nat.lt_succ_self _)
  · exact Or.inr ⟨rfl, Nat.lt_succ_self _⟩

theorem before_through (place : Place) {text : List Char} (nonempty : text ≠ []) :
    place.Before (place.through text) := by
  induction text generalizing place with
  | nil => exact absurd rfl nonempty
  | cons c text induction =>
      have first := place.before_next c
      cases text with
      | nil => exact first
      | cons d text => exact first.trans (induction (place.next c) (List.cons_ne_nil _ _))

theorem before_column (place : Place) (text : List Char) :
    place.Before ⟨(place.through text).line, (place.through text).column + 1⟩ := by
  have last : (place.through text).Before ⟨(place.through text).line,
    (place.through text).column + 1⟩ := Or.inr ⟨rfl, Nat.lt_succ_self _⟩
  cases text with
  | nil => exact last
  | cons c text => exact (place.before_through (List.cons_ne_nil _ _)).trans last

theorem shown_append (place : Place) (before : List Char) {rest : List Char}
    (nonempty : rest ≠ []) (position : Nat) :
    place.shown (before ++ rest) (before.length + position) =
      (place.through before).shown rest position := by
  have last : (before ++ rest).getLast? = rest.getLast? :=
    List.getLast?_append_of_ne_nil _ nonempty
  have size : (before ++ rest).length ≤ before.length + position ↔ rest.length ≤ position := by
    rw [List.length_append]
    omega
  simp only [shown, last, size, List.dropLast_append_of_ne_nil nonempty, through_append,
    List.take_length_add_append]

theorem shown_row (place : Place) {row later : List Char} (plain : '\n' ∉ row) {position : Nat}
    (within : position ≤ row.length)
    (unended : ¬ ((row ++ later).length ≤ position ∧ (row ++ later).getLast? = some '\n')) :
    place.shown (row ++ later) position = ⟨place.line, place.column + position⟩ := by
  have part : '\n' ∉ row.take position := fun member => plain (List.mem_of_mem_take member)
  rw [shown, if_neg unended, List.take_append_of_le_length within, through_row place part,
    List.length_take_of_le within]

end Place

def lastLine? (number offset : Nat) (contents : List (List Char)) (position : Nat) :
    Option SourceLine :=
  (numberLines number offset contents).reverse.find? fun line => line.offset ≤ position

theorem lastLine?_cons (number offset : Nat) (content : List Char) (contents : List (List Char))
    {position : Nat} (behind : offset ≤ position) :
    lastLine? number offset (content :: contents) position =
      (lastLine? (number + 1) (offset + content.length) contents position).or
        (some ⟨number, offset, content⟩) := by
  rw [lastLine?, numberLines, List.reverse_cons, List.find?_append, ← lastLine?,
    List.find?_cons_of_pos]
  exact decide_eq_true behind

theorem lastLine?_eq_none (number offset : Nat) (contents : List (List Char)) {position : Nat}
    (before : position < offset) : lastLine? number offset contents position = none := by
  induction contents generalizing number offset with
  | nil => rfl
  | cons content contents induction =>
      have others := induction (number + 1) (offset + content.length) (by omega)
      rw [lastLine?, numberLines, List.reverse_cons, List.find?_append, ← lastLine?, others,
        Option.none_or, List.find?_cons_of_neg, List.find?_nil]
      rw [decide_eq_true_eq]
      exact Nat.not_le_of_lt before

theorem lineContents_ended (rest : List Char) :
    lineContents ('\n' :: rest) = ['\n'] :: lineContents rest := by
  rw [lineContents.eq_def]
  split
  · contradiction
  · rename_i same
    exact absurd (List.cons.inj same).1 (by decide)
  · rename_i same
    obtain ⟨rfl, rfl⟩ := List.cons.inj same
    rfl

theorem lineContents_cons {c : Char} (inner : endsLine c = false) {rest line : List Char}
    {lines : List (List Char)} (nonempty : rest ≠ []) (further : lineContents rest = line :: lines) :
    lineContents (c :: rest) = (c :: line) :: lines := by
  obtain ⟨d, others, rfl⟩ := List.exists_cons_of_ne_nil nonempty
  have noReturn : c ≠ '\r' := by
    rintro rfl
    cases inner
  rw [lineContents.eq_3 c line lines d others (fun _ same _ => noReturn same) further, inner]
  rfl

theorem lineContents_line {row : List Char} (plain : ∀ c ∈ row, endsLine c = false)
    (rest : List Char) :
    lineContents (row ++ '\n' :: rest) = (row ++ ['\n']) :: lineContents rest := by
  induction row with
  | nil => exact lineContents_ended rest
  | cons c row induction =>
      obtain ⟨here, others⟩ := List.forall_mem_cons.mp plain
      exact lineContents_cons here (List.append_ne_nil_of_right_ne_nil _ (List.cons_ne_nil _ _))
        (induction others)

theorem lineContents_last {row : List Char} (nonempty : row ≠ [])
    (plain : ∀ c ∈ row, endsLine c = false) : lineContents row = [row] := by
  induction row with
  | nil => exact absurd rfl nonempty
  | cons c row induction =>
      obtain ⟨here, others⟩ := List.forall_mem_cons.mp plain
      cases row with
      | nil =>
          rw [lineContents.eq_4 c [] nofun nofun, here]
          rfl
      | cons d row =>
          exact lineContents_cons here (List.cons_ne_nil _ _)
            (induction (List.cons_ne_nil _ _) others)

/-- The lines end in line feeds and nowhere else. -/
def LineFeedsOnly (text : List Char) : Prop :=
  ∀ c ∈ text, endsLine c = true → c = '\n'

theorem LineFeedsOnly.row {row later : List Char} (lineFeeds : LineFeedsOnly (row ++ later))
    (plain : '\n' ∉ row) : ∀ c ∈ row, endsLine c = false := by
  intro c member
  apply Bool.eq_false_iff.mpr
  intro ends
  apply plain
  rw [← lineFeeds c (List.mem_append_left _ member) ends]
  exact member

theorem LineFeedsOnly.rest {row later : List Char} (lineFeeds : LineFeedsOnly (row ++ later)) :
    LineFeedsOnly later :=
  fun c member => lineFeeds c (List.mem_append_right _ member)

section

variable {row rest : List Char} (plain : ∀ c ∈ row, endsLine c = false) (number offset : Nat)
  {position : Nat}

include plain

theorem lastLine?_first (within : position ≤ row.length) :
    lastLine? number offset (lineContents (row ++ '\n' :: rest)) (offset + position) =
      some ⟨number, offset, row ++ ['\n']⟩ := by
  have before : offset + position < offset + (row ++ ['\n']).length := by
    rw [List.length_append, List.length_singleton]
    omega
  rw [lineContents_line plain, lastLine?_cons _ _ _ _ (Nat.le_add_right _ _),
    lastLine?_eq_none _ _ _ before, Option.none_or]

theorem lastLine?_later {line : SourceLine}
    (found : lastLine? (number + 1) (offset + (row.length + 1)) (lineContents rest)
      (offset + (row.length + 1) + position) = some line) :
    lastLine? number offset (lineContents (row ++ '\n' :: rest))
      (offset + (row.length + 1 + position)) = some line := by
  have size : (row ++ ['\n']).length = row.length + 1 := List.length_append
  rw [lineContents_line plain, lastLine?_cons _ _ _ _ (Nat.le_add_right _ _), size,
    ← Nat.add_assoc offset _ position, found, Option.some_or]

end

/-- The line that is found for a position is where walking to the position leads. -/
theorem exists_lastLine (text : List Char) (nonempty : text ≠ []) (lineFeeds : LineFeedsOnly text)
    (number offset : Nat) {position : Nat} (within : position ≤ text.length) :
    ∃ line, lastLine? number offset (lineContents text) (offset + position) = some line ∧
      Place.mk line.number (offset + position - line.offset + 1) =
        Place.shown ⟨number, 1⟩ text position := by
  have inFirst : offset + position - offset + 1 = 1 + position := by omega
  by_cases ended : '\n' ∈ text
  · obtain ⟨row, rest, rfl, unended⟩ := List.eq_append_cons_of_mem ended
    have plain := lineFeeds.row unended
    have size : (row ++ ['\n']).length = row.length + 1 := List.length_append
    by_cases here : position ≤ row.length
    · refine ⟨_, lastLine?_first plain number offset here, ?_⟩
      rw [Place.shown_row _ unended here, inFirst]
      rintro ⟨long, -⟩
      rw [List.length_append, List.length_cons] at long
      omega
    · by_cases last : rest = []
      · -- behind the last line feed, which is in the line that it ends
        subst last
        have whole : position = (row ++ ['\n']).length := by
          rw [size] at within ⊢
          omega
        rw [lineContents_line plain, lastLine?_cons _ _ _ _ (Nat.le_add_right _ _)]
        refine ⟨_, rfl, ?_⟩
        rw [Place.shown, if_pos ⟨Nat.le_of_eq whole.symm, List.getLast?_concat⟩,
          List.dropLast_concat, Place.through_row _ unended, inFirst, whole, size, Nat.add_assoc]
      · obtain ⟨more, rfl⟩ : ∃ more, position = row.length + 1 + more :=
          Nat.exists_eq_add_of_le (by omega)
        rw [List.append_cons] at lineFeeds
        have inRest : more ≤ rest.length := by
          rw [List.append_cons, List.length_append, size] at within
          omega
        obtain ⟨line, found, place⟩ := exists_lastLine rest last lineFeeds.rest (number + 1)
          (offset + (row.length + 1)) inRest
        refine ⟨line, lastLine?_later plain number offset found, ?_⟩
        have shown := Place.shown_append ⟨number, 1⟩ (row ++ ['\n']) last more
        rw [Place.through_line _ unended, size, ← List.append_cons] at shown
        rw [shown, ← place, Nat.add_assoc offset]
  · have row : ∀ c ∈ text, endsLine c = false := LineFeedsOnly.row (by rwa [List.append_nil]) ended
    rw [lineContents_last nonempty row, lastLine?_cons _ _ _ _ (Nat.le_add_right _ _)]
    refine ⟨_, rfl, ?_⟩
    rw [← List.append_nil text, Place.shown_row _ ended within, inFirst]
    rintro ⟨-, last⟩
    rw [List.append_nil] at last
    exact ended (List.mem_of_getLast? last)
termination_by text.length

theorem exists_lineAt? {text : List Char} (nonempty : text ≠ []) (lineFeeds : LineFeedsOnly text)
    {position : Nat} (within : position ≤ text.length) :
    ∃ line, lineAt? text position = some line ∧
      Place.mk line.number (position - line.offset + 1) = Place.shown ⟨1, 1⟩ text position := by
  have found := exists_lastLine text nonempty lineFeeds 1 0 within
  rw [Nat.zero_add] at found
  rw [lineAt?, if_pos within]
  exact found

theorem lineAt?_eq_none {text : List Char} {position : Nat} (beyond : text.length < position) :
    lineAt? text position = none := by
  rw [lineAt?, if_neg (Nat.not_le_of_lt beyond)]

end PageAssembly.Language
