import Mathlib.Data.List.TakeDrop
import PageAssembly.Json.Reader

/-!
What one step of reading does: with a character of a text in quotes, and with a value, items or
fields when their parts are read in one step less.
-/

namespace PageAssembly.Json

theorem span_append {wanted : Char → Bool} {front rest : List Char}
    (all : ∀ c ∈ front, wanted c = true) (stops : ∀ c ∈ rest.head?, wanted c = false) :
    (front ++ rest).span wanted = (front, rest) := by
  have nothing : rest.takeWhile wanted = [] ∧ rest.dropWhile wanted = rest := by
    cases rest with
    | nil => exact ⟨rfl, rfl⟩
    | cons c rest => simp [stops c rfl]
  rw [List.span_eq_takeWhile_dropWhile, List.takeWhile_append_of_pos all,
    List.dropWhile_append_of_pos all, nothing.1, nothing.2, List.append_nil]

section

variable (text : List Char)

theorem readText_escape {sign c : Char} (escape : shortEscape? sign = some c) :
    readText ('\\' :: sign :: text) = (readText text).map (Prod.map (c :: ·) id) := by
  rw [readText.eq_4]
  · rw [escape]
    cases readText text <;> rfl
  · rintro _ _ _ _ _ rfl _
    cases escape

theorem readText_unit {a b c d : Char} {unit : Nat} (known : codeUnit? a b c d = some unit)
    (whole : ¬ (0xd800 ≤ unit ∧ unit < 0xe000)) :
    readText ('\\' :: 'u' :: a :: b :: c :: d :: text) =
      (readText text).map (Prod.map (Char.ofNat unit :: ·) id) := by
  rw [readText, known]
  simp only [Option.bind_eq_bind, Option.bind_some, if_neg whole]
  cases readText text <;> rfl

theorem readText_pair {a b c d e f g h char : Char} {unit low : Nat}
    (known : codeUnit? a b c d = some unit) (half : 0xd800 ≤ unit ∧ unit < 0xe000)
    (also : codeUnit? e f g h = some low) (both : pairedChar? unit low = some char) :
    readText ('\\' :: 'u' :: a :: b :: c :: d :: '\\' :: 'u' :: e :: f :: g :: h :: text) =
      (readText text).map (Prod.map (char :: ·) id) := by
  rw [readText, known]
  simp only [Option.bind_eq_bind, Option.bind_some, if_pos half, also, both]
  cases readText text <;> rfl

theorem readText_plain {c : Char} (unquoted : c ≠ '"') (unescaped : c ≠ '\\')
    (visible : ¬ c.toNat < 0x20) :
    readText (c :: text) = (readText text).map (Prod.map (c :: ·) id) := by
  rw [readText.eq_5 c text unquoted (fun _ _ _ _ _ same => absurd same unescaped)
    (fun _ _ same => absurd same unescaped), if_neg visible]
  cases readText text <;> rfl

end

def readSize (negative : Bool) (text : List Char) : Option (Option Int × List Char) :=
  match text.span Text.isDecimal with
  | ([], _) => none
  | (digits, rest) => do
      let size ← Text.valueIn? 10 digits
      some (some (if negative then -(size : Int) else size), rest)

theorem readExponent_cons {sign : Char} (marked : (sign = 'e' || sign = 'E') = true)
    (text : List Char) :
    readExponent (sign :: text) =
      match text with
      | '-' :: text => readSize true text
      | '+' :: text => readSize false text
      | text => readSize false text := by
  exact if_pos marked

def readSigned (negative : Bool) (text : List Char) : Option (Number × List Char) := do
  let (whole, text) ← readWhole text
  let (fraction, text) ← readFraction text
  let (exponent, text) ← readExponent text
  let number ← numberOf? negative whole fraction exponent
  some (number, text)

theorem readNumber_eq (text : List Char) :
    readNumber text =
      match text with
      | '-' :: text => readSigned true text
      | text => readSigned false text := by
  split
  · rfl
  · rename_i unsigned
    rw [readNumber.eq_2 text unsigned]
    rfl

/-- What can be read where no blank is in front, when the parts of it are read in so many steps. -/
inductive ValueStep (steps : Nat) : List Char → Json → List Char → Prop where
  | text {rest after content : List Char} (read : readText rest = some (content, after)) :
      ValueStep steps ('"' :: rest) (.string (String.ofList content)) after
  | noItems {rest after : List Char} (closed : skipBlanks rest = ']' :: after) :
      ValueStep steps ('[' :: rest) (.array []) after
  | items {rest after : List Char} {items : List Json}
      (further : ∀ after, skipBlanks rest ≠ ']' :: after)
      (read : readItems steps (skipBlanks rest) = some (items, after)) :
      ValueStep steps ('[' :: rest) (.array items) after
  | noFields {rest after : List Char} (closed : skipBlanks rest = '\x7d' :: after) :
      ValueStep steps ('\x7b' :: rest) (.object []) after
  | fields {rest after : List Char} {fields : List (String × Json)}
      (further : ∀ after, skipBlanks rest ≠ '\x7d' :: after)
      (read : readFields steps (skipBlanks rest) = some (fields, after)) :
      ValueStep steps ('\x7b' :: rest) (.object (Table.ofList fields)) after
  | null {after : List Char} : ValueStep steps ('n' :: 'u' :: 'l' :: 'l' :: after) .null after
  | true {after : List Char} : ValueStep steps ('t' :: 'r' :: 'u' :: 'e' :: after) (.bool true) after
  | false {after : List Char} :
      ValueStep steps ('f' :: 'a' :: 'l' :: 's' :: 'e' :: after) (.bool false) after
  | number {text after : List Char} {value : Number} (read : readNumber text = some (value, after)) :
      ValueStep steps text (.number value) after

theorem readLiteral_eq_some_iff {literal : String} {value read : Json} {text after : List Char} :
    readLiteral literal value text = some (read, after) ↔
      text = literal.toList ++ after ∧ value = read := by
  simp [readLiteral, Text.after?_eq_some]

theorem readNumber_starts {text after : List Char} {value : Number}
    (read : readNumber text = some (value, after)) :
    ∃ c rest, text = c :: rest ∧ (c = '-' ∨ Text.isDecimal c = true) := by
  cases text with
  | nil => cases read
  | cons c rest =>
      refine ⟨c, rest, rfl, ?_⟩
      by_contra other
      rw [not_or, Bool.not_eq_true] at other
      have digits : (c :: rest).span Text.isDecimal = ([], c :: rest) := by
        simp [List.span_eq_takeWhile_dropWhile, other.2]
      have unread : readSigned false (c :: rest) = none := by
        rw [readSigned, readWhole, digits]
        rfl
      rw [readNumber_eq] at read
      split at read
      · rename_i signed
        exact other.1 (List.cons.inj signed).1
      · rw [unread] at read
        cases read

theorem readValue_eq_some_iff {steps : Nat} {text after : List Char} {value : Json} :
    readValue (steps + 1) text = some (value, after) ↔
      ValueStep steps (skipBlanks text) value after := by
  rw [readValue]
  constructor
  · intro read
    split at read
    · rename_i rest begins
      obtain ⟨⟨content, after⟩, given, same⟩ := Option.bind_eq_some_iff.mp read
      cases same
      exact begins ▸ .text given
    · rename_i rest begins
      split at read
      · rename_i closed
        cases read
        exact begins ▸ .noItems closed
      · rename_i further
        obtain ⟨⟨items, after⟩, given, same⟩ := Option.bind_eq_some_iff.mp read
        cases same
        exact begins ▸ .items further given
    · rename_i rest begins
      split at read
      · rename_i closed
        cases read
        exact begins ▸ .noFields closed
      · rename_i further
        obtain ⟨⟨fields, after⟩, given, same⟩ := Option.bind_eq_some_iff.mp read
        cases same
        exact begins ▸ .fields further given
    · rename_i rest begins
      obtain ⟨spelled, rfl⟩ := readLiteral_eq_some_iff.mp read
      exact begins ▸ spelled ▸ .null
    · rename_i rest begins
      obtain ⟨spelled, rfl⟩ := readLiteral_eq_some_iff.mp read
      exact begins ▸ spelled ▸ .true
    · rename_i rest begins
      obtain ⟨spelled, rfl⟩ := readLiteral_eq_some_iff.mp read
      exact begins ▸ spelled ▸ .false
    · obtain ⟨⟨number, after⟩, given, same⟩ := Option.bind_eq_some_iff.mp read
      cases same
      exact .number given
  · intro step
    generalize skipBlanks text = begins at step
    cases step with
    | text read => simp [read]
    | noItems closed => simp [closed]
    | items further read => simp [read]
    | noFields closed => simp [closed]
    | fields further read => simp [read]
    | null => exact readLiteral_eq_some_iff.mpr ⟨rfl, rfl⟩
    | true => exact readLiteral_eq_some_iff.mpr ⟨rfl, rfl⟩
    | false => exact readLiteral_eq_some_iff.mpr ⟨rfl, rfl⟩
    | number read =>
        obtain ⟨c, rest, rfl, starts⟩ := readNumber_starts read
        split
        case h_7 => simp [read]
        -- no other value begins with a digit or with that sign
        all_goals
          rename_i same
          cases same
          rcases starts with minus | digit <;> contradiction

inductive ItemsStep (steps : Nat) (text : List Char) : List Json → List Char → Prop where
  | last {item : Json} {rest after : List Char} (read : readValue steps text = some (item, rest))
      (closed : skipBlanks rest = ']' :: after) : ItemsStep steps text [item] after
  | more {item : Json} {items : List Json} {rest later after : List Char}
      (read : readValue steps text = some (item, rest)) (further : skipBlanks rest = ',' :: later)
      (others : readItems steps later = some (items, after)) :
      ItemsStep steps text (item :: items) after

theorem readItems_eq_some_iff {steps : Nat} {text after : List Char} {items : List Json} :
    readItems (steps + 1) text = some (items, after) ↔ ItemsStep steps text items after := by
  rw [readItems]
  constructor
  · intro read
    obtain ⟨⟨item, rest⟩, given, read⟩ := Option.bind_eq_some_iff.mp read
    dsimp only at read
    split at read
    · rename_i further
      obtain ⟨⟨items, after⟩, others, same⟩ := Option.bind_eq_some_iff.mp read
      cases same
      exact .more given further others
    · rename_i closed
      cases read
      exact .last given closed
    · cases read
  · intro step
    cases step with
    | last read closed => simp [read, closed]
    | more read further others => simp [read, further, others]

inductive FieldStep (steps : Nat) (text : List Char) : String × Json → List Char → Prop where
  | field {name named given rest content : List Char} {value : Json}
      (quoted : skipBlanks text = '"' :: name) (spelled : readText name = some (content, named))
      (assigned : skipBlanks named = ':' :: given)
      (read : readValue steps given = some (value, rest)) :
      FieldStep steps text (String.ofList content, value) rest

inductive FieldsStep (steps : Nat) (text : List Char) : List (String × Json) → List Char → Prop where
  | last {field : String × Json} {rest after : List Char} (read : FieldStep steps text field rest)
      (closed : skipBlanks rest = '\x7d' :: after) : FieldsStep steps text [field] after
  | more {field : String × Json} {fields : List (String × Json)} {rest later after : List Char}
      (read : FieldStep steps text field rest) (further : skipBlanks rest = ',' :: later)
      (others : readFields steps later = some (fields, after)) :
      FieldsStep steps text (field :: fields) after

theorem readFields_eq_some_iff {steps : Nat} {text after : List Char}
    {fields : List (String × Json)} :
    readFields (steps + 1) text = some (fields, after) ↔ FieldsStep steps text fields after := by
  rw [readFields]
  constructor
  · intro read
    split at read
    · rename_i name quoted
      obtain ⟨⟨content, named⟩, spelled, read⟩ := Option.bind_eq_some_iff.mp read
      dsimp only at read
      split at read
      · rename_i given assigned
        obtain ⟨⟨value, rest⟩, known, read⟩ := Option.bind_eq_some_iff.mp read
        have field := FieldStep.field quoted spelled assigned known
        dsimp only at read
        split at read
        · rename_i further
          obtain ⟨⟨fields, after⟩, others, same⟩ := Option.bind_eq_some_iff.mp read
          cases same
          exact .more field further others
        · rename_i closed
          cases read
          exact .last field closed
        · cases read
      · cases read
    · cases read
  · intro step
    cases step with
    | last field closed =>
        obtain ⟨quoted, spelled, assigned, read⟩ := field
        simp [quoted, spelled, assigned, read, closed]
    | more field further others =>
        obtain ⟨quoted, spelled, assigned, read⟩ := field
        simp [quoted, spelled, assigned, read, further, others]

end PageAssembly.Json
