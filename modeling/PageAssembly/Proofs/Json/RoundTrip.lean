import PageAssembly.Json.Printer
import PageAssembly.Proofs.Json.Reading
import PageAssembly.Proofs.Table
import PageAssembly.Proofs.Text.Digits

/-!
Reading back what was printed. Texts are read back character by character, each by the escape that
it was printed with, and a number ends where a sign of the value around it comes.
-/

namespace PageAssembly.Json

theorem codeUnit?_control : ∀ value < 0x20,
    codeUnit? '0' '0' (Text.digitChar (value / 16)) (Text.digitChar (value % 16)) = some value := by
  decide

theorem readText_printedChar (c : Char) (text : List Char) :
    readText (printedChar c ++ text) = (readText text).map (Prod.map (c :: ·) id) := by
  fun_cases printedChar c with
  | case8 _ _ _ _ _ _ _ _ low =>
      have whole : ¬ (0xd800 ≤ c.toNat ∧ c.toNat < 0xe000) := by omega
      have read := readText_unit text (codeUnit?_control c.toNat low) whole
      rw [Char.ofNat_toNat] at read
      exact read
  | case9 _ unquoted unescaped _ _ _ _ _ visible =>
      exact readText_plain text unquoted unescaped visible
  | _ => exact readText_escape text rfl

theorem readText_printed (content text : List Char) :
    readText (content.flatMap printedChar ++ '"' :: text) = some (content, text) := by
  induction content with
  | nil => rw [List.flatMap_nil, List.nil_append, readText]
  | cons c content induction =>
      rw [List.flatMap_cons, List.append_assoc, readText_printedChar, induction]
      rfl

/-- A sign of the value around it ends a value, and so does the end of the text. -/
def Delimited (text : List Char) : Prop :=
  ∀ c ∈ text.head?, c = ',' ∨ c = ']' ∨ c = '\x7d'

theorem delimited_nil : Delimited [] := by
  intro c first
  cases first

theorem delimited_cons {c : Char} (sign : c = ',' ∨ c = ']' ∨ c = '\x7d') (text : List Char) :
    Delimited (c :: text) := by
  intro first same
  cases same
  exact sign

section

variable {text : List Char} (delimited : Delimited text)

include delimited

theorem span_decimal (value : Nat) :
    (Text.decimal value ++ text).span Text.isDecimal = (Text.decimal value, text) := by
  apply span_append
  · intro c member
    rw [Text.isDecimal_eq]
    exact Text.isDigit_of_mem_decimal c member
  · intro c first
    rcases delimited c first with rfl | rfl | rfl <;> rfl

theorem readWhole_decimal (value : Nat) :
    readWhole (Text.decimal value ++ text) = some (Text.decimal value, text) := by
  rw [readWhole, span_decimal delimited]
  split
  · rename_i _ nothing
    exact absurd (Prod.mk.inj nothing).1 (Text.decimal_ne_nil value)
  · rename_i zeros
    have first := (Prod.mk.inj zeros).1
    cases Text.decimal_of_zero_first first
  · rename_i same
    rw [same]

theorem readFraction_delimited : readFraction text = some ([], text) := by
  cases text with
  | nil => rfl
  | cons c rest => rcases delimited c rfl with rfl | rfl | rfl <;> rfl

theorem readExponent_delimited : readExponent text = some (none, text) := by
  cases text with
  | nil => rfl
  | cons c rest => rcases delimited c rfl with rfl | rfl | rfl <;> rfl

theorem readSigned_decimal {negative : Bool} {size : Nat} {number : Number}
    (fits : numberOf? negative (Text.decimal size) [] none = some number) :
    readSigned negative (Text.decimal size ++ text) = some (number, text) := by
  simp [readSigned, readWhole_decimal delimited, readFraction_delimited delimited,
    readExponent_delimited delimited, fits]

theorem readNumber_integer {value : Int} (least : -0x8000000000000000 ≤ value)
    (most : value < Text.wordLimit) :
    readNumber (Text.integer value ++ text) = some (.whole value, text) := by
  rw [readNumber_eq]
  cases value with
  | ofNat size =>
      have small : size < Text.wordLimit := Int.ofNat_lt.mp most
      have fits : numberOf? false (Text.decimal size) [] none = some (.whole size) := by
        simp [numberOf?, Text.valueIn?_decimal_eq, small]
      rw [Text.integer]
      split
      · rename_i rest signed
        rcases List.append_eq_cons_iff.mp signed with ⟨nothing, _⟩ | ⟨more, spelled, _⟩
        · exact absurd nothing (Text.decimal_ne_nil size)
        · have digit := @Text.isDigit_of_mem_decimal size '-' (by simp [spelled])
          cases digit
      · exact readSigned_decimal delimited fits
  | negSucc size =>
      have small : ¬ 0x8000000000000000 < size + 1 := by omega
      have fits : numberOf? true (Text.decimal (size + 1)) [] none =
          some (.whole (.negSucc size)) := by
        simp only [numberOf?, Text.valueIn?_decimal_eq]
        simp [small, Int.negSucc_eq]
      exact readSigned_decimal delimited fits

end

def opens (c : Char) : Bool :=
  c.isDigit || c = '-' || c = '"' || c = '[' || c = '\x7b' || c = 'n' || c = 't' || c = 'f'

theorem skipBlanks_of_opens {c : Char} (first : opens c = true) (rest : List Char) :
    skipBlanks (c :: rest) = c :: rest := by
  rw [skipBlanks, List.dropWhile_cons_of_neg]
  intro blank
  simp only [Bool.or_eq_true, decide_eq_true_eq] at blank
  rcases blank with ((rfl | rfl) | rfl) | rfl <;> cases first

/-- A value as it stands in a map whose numbers are all whole: these are of 64 bits, with a sign or
without, and the fields of an object stand in increasing order of their names. -/
inductive Whole : Json → Prop where
  | null : Whole .null
  | bool {value : Bool} : Whole (.bool value)
  | number {value : Int} (least : -0x8000000000000000 ≤ value) (most : value < Text.wordLimit) :
      Whole (.number (.whole value))
  | string {text : String} : Whole (.string text)
  | array {items : List Json} (each : ∀ item ∈ items, Whole item) : Whole (.array items)
  | object {fields : List (String × Json)}
      (ordered : fields.Pairwise fun one other => one.1 < other.1)
      (each : ∀ field ∈ fields, Whole field.2) : Whole (.object fields)

theorem Whole.print_opens {value : Json} (whole : Whole value) :
    ∃ c rest, value.print = c :: rest ∧ opens c = true := by
  cases whole with
  | null => exact ⟨'n', _, rfl, rfl⟩
  | @bool value => cases value <;> exact ⟨_, _, rfl, rfl⟩
  | @number value =>
      cases value with
      | ofNat size =>
          obtain ⟨c, rest, spelled⟩ := List.exists_cons_of_ne_nil (Text.decimal_ne_nil size)
          have digit : c.isDigit = true :=
            @Text.isDigit_of_mem_decimal size c (by simp [spelled])
          exact ⟨c, rest, spelled, by simp [opens, digit]⟩
      | negSucc size => exact ⟨'-', _, rfl, rfl⟩
  | string => exact ⟨'"', _, rfl, rfl⟩
  | array => exact ⟨'[', _, rfl, rfl⟩
  | object => exact ⟨'\x7b', _, rfl, rfl⟩

/-- The value is read back from its text in front of any text that ends it. Going into an array or
an object takes two steps, and it has two signs more than what is in it. -/
def ReadBack (value : Json) : Prop :=
  ∀ text steps, Delimited text → 2 * value.print.length < steps →
    readValue steps (value.print ++ text) = some (value, text)

theorem Whole.readBack_of_step {value : Json} (whole : Whole value)
    (step : ∀ text steps, Delimited text → 2 * value.print.length ≤ steps →
      ValueStep steps (value.print ++ text) value text) : ReadBack value := by
  intro text steps delimited enough
  cases steps with
  | zero => omega
  | succ steps =>
      obtain ⟨c, rest, spelled, first⟩ := whole.print_opens
      have unblank : skipBlanks (value.print ++ text) = value.print ++ text := by
        rw [spelled]
        exact skipBlanks_of_opens first (rest ++ text)
      rw [readValue_eq_some_iff, unblank]
      exact step text steps delimited (by omega)

theorem printItems_cons (item next : Json) (items : List Json) :
    printItems (item :: next :: items) = item.print ++ ',' :: printItems (next :: items) := by
  rw [printItems]
  exact List.cons_ne_nil next items

theorem Whole.printItems_opens {item : Json} (whole : Whole item) (items : List Json) :
    ∃ c rest, printItems (item :: items) = c :: rest ∧ opens c = true := by
  obtain ⟨c, rest, spelled, first⟩ := whole.print_opens
  cases items with
  | nil => exact ⟨c, rest, by rw [printItems, spelled], first⟩
  | cons next items =>
      exact ⟨c, rest ++ ',' :: printItems (next :: items),
        by rw [printItems_cons, spelled]; rfl, first⟩

theorem readItems_printed {items : List Json} (several : items ≠ [])
    (each : ∀ item ∈ items, ReadBack item) (text : List Char) {steps : Nat}
    (enough : 2 * (printItems items).length + 1 < steps) :
    readItems steps (printItems items ++ ']' :: text) = some (items, text) := by
  induction items generalizing steps with
  | nil => exact absurd rfl several
  | cons item items induction =>
      have first : ReadBack item := each item List.mem_cons_self
      cases steps with
      | zero => omega
      | succ steps =>
          rw [readItems_eq_some_iff]
          cases items with
          | nil =>
              rw [printItems] at enough ⊢
              have read :=
                first (']' :: text) steps (delimited_cons (.inr (.inl rfl)) text) (by omega)
              exact .last read rfl
          | cons next items =>
              rw [printItems_cons, List.length_append, List.length_cons] at enough
              rw [printItems_cons, List.append_assoc]
              have read := first (',' :: (printItems (next :: items) ++ ']' :: text)) steps
                (delimited_cons (.inl rfl) _) (by omega)
              have others := induction (List.cons_ne_nil next items)
                (fun later member => each later (List.mem_cons_of_mem _ member))
                (by omega : _ < steps)
              exact .more read rfl others

theorem printFields_cons (name : String) (value : Json) (next : String × Json)
    (fields : List (String × Json)) :
    printFields ((name, value) :: next :: fields) =
      printString name ++ ':' :: value.print ++ ',' :: printFields (next :: fields) := by
  rw [printFields]
  exact List.cons_ne_nil next fields

theorem readText_printString (content : String) (text : List Char) :
    ∃ rest, printString content ++ text = '"' :: rest ∧
      readText rest = some (content.toList, text) := by
  refine ⟨content.toList.flatMap printedChar ++ '"' :: text, ?_, readText_printed _ text⟩
  simp [printString]

theorem fieldStep_printed (name : String) {value : Json} (readBack : ReadBack value)
    {text : List Char} (delimited : Delimited text) {steps : Nat}
    (enough : 2 * value.print.length < steps) :
    FieldStep steps (printString name ++ ':' :: value.print ++ text) (name, value) text := by
  obtain ⟨rest, quoted, spelled⟩ := readText_printString name (':' :: value.print ++ text)
  have read := readBack text steps delimited enough
  have field : FieldStep steps ('"' :: rest) _ text := .field rfl spelled rfl read
  rw [String.ofList_toList, ← quoted, ← List.append_assoc] at field
  exact field

theorem printFields_opens (field : String × Json) (fields : List (String × Json)) :
    ∃ rest, printFields (field :: fields) = '"' :: rest := by
  cases fields with
  | nil => exact ⟨_, rfl⟩
  | cons next fields =>
      rw [printFields_cons]
      exact ⟨_, rfl⟩

theorem readFields_printed {fields : List (String × Json)} (several : fields ≠ [])
    (each : ∀ field ∈ fields, ReadBack field.2) (text : List Char) {steps : Nat}
    (enough : 2 * (printFields fields).length + 1 < steps) :
    readFields steps (printFields fields ++ '\x7d' :: text) = some (fields, text) := by
  induction fields generalizing steps with
  | nil => exact absurd rfl several
  | cons field fields induction =>
      obtain ⟨name, value⟩ := field
      have first : ReadBack value := each (name, value) List.mem_cons_self
      cases steps with
      | zero => omega
      | succ steps =>
          rw [readFields_eq_some_iff]
          cases fields with
          | nil =>
              simp only [printFields, List.length_append, List.length_cons] at enough
              have read := fieldStep_printed name first
                (delimited_cons (.inr (.inr rfl)) text) (by omega : _ < steps)
              exact .last read rfl
          | cons next fields =>
              simp only [printFields_cons, List.length_append, List.length_cons] at enough
              rw [printFields_cons, List.append_assoc]
              have read := fieldStep_printed name first
                (delimited_cons (.inl rfl) (printFields (next :: fields) ++ '\x7d' :: text))
                (by omega : _ < steps)
              have others := induction (List.cons_ne_nil next fields)
                (fun later member => each later (List.mem_cons_of_mem _ member))
                (by omega : _ < steps)
              exact .more read rfl others

theorem valueStep_array {items : List Json} (whole : ∀ item ∈ items, Whole item)
    (each : ∀ item ∈ items, ReadBack item) (text : List Char) {steps : Nat}
    (enough : 2 * (Json.array items).print.length ≤ steps) :
    ValueStep steps ((Json.array items).print ++ text) (.array items) text := by
  rw [print, List.length_append, List.length_cons, List.length_singleton] at enough
  rw [print, List.append_assoc, List.cons_append, List.singleton_append]
  cases items with
  | nil => exact .noItems rfl
  | cons item items =>
      have read := readItems_printed (List.cons_ne_nil item items) each text (by omega : _ < steps)
      obtain ⟨c, rest, spelled, first⟩ := (whole item List.mem_cons_self).printItems_opens items
      rw [spelled, List.cons_append] at read ⊢
      have unblank := skipBlanks_of_opens first (rest ++ ']' :: text)
      rw [← unblank] at read
      refine .items ?_ read
      rw [unblank]
      intro after closed
      cases closed
      cases first

theorem valueStep_object {fields : List (String × Json)}
    (ordered : fields.Pairwise fun one other => one.1 < other.1)
    (each : ∀ field ∈ fields, ReadBack field.2) (text : List Char) {steps : Nat}
    (enough : 2 * (Json.object fields).print.length ≤ steps) :
    ValueStep steps ((Json.object fields).print ++ text) (.object fields) text := by
  rw [print, List.length_append, List.length_cons, List.length_singleton] at enough
  rw [print, List.append_assoc, List.cons_append, List.singleton_append]
  cases fields with
  | nil => exact .noFields rfl
  | cons field fields =>
      have read := readFields_printed (List.cons_ne_nil field fields) each text (by omega : _ < steps)
      obtain ⟨rest, spelled⟩ := printFields_opens field fields
      rw [spelled] at read ⊢
      have further : ∀ after, skipBlanks ('"' :: (rest ++ '\x7d' :: text)) ≠ '\x7d' :: after := by
        intro after closed
        cases closed
      have step : ValueStep steps ('\x7b' :: '"' :: (rest ++ '\x7d' :: text)) _ _ :=
        .fields further read
      rw [Table.ofList_of_ordered ordered] at step
      exact step

theorem Whole.readBack {value : Json} (whole : Whole value) : ReadBack value := by
  induction whole with
  | null => exact Whole.null.readBack_of_step fun _ _ _ _ => .null
  | @bool value =>
      apply Whole.bool.readBack_of_step
      intro _ _ _ _
      cases value with
      | true => exact .true
      | false => exact .false
  | number least most =>
      apply (Whole.number least most).readBack_of_step
      intro text _ delimited _
      exact .number (readNumber_integer delimited least most)
  | @string content =>
      apply Whole.string.readBack_of_step
      intro text steps _ _
      obtain ⟨rest, quoted, read⟩ := readText_printString content text
      have step : ValueStep steps ('"' :: rest) _ _ := .text read
      rw [String.ofList_toList, ← quoted] at step
      exact step
  | array each readBack =>
      apply (Whole.array each).readBack_of_step
      intro text _ _ enough
      exact valueStep_array each readBack text enough
  | object ordered each readBack =>
      apply (Whole.object ordered each).readBack_of_step
      intro text _ _ enough
      exact valueStep_object ordered readBack text enough

theorem Whole.read?_print {value : Json} (whole : Whole value) : read? value.print = some value := by
  have read := whole.readBack [] (2 * value.print.length + 2) delimited_nil (by omega)
  rw [List.append_nil] at read
  rw [read?, read]
  rfl

end PageAssembly.Json
