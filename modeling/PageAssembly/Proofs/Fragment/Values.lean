import PageAssembly.Fragment.Execution

/-!
The values that fragments speak of: what a path leads to, which values stand for nothing, which can
be repeated over, and how a text becomes content of markup. Each is given by rules and shown to be
what an execution computes.
-/

namespace PageAssembly.Semantics

open PageAssembly.Language (Path)

inductive Numbers : String → Nat → Prop where
  | digits {digits : List Char} (nonempty : digits ≠ []) (decimal : ∀ c ∈ digits, c.isDigit)
      (small : Nat.ofDigitChars 10 digits 0 < 0x10000000000000000) :
      Numbers (String.ofList digits) (Nat.ofDigitChars 10 digits 0)
  | plus {digits : List Char} (nonempty : digits ≠ []) (decimal : ∀ c ∈ digits, c.isDigit)
      (small : Nat.ofDigitChars 10 digits 0 < 0x10000000000000000) :
      Numbers (String.ofList ('+' :: digits)) (Nat.ofDigitChars 10 digits 0)

/-- What a name means in a value. -/
inductive Member : Json → String → Json → Prop where
  | field {fields : List (String × Json)} {name : String} {value : Json}
      (stored : fields.lookup name = some value) : Member (.object fields) name value
  | noField {fields : List (String × Json)} {name : String}
      (absent : fields.lookup name = none) : Member (.object fields) name .null
  | item {items : List Json} {name : String} {index : Nat} {value : Json}
      (number : Numbers name index) (there : items[index]? = some value) :
      Member (.array items) name value
  | noItem {items : List Json} {name : String}
      (beyond : ∀ index, Numbers name index → items.length ≤ index) :
      Member (.array items) name .null
  | null {name : String} : Member .null name .null
  | bool {value : Bool} {name : String} : Member (.bool value) name .null
  | number {value : Number} {name : String} : Member (.number value) name .null
  | string {text name : String} : Member (.string text) name .null

inductive Leads : Json → List String → Json → Prop where
  | here {value : Json} : Leads value [] value
  | further {value inner reached : Json} {name : String} {names : List String}
      (first : Member value name inner) (later : Leads inner names reached) :
      Leads value (name :: names) reached

/-- What a path means on a page with this data, where dot is this value. -/
inductive Denotes (root dot : Json) : Path → Json → Prop where
  | fromRoot {names : List String} {value : Json} (leads : Leads root names value) :
      Denotes root dot ⟨true, names⟩ value
  | fromDot {names : List String} {value : Json} (leads : Leads dot names value) :
      Denotes root dot ⟨false, names⟩ value

/-- What an invocation makes of its argument: the new dot, or null without one. -/
inductive Passes (root dot : Json) : Option Path → Json → Prop where
  | argument {path : Path} {value : Json} (denotes : Denotes root dot path value) :
      Passes root dot (some path) value
  | nothing : Passes root dot none .null

/-- Values that stand for nothing. -/
inductive Void : Json → Prop where
  | null : Void .null
  | false : Void (.bool false)
  | zero : Void (.number (.whole 0))
  | realZero {value : Binary64} (zero : value.isZero) : Void (.number (.real value))
  | text : Void (.string "")
  | array : Void (.array [])
  | object : Void (.object [])

/-- The values that a repetition goes through, those of an object in increasing order of their
names: this is how its fields stand. -/
inductive Items : Json → List Json → Prop where
  | null : Items .null []
  | array {items : List Json} : Items (.array items) items
  | object {fields : List (String × Json)} : Items (.object fields) (fields.map Prod.snd)

def entity (c : Char) : List Char :=
  if c = '&' then "&amp;".toList
  else if c = '<' then "&lt;".toList
  else if c = '>' then "&gt;".toList
  else if c = '"' then "&#34;".toList
  else if c = '\'' then "&#39;".toList
  else [c]

theorem isDigit_iff (c : Char) : c.isDigit = true ↔ '0' ≤ c ∧ c ≤ '9' := by
  simp [Char.isDigit, Char.le_def]

theorem decimalValue (c : Char) :
    (Text.digitValue? c).bind (fun digit => if digit < 10 then some digit else none) =
      if c.isDigit then some (c.toNat - '0'.toNat) else none := by
  simp only [isDigit_iff, Text.digitValue?]
  split
  · rename_i decimal
    have small : c.toNat ≤ '9'.toNat := decimal.2
    have value : c.toNat - '0'.toNat < 10 := by
      simp only [Char.reduceToNat] at small ⊢
      omega
    exact if_pos value
  · split
    · simp
    · split
      · simp
      · rfl

theorem foldlM_decimal (digits : List Char) (start : Nat) :
    digits.foldlM (fun value c =>
        (if c.isDigit then some (c.toNat - '0'.toNat) else none).bind fun digit =>
          some (value * 10 + digit)) start =
      if digits.all Char.isDigit then some (Nat.ofDigitChars 10 digits start) else none := by
  induction digits generalizing start with
  | nil => rfl
  | cons c digits induction =>
      rw [List.foldlM_cons, List.all_cons]
      cases c.isDigit with
      | false => rfl
      | true =>
          simp only [if_true, Option.bind_some, Option.bind_eq_bind, Bool.true_and, induction,
            Nat.ofDigitChars, List.foldl_cons, Nat.mul_comm]

theorem valueIn?_decimal (digits : List Char) :
    Text.valueIn? 10 digits =
      if digits.all Char.isDigit then some (Nat.ofDigitChars 10 digits 0) else none := by
  rw [← foldlM_decimal, Text.valueIn?]
  congr
  funext value c
  rw [← decimalValue, Option.bind_eq_bind, Option.bind_assoc]
  congr
  funext digit
  split <;> rfl

theorem itemNumber?_digits (digits : List Char) (index : Nat) :
    (if digits.isEmpty then none
      else (Text.valueIn? 10 digits).bind fun number =>
        if number < Text.wordLimit then some number else none) = some index ↔
      digits ≠ [] ∧ (∀ c ∈ digits, c.isDigit) ∧
        Nat.ofDigitChars 10 digits 0 < Text.wordLimit ∧
        Nat.ofDigitChars 10 digits 0 = index := by
  rw [valueIn?_decimal]
  by_cases empty : digits = []
  · simp [empty]
  · by_cases decimal : digits.all Char.isDigit
    · have each : ∀ c ∈ digits, c.isDigit := List.all_eq_true.mp decimal
      simp only [List.isEmpty_iff, empty, if_false, decimal, if_true, Option.bind_some,
        Option.ite_none_right_eq_some, Option.some.injEq, ne_eq, not_false_eq_true, true_and]
      exact ⟨fun found => ⟨each, found⟩, fun found => found.2⟩
    · simp [empty, decimal, ← List.all_eq_true]

theorem itemNumber?_iff {name : String} {index : Nat} :
    itemNumber? name = some index ↔ Numbers name index := by
  constructor
  · intro found
    rw [itemNumber?] at found
    split at found
    · rename_i digits spelled
      obtain ⟨nonempty, decimal, small, rfl⟩ := (itemNumber?_digits digits index).mp found
      have numbered := Numbers.plus nonempty decimal small
      rwa [← spelled, String.ofList_toList] at numbered
    · obtain ⟨nonempty, decimal, small, rfl⟩ := (itemNumber?_digits name.toList index).mp found
      have numbered := Numbers.digits nonempty decimal small
      rwa [String.ofList_toList] at numbered
  · intro number
    rw [itemNumber?]
    cases number with
    | @digits digits nonempty decimal small =>
        have first : ∀ rest, digits ≠ '+' :: rest := by
          rintro rest rfl
          exact absurd (decimal '+' List.mem_cons_self) (by decide)
        rw [String.toList_ofList]
        split
        · exact absurd rfl (first _)
        · exact (itemNumber?_digits digits _).mpr ⟨nonempty, decimal, small, rfl⟩
    | @plus digits nonempty decimal small =>
        rw [String.toList_ofList]
        exact (itemNumber?_digits digits _).mpr ⟨nonempty, decimal, small, rfl⟩

theorem lookup_eq (fields : List (String × Json)) (name : String) :
    Table.get? fields name = fields.lookup name := by
  induction fields with
  | nil => rfl
  | cons entry fields induction =>
      obtain ⟨key, value⟩ := entry
      rw [Table.get?, List.lookup_cons, induction]
      by_cases same : key = name
      · simp [same]
      · simp [same, beq_false_of_ne (Ne.symm same)]

theorem member_iff {value inner : Json} {name : String} :
    Member value name inner ↔ value.member name = inner := by
  constructor
  · intro member
    cases member with
    | field stored => simp [Json.member, lookup_eq, stored]
    | noField absent => simp [Json.member, lookup_eq, absent]
    | item number there =>
        simp [Json.member, itemNumber?_iff.mpr number, there]
    | noItem beyond =>
        simp only [Json.member]
        split
        · rename_i index found
          simp [beyond index (itemNumber?_iff.mp found)]
        · rfl
    | null => rfl
    | bool => rfl
    | number => rfl
    | string => rfl
  · rintro rfl
    cases value with
    | null => exact .null
    | bool value => exact .bool
    | number value => exact .number
    | string text => exact .string
    | object fields =>
        simp only [Json.member, lookup_eq]
        cases stored : fields.lookup name with
        | none => exact .noField stored
        | some value => exact .field stored
    | array items =>
        simp only [Json.member]
        split
        · rename_i index found
          have number := itemNumber?_iff.mp found
          rw [List.getD_eq_getElem?_getD]
          cases there : items[index]? with
          | some value => exact .item number there
          | none =>
              refine .noItem ?_
              intro other also
              rw [itemNumber?_iff.mpr also] at found
              cases found
              exact List.getElem?_eq_none_iff.mp there
        · rename_i unnumbered
          refine .noItem ?_
          intro index number
          rw [itemNumber?_iff.mpr number] at unnumbered
          cases unnumbered

theorem leads_iff {value reached : Json} {names : List String} :
    Leads value names reached ↔ names.foldl Json.member value = reached := by
  constructor
  · intro leads
    induction leads with
    | here => rfl
    | further first _ induction =>
        rw [List.foldl_cons, member_iff.mp first]
        exact induction
  · rintro rfl
    induction names generalizing value with
    | nil => exact .here
    | cons name names induction => exact .further (member_iff.mpr rfl) induction

theorem denotes_iff {root dot value : Json} {path : Path} :
    Denotes root dot path value ↔ Execution.evaluate root dot path = value := by
  obtain ⟨fromRoot, names⟩ := path
  cases fromRoot with
  | true =>
      refine Iff.trans ⟨?_, .fromRoot⟩ leads_iff
      intro denotes
      cases denotes with
      | fromRoot leads => exact leads
  | false =>
      refine Iff.trans ⟨?_, .fromDot⟩ leads_iff
      intro denotes
      cases denotes with
      | fromDot leads => exact leads

theorem passes_iff {root dot value : Json} {argument : Option Path} :
    Passes root dot argument value ↔ Execution.argument root dot argument = value := by
  cases argument with
  | none =>
      refine ⟨?_, ?_⟩
      · rintro ⟨⟩
        rfl
      · rintro rfl
        exact .nothing
  | some path =>
      refine Iff.trans ⟨?_, .argument⟩ denotes_iff
      rintro ⟨denotes⟩
      exact denotes

theorem void_iff (value : Json) : Void value ↔ value.holds = false := by
  constructor
  · intro void
    cases void with
    | realZero zero => simp [Json.holds, zero]
    | _ => rfl
  · intro empty
    cases value with
    | null => exact .null
    | bool value =>
        cases empty
        exact .false
    | number value =>
        cases value with
        | whole value =>
            obtain rfl : value = 0 := by simpa [Json.holds] using empty
            exact .zero
        | real value => exact .realZero (by simpa [Json.holds] using empty)
    | string text =>
        obtain rfl : text = "" := by simpa [Json.holds] using empty
        exact .text
    | array items =>
        obtain rfl : items = [] := by simpa [Json.holds] using empty
        exact .array
    | object fields =>
        obtain rfl : fields = [] := by simpa [Json.holds] using empty
        exact .object

theorem items_iff {value : Json} {items : List Json} :
    Items value items ↔ value.items? = some items := by
  constructor
  · rintro ⟨⟩ <;> rfl
  · intro several
    cases value with
    | null =>
        cases several
        exact .null
    | array =>
        cases several
        exact .array
    | object =>
        cases several
        exact .object
    | _ => cases several

/-- Replacing one character after the other comes to replacing all at once. -/
theorem escapeContent_eq (text : List Char) :
    Html.escapeContent text = text.flatMap entity := by
  simp only [Html.escapeContent, Html.replaceEach, Html.contentEntities, List.foldl_cons,
    List.foldl_nil, Text.replaceChar, List.flatMap_assoc]
  congr
  funext c
  by_cases marked : c ∈ ['&', '<', '>', '"', '\'']
  · simp only [List.mem_cons, List.not_mem_nil, or_false] at marked
    rcases marked with rfl | rfl | rfl | rfl | rfl <;> rfl
  · simp only [List.mem_cons, List.not_mem_nil, or_false, not_or] at marked
    simp [entity, marked]

end PageAssembly.Semantics
