import PageAssembly.Proofs.Json.RoundTrip
import PageAssembly.Proofs.Page.Inlining

/-!
Guarding the text of the values. A slash behind a less-than sign can stand only in a text in quotes,
and there it is read as the same character with a backslash and without one. So what is read of a
guarded text is what is read of the text itself.
-/

namespace PageAssembly.Block

open PageAssembly.Json

theorem guardEndTags_cons_of_apart {c : Char} {text : List Char}
    (apart : ∀ rest, c = '<' → text ≠ '/' :: rest) :
    guardEndTags (c :: text) = c :: guardEndTags text := by
  rw [guardEndTags]
  exact apart

theorem guardEndTags_cons {c : Char} (other : c ≠ '<') (text : List Char) :
    guardEndTags (c :: text) = c :: guardEndTags text :=
  guardEndTags_cons_of_apart fun _ same => absurd same other

theorem guardEndTags_append {front : List Char} (absent : '<' ∉ front) (text : List Char) :
    guardEndTags (front ++ text) = front ++ guardEndTags text := by
  induction front with
  | nil => rfl
  | cons c front induction =>
      rw [List.mem_cons, not_or] at absent
      rw [List.cons_append, guardEndTags_cons (Ne.symm absent.1), induction absent.2,
        List.cons_append]

theorem guardEndTags_starts (c : Char) (text : List Char) :
    ∃ rest, guardEndTags (c :: text) = c :: rest :=
  List.head?_eq_some_iff.mp (head?_guardEndTags (c :: text))

theorem guardEndTags_eq_cons_iff {c : Char} (other : c ≠ '<') {text rest : List Char} :
    guardEndTags text = c :: rest ↔ ∃ later, text = c :: later ∧ rest = guardEndTags later := by
  constructor
  · intro guarded
    have first : text.head? = some c := by rw [← head?_guardEndTags, guarded, List.head?_cons]
    obtain ⟨later, rfl⟩ := List.head?_eq_some_iff.mp first
    rw [guardEndTags_cons other] at guarded
    exact ⟨later, rfl, (List.cons.inj guarded).2.symm⟩
  · rintro ⟨later, rfl, rfl⟩
    exact guardEndTags_cons other later

section

variable {wanted : Char → Bool} (other : wanted '<' = false)

include other

theorem span_guardEndTags (text : List Char) :
    (guardEndTags text).span wanted = Prod.map id guardEndTags (text.span wanted) := by
  have all : ∀ c ∈ text.takeWhile wanted, wanted c = true := List.all_eq_true.mp List.all_takeWhile
  have unmarked : '<' ∉ text.takeWhile wanted := by
    intro member
    rw [all '<' member] at other
    cases other
  have guarded := guardEndTags_append unmarked (text.dropWhile wanted)
  rw [List.takeWhile_append_dropWhile] at guarded
  rw [guarded, text.span_eq_takeWhile_dropWhile]
  apply span_append all
  intro c first
  have stops := List.head?_dropWhile_not wanted text
  rw [head?_guardEndTags, Option.mem_def] at first
  rw [first] at stops
  exact stops

theorem dropWhile_guardEndTags (text : List Char) :
    (guardEndTags text).dropWhile wanted = guardEndTags (text.dropWhile wanted) := by
  have both := span_guardEndTags other text
  rw [List.span_eq_takeWhile_dropWhile, List.span_eq_takeWhile_dropWhile] at both
  exact (Prod.mk.inj both).2

end

theorem skipBlanks_guardEndTags (text : List Char) :
    skipBlanks (guardEndTags text) = guardEndTags (skipBlanks text) :=
  dropWhile_guardEndTags (by decide) text

theorem readWhole_guardEndTags (text : List Char) :
    readWhole (guardEndTags text) = (readWhole text).map (Prod.map id guardEndTags) := by
  rw [readWhole, readWhole, span_guardEndTags (by decide)]
  rcases text.span Text.isDecimal with ⟨digits, rest⟩
  cases digits with
  | nil => rfl
  | cons c digits =>
      by_cases zero : c = '0'
      · subst zero
        cases digits <;> rfl
      · simp [zero]

theorem readFraction_guardEndTags (text : List Char) :
    readFraction (guardEndTags text) = (readFraction text).map (Prod.map id guardEndTags) := by
  cases text with
  | nil => rfl
  | cons c text =>
      by_cases point : c = '.'
      · subst point
        rw [guardEndTags_cons (by decide), readFraction, readFraction, span_guardEndTags (by decide)]
        rcases text.span Text.isDecimal with ⟨_ | ⟨d, digits⟩, rest⟩ <;> rfl
      · obtain ⟨rest, guarded⟩ := guardEndTags_starts c text
        simp [guarded, readFraction, point]

theorem readSize_guardEndTags (negative : Bool) (text : List Char) :
    readSize negative (guardEndTags text) =
      (readSize negative text).map (Prod.map id guardEndTags) := by
  rw [readSize, readSize, span_guardEndTags (by decide)]
  rcases text.span Text.isDecimal with ⟨digits, rest⟩
  cases digits with
  | nil => rfl
  | cons c digits =>
      simp only [Prod.map_apply, id_eq]
      cases Text.valueIn? 10 (c :: digits) <;> rfl

theorem readExponent_guardEndTags (text : List Char) :
    readExponent (guardEndTags text) = (readExponent text).map (Prod.map id guardEndTags) := by
  rcases text with _ | ⟨sign, text⟩
  · rfl
  · by_cases marked : (sign = 'e' || sign = 'E') = true
    · have apart : sign ≠ '<' := by
        rintro rfl
        cases marked
      rw [guardEndTags_cons apart, readExponent_cons marked, readExponent_cons marked]
      split
      · rename_i rest guarded
        obtain ⟨later, rfl, rfl⟩ := (guardEndTags_eq_cons_iff (by decide)).mp guarded
        exact readSize_guardEndTags true later
      · rename_i rest guarded
        obtain ⟨later, rfl, rfl⟩ := (guardEndTags_eq_cons_iff (by decide)).mp guarded
        exact readSize_guardEndTags false later
      · rename_i minus plus
        split
        · exact absurd (guardEndTags_cons (by decide) _) (minus _)
        · exact absurd (guardEndTags_cons (by decide) _) (plus _)
        · exact readSize_guardEndTags false text
    · obtain ⟨rest, guarded⟩ := guardEndTags_starts sign text
      unfold readExponent
      simp [guarded, marked]

theorem readSigned_guardEndTags (negative : Bool) (text : List Char) :
    readSigned negative (guardEndTags text) =
      (readSigned negative text).map (Prod.map id guardEndTags) := by
  simp only [readSigned, readWhole_guardEndTags, Option.bind_eq_bind]
  cases readWhole text with
  | none => rfl
  | some whole =>
      simp only [Option.map_some, Option.bind_some, Prod.map_fst, Prod.map_snd,
        readFraction_guardEndTags]
      cases readFraction whole.2 with
      | none => rfl
      | some fraction =>
          simp only [Option.map_some, Option.bind_some, Prod.map_fst, Prod.map_snd,
            readExponent_guardEndTags]
          cases readExponent fraction.2 with
          | none => rfl
          | some exponent =>
              simp only [Option.map_some, Option.bind_some, Prod.map_fst, Prod.map_snd, id_eq]
              cases numberOf? negative whole.1 fraction.1 exponent.1 <;> rfl

theorem readNumber_guardEndTags (text : List Char) :
    readNumber (guardEndTags text) = (readNumber text).map (Prod.map id guardEndTags) := by
  rw [readNumber_eq, readNumber_eq]
  split
  · rename_i rest guarded
    obtain ⟨later, rfl, rfl⟩ := (guardEndTags_eq_cons_iff (by decide)).mp guarded
    exact readSigned_guardEndTags true later
  · rename_i minus
    split
    · exact absurd (guardEndTags_cons (by decide) _) (minus _)
    · exact readSigned_guardEndTags false text

theorem codeUnit?_unmarked {a b c d : Char} {unit : Nat} (known : codeUnit? a b c d = some unit) :
    '<' ∉ ['\\', 'u', a, b, c, d] := by
  have digits := Text.digitValue?_isSome_of_valueIn? known
  intro marked
  rw [List.mem_cons, List.mem_cons] at marked
  rcases marked with escape | letter | digit
  · cases escape
  · cases letter
  · cases digits '<' digit

theorem readText_slash (text : List Char) :
    readText ('\\' :: '/' :: text) = readText ('/' :: text) := by
  rw [readText_escape text rfl, readText_plain text (by decide) (by decide) (by decide)]

theorem readText_guardEndTags_plain {c : Char} (unquoted : c ≠ '"') (unescaped : c ≠ '\\')
    (visible : ¬ c.toNat < 0x20) (text : List Char) :
    readText (guardEndTags (c :: text)) =
      (readText (guardEndTags text)).map (Prod.map (c :: ·) id) := by
  by_cases marked : c = '<' ∧ text.head? = some '/'
  · obtain ⟨rfl, first⟩ := marked
    obtain ⟨rest, rfl⟩ := List.head?_eq_some_iff.mp first
    rw [guardEndTags, readText_plain _ unquoted unescaped visible, readText_slash,
      guardEndTags_cons (by decide)]
  · rw [guardEndTags_cons_of_apart]
    · exact readText_plain _ unquoted unescaped visible
    · rintro rest rfl rfl
      exact marked ⟨rfl, rfl⟩

theorem readText_guardEndTags {text content after : List Char}
    (read : readText text = some (content, after)) :
    readText (guardEndTags text) = some (content, guardEndTags after) := by
  -- by the cases of the reader: only a character that stands for itself can have a slash behind it
  induction text using readText.induct generalizing content after with
  | case1 => cases read
  | case2 rest =>
      rw [readText] at read
      cases read
      rw [guardEndTags_cons (by decide), readText]
  | case3 a b c d rest paired induction =>
      rw [readText] at read
      obtain ⟨unit, known, read⟩ := Option.bind_eq_some_iff.mp read
      have guarded := guardEndTags_append (codeUnit?_unmarked known) rest
      simp only [List.cons_append, List.nil_append] at guarded
      split at read
      -- the half of a pair is read together with the other half
      · rename_i half
        split at read
        · obtain ⟨low, also, read⟩ := Option.bind_eq_some_iff.mp read
          obtain ⟨char, both, read⟩ := Option.bind_eq_some_iff.mp read
          obtain ⟨⟨text, after⟩, inner, same⟩ := Option.bind_eq_some_iff.mp read
          cases same
          have guardedLow := guardEndTags_append (codeUnit?_unmarked also)
          simp only [List.cons_append, List.nil_append] at guardedLow
          rw [guarded, guardedLow, readText_pair _ known half also both, paired inner]
          rfl
        · cases read
      · rename_i whole
        obtain ⟨⟨text, after⟩, inner, same⟩ := Option.bind_eq_some_iff.mp read
        cases same
        rw [guarded, readText_unit _ known whole, induction inner]
        rfl
  | case4 sign rest other induction =>
      rw [readText.eq_4 sign rest other] at read
      obtain ⟨char, escape, read⟩ := Option.bind_eq_some_iff.mp read
      obtain ⟨⟨text, after⟩, inner, same⟩ := Option.bind_eq_some_iff.mp read
      cases same
      have unmarked : sign ≠ '<' := by
        rintro rfl
        cases escape
      rw [guardEndTags_cons (by decide), guardEndTags_cons unmarked, readText_escape _ escape,
        induction inner]
      rfl
  | case5 c rest unquoted long short hidden =>
      rw [readText.eq_5 c rest unquoted long short, if_pos hidden] at read
      cases read
  | case6 c rest unquoted long short visible induction =>
      rw [readText.eq_5 c rest unquoted long short, if_neg visible] at read
      obtain ⟨⟨text, after⟩, inner, same⟩ := Option.bind_eq_some_iff.mp read
      cases same
      have unescaped : c ≠ '\\' := by
        rintro rfl
        cases rest with
        | nil => cases inner
        | cons sign rest => exact short sign rest rfl rfl
      rw [readText_guardEndTags_plain unquoted unescaped visible, induction inner]
      rfl

theorem skipBlanks_guardEndTags_cons {c : Char} (other : c ≠ '<') {text after : List Char}
    (begins : skipBlanks text = c :: after) :
    skipBlanks (guardEndTags text) = c :: guardEndTags after := by
  rw [skipBlanks_guardEndTags, begins, guardEndTags_cons other]

theorem skipBlanks_guardEndTags_ne {c : Char} (other : c ≠ '<') {text : List Char}
    (apart : ∀ after, skipBlanks text ≠ c :: after) (after : List Char) :
    skipBlanks (guardEndTags text) ≠ c :: after := by
  rw [skipBlanks_guardEndTags]
  intro begins
  obtain ⟨later, same, _⟩ := (guardEndTags_eq_cons_iff other).mp begins
  exact apart later same

/-- What is read of a text in so many steps is read of the guarded text in so many others. -/
structure Transparent (steps more : Nat) : Prop where
  value : ∀ {text after : List Char} {value : Json}, readValue steps text = some (value, after) →
    readValue more (guardEndTags text) = some (value, guardEndTags after)
  items : ∀ {text after : List Char} {items : List Json},
    readItems steps text = some (items, after) →
      readItems more (guardEndTags text) = some (items, guardEndTags after)
  fields : ∀ {text after : List Char} {fields : List (String × Json)},
    readFields steps text = some (fields, after) →
      readFields more (guardEndTags text) = some (fields, guardEndTags after)

namespace Transparent

variable {steps more : Nat} (transparent : Transparent steps more) {text after : List Char}

include transparent

theorem valueStep {value : Json} (step : ValueStep steps text value after) :
    ValueStep more (guardEndTags text) value (guardEndTags after) := by
  cases step with
  | text read =>
      rw [guardEndTags_cons (by decide)]
      exact .text (readText_guardEndTags read)
  | noItems closed =>
      rw [guardEndTags_cons (by decide)]
      exact .noItems (skipBlanks_guardEndTags_cons (by decide) closed)
  | items further read =>
      rw [guardEndTags_cons (by decide)]
      refine .items (skipBlanks_guardEndTags_ne (by decide) further) ?_
      rw [skipBlanks_guardEndTags]
      exact transparent.items read
  | noFields closed =>
      rw [guardEndTags_cons (by decide)]
      exact .noFields (skipBlanks_guardEndTags_cons (by decide) closed)
  | fields further read =>
      rw [guardEndTags_cons (by decide)]
      refine .fields (skipBlanks_guardEndTags_ne (by decide) further) ?_
      rw [skipBlanks_guardEndTags]
      exact transparent.fields read
  | null => exact .null
  | true => exact .true
  | false => exact .false
  | number read =>
      refine .number ?_
      rw [readNumber_guardEndTags, read]
      rfl

theorem itemsStep {items : List Json} (step : ItemsStep steps text items after) :
    ItemsStep more (guardEndTags text) items (guardEndTags after) := by
  cases step with
  | last read closed =>
      exact .last (transparent.value read) (skipBlanks_guardEndTags_cons (by decide) closed)
  | more read further others =>
      exact .more (transparent.value read) (skipBlanks_guardEndTags_cons (by decide) further)
        (transparent.items others)

theorem fieldStep {field : String × Json} (step : FieldStep steps text field after) :
    FieldStep more (guardEndTags text) field (guardEndTags after) := by
  obtain ⟨quoted, spelled, assigned, read⟩ := step
  exact .field (skipBlanks_guardEndTags_cons (by decide) quoted) (readText_guardEndTags spelled)
    (skipBlanks_guardEndTags_cons (by decide) assigned) (transparent.value read)

theorem fieldsStep {fields : List (String × Json)} (step : FieldsStep steps text fields after) :
    FieldsStep more (guardEndTags text) fields (guardEndTags after) := by
  cases step with
  | last read closed =>
      exact .last (transparent.fieldStep read) (skipBlanks_guardEndTags_cons (by decide) closed)
  | more read further others =>
      exact .more (transparent.fieldStep read) (skipBlanks_guardEndTags_cons (by decide) further)
        (transparent.fields others)

theorem succ : Transparent (steps + 1) (more + 1) := by
  constructor
  · intro text after value read
    rw [readValue_eq_some_iff] at read ⊢
    rw [skipBlanks_guardEndTags]
    exact transparent.valueStep read
  · intro text after items read
    rw [readItems_eq_some_iff] at read ⊢
    exact transparent.itemsStep read
  · intro text after fields read
    rw [readFields_eq_some_iff] at read ⊢
    exact transparent.fieldsStep read

end Transparent

theorem transparent_of_le {steps more : Nat} (enough : steps ≤ more) : Transparent steps more := by
  induction steps generalizing more with
  | zero => constructor <;> intro _ _ _ read <;> cases read
  | succ steps induction =>
      obtain ⟨more, rfl⟩ := Nat.exists_eq_add_of_le' enough
      exact (induction (by omega : steps ≤ more + steps)).succ

theorem length_guardEndTags (text : List Char) : text.length ≤ (guardEndTags text).length := by
  fun_induction guardEndTags text with
  | case1 => exact Nat.le_refl 0
  | case2 rest induction => simpa using by omega
  | case3 c rest _ induction => simpa using induction

/-- Guarding a text does not change the value that it spells. -/
theorem read?_guardEndTags {text : List Char} {value : Json}
    (spelled : Json.read? text = some value) : Json.read? (guardEndTags text) = some value := by
  obtain ⟨⟨found, rest⟩, read, ends⟩ := Option.bind_eq_some_iff.mp spelled
  obtain ⟨blank, same⟩ := Option.ite_none_right_eq_some.mp ends
  have longer := length_guardEndTags text
  have guarded := (transparent_of_le
    (by omega : 2 * text.length + 2 ≤ 2 * (guardEndTags text).length + 2)).value read
  have nothing : skipBlanks (guardEndTags rest) = [] := by
    rw [skipBlanks_guardEndTags, List.isEmpty_iff.mp blank]
    rfl
  rw [Json.read?, guarded]
  simpa [nothing] using same

example : guardEndTags (Json.string "<</b>\\").print = "\"<<\\/b>\\\\\"".toList := by decide

/-- The script carries its values safely: the text between its fixed parts has no mark that could
end an element, and what it spells is the map of the values, whatever the keys, the texts and the
nesting. -/
theorem environment_read_back {environment : List (String × Json)}
    (whole : (Json.object environment).Whole) :
    ∃ text, environmentScript environment =
        Text.encodeString "window.Env = (function () \x7b const env = " ++ Text.encode text ++
          Text.encodeString "; return function (key) \x7b return env[key]; \x7d; \x7d)();" ∧
      ¬ ['<', '/'] <:+: text ∧ Json.read? text = some (.object environment) := by
  refine ⟨environmentText environment, rfl, ?_, read?_guardEndTags whole.read?_print⟩
  intro found
  have mark : Apart '<' '/' ['<', '/'] := List.IsChain.infix (guardEndTags_apart _) found
  exact (List.isChain_cons_cons.mp mark).1 ⟨rfl, rfl⟩

def tagged : List (String × Json) :=
  [("</script>", .array [.string "\\</", .number (.whole (-3)), .bool true]),
    ("tag", .object [("", .string "<</script>\n"), ("/", .null)])]

theorem tagged_whole : (Json.object tagged).Whole := by
  have list : (Json.array [.string "\\</", .number (.whole (-3)), .bool true]).Whole := by
    apply Json.Whole.array
    simp only [List.forall_mem_cons, List.not_mem_nil, false_implies, implies_true, and_true]
    exact ⟨.string, .number (by decide) (by decide), .bool⟩
  have inner : (Json.object [("", .string "<</script>\n"), ("/", .null)]).Whole := by
    apply Json.Whole.object (by decide)
    simp only [List.forall_mem_cons, List.not_mem_nil, false_implies, implies_true, and_true]
    exact ⟨.string, .null⟩
  apply Json.Whole.object (by decide)
  simp only [tagged, List.forall_mem_cons, List.not_mem_nil, false_implies, implies_true, and_true]
  exact ⟨list, inner⟩

theorem tagged_read_back :
    ∃ text, environmentScript tagged =
        Text.encodeString "window.Env = (function () \x7b const env = " ++ Text.encode text ++
          Text.encodeString "; return function (key) \x7b return env[key]; \x7d; \x7d)();" ∧
      ¬ ['<', '/'] <:+: text ∧ Json.read? text = some (.object tagged) :=
  environment_read_back tagged_whole

end PageAssembly.Block
