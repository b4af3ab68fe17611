import Mathlib.Data.List.Forall2
import PageAssembly.Proofs.Language.Printing

/-!
What the scanner makes of a printed source: each part of an action is one token before the blank
that follows it, the braces in strings end no action, and a text reaches to the next opening braces.
-/

namespace PageAssembly

theorem Text.byteSize_append (earlier later : List Char) :
    byteSize (earlier ++ later) = byteSize earlier + byteSize later := by
  induction earlier with
  | nil => simp [byteSize]
  | cons c earlier induction => simp only [List.cons_append, byteSize, induction, Nat.add_assoc]

namespace Language

open Text (byteSize byteSize_append)

theorem startsName_iff {c : Char} : startsName c ↔ c.isAlpha ∨ c = '_' := by
  have lower : ('a' ≤ c && c ≤ 'z') = c.isLower := rfl
  have upper : ('A' ≤ c && c ≤ 'Z') = c.isUpper := (Bool.decide_and _ _).symm
  have alpha : c.isAlpha = (c.isUpper || c.isLower) := rfl
  rw [startsName, lower, upper, alpha, Bool.or_comm c.isUpper, Bool.or_eq_true, decide_eq_true_eq]

theorem continuesName_iff {c : Char} : continuesName c ↔ c.isAlphanum ∨ c = '_' := by
  have digit : ('0' ≤ c && c ≤ '9') = c.isDigit := rfl
  rw [continuesName, Bool.or_eq_true, startsName_iff, digit, Char.isAlphanum, Bool.or_eq_true]
  exact or_right_comm

theorem isName_iff {name : String} : IsName name ↔
    ∃ first rest, name.toList = first :: rest ∧ startsName first ∧ ∀ c ∈ rest, continuesName c := by
  simp only [IsName, startsName_iff, continuesName_iff]

theorem isName_of_check {name : String} {first : Char} {rest : List Char}
    (spelled : name.toList = first :: rest)
    (valid : (startsName first && rest.all continuesName) = true) : IsName name := by
  rw [Bool.and_eq_true, List.all_eq_true] at valid
  exact isName_iff.mpr ⟨first, rest, spelled, valid⟩

/-- The characters of a name do not matter to the search for the end of an action. -/
theorem continuesName_plain {c : Char} (continues : continuesName c) : c ≠ '"' ∧ c ≠ '\x7d' := by
  constructor <;> rintro rfl <;> exact absurd continues (by decide)

theorem continuesName_of_startsName {c : Char} (starts : startsName c) : continuesName c := by
  rw [continuesName, starts, Bool.true_or]

theorem nameLength_append {rest later : List Char} (continues : ∀ c ∈ rest, continuesName c)
    (ends : ∀ c ∈ later.head?, continuesName c = false) :
    nameLength (rest ++ later) = rest.length := by
  rw [nameLength, List.takeWhile_append_of_pos continues]
  cases later with
  | nil => simp
  | cons c later =>
      have stops : continuesName c = false := ends c rfl
      simp [stops]

theorem isName_taken {first : Char} (rest : List Char) (starts : startsName first) :
    IsName (String.ofList (first :: rest.take (nameLength rest))) := by
  refine isName_iff.mpr ⟨first, _, String.toList_ofList, starts, ?_⟩
  have taken : rest.takeWhile continuesName = rest.take (nameLength rest) :=
    List.prefix_iff_eq_take.mp (List.takeWhile_prefix continuesName)
  rw [← taken]
  exact List.all_eq_true.mp List.all_takeWhile

def fieldsPart (names : List String) : List Char :=
  names.flatMap fun name => '.' :: name.toList

theorem pathNames_fieldsPart {names : List String} (valid : ∀ name ∈ names, IsName name)
    (later : List Char) :
    pathNames (fieldsPart names ++ ' ' :: later) = (names, (fieldsPart names).length) := by
  induction names with
  | nil =>
      rw [fieldsPart, List.flatMap_nil, List.nil_append, pathNames]
      · rfl
      · simp
  | cons name names induction =>
      obtain ⟨first, rest, spelled, starts, continues⟩ :=
        isName_iff.mp (valid name List.mem_cons_self)
      have shape : fieldsPart (name :: names) = '.' :: first :: (rest ++ fieldsPart names) := by
        simp [fieldsPart, spelled]
      have ends : ∀ c ∈ (fieldsPart names ++ ' ' :: later).head?, continuesName c = false := by
        cases names <;> simp [fieldsPart] <;> decide
      have others := induction fun name member => valid name (List.mem_cons_of_mem _ member)
      have same : String.ofList (first :: rest) = name := by rw [← spelled, String.ofList_toList]
      rw [shape, List.cons_append, List.cons_append, List.append_assoc, pathNames, if_pos starts,
        nameLength_append continues ends]
      simp [others, same]
      omega

theorem pathNames_valid (text : List Char) : ∀ name ∈ (pathNames text).1, IsName name := by
  fun_induction pathNames text with
  | case1 first rest starts count names length read induction =>
      rw [read] at induction
      exact List.forall_mem_cons.mpr ⟨isName_taken rest starts, induction⟩
  | case2 first rest starts => simp
  | case3 text other => simp

theorem stringContent_escaped (content later : List Char) :
    stringContent (content.flatMap escapedChar ++ '"' :: later) =
      .ok (content, (content.flatMap escapedChar).length + 1) := by
  induction content with
  | nil => rfl
  | cons c content induction =>
      rw [List.flatMap_cons, List.append_assoc]
      by_cases special : c = '"' ∨ c = '\\'
      · rcases special with rfl | rfl <;>
          simp [escapedChar, stringContent, induction, unescaped]
      · rw [escapedChar, if_neg special]
        rw [not_or] at special
        rw [List.singleton_append, stringContent]
        · simp [induction]
        · exact special.1
        · exact fun rest same => absurd same special.2
        · exact fun _ rest same => absurd same special.2
        · exact fun same => absurd same special.2

theorem actionLength?_escaped (content later : List Char) :
    actionLength? true (content.flatMap escapedChar ++ later) =
      (actionLength? true later).map (· + (content.flatMap escapedChar).length) := by
  induction content with
  | nil => simp
  | cons c content induction =>
      rw [List.flatMap_cons, List.append_assoc]
      by_cases special : c = '"' ∨ c = '\\'
      · rcases special with rfl | rfl <;>
          simp [escapedChar, actionLength?, induction, Function.comp_def, Nat.add_assoc]
      · rw [escapedChar, if_neg special]
        rw [not_or] at special
        rw [List.singleton_append, actionLength?]
        · simp [special.1, induction, Function.comp_def, Nat.add_assoc]
        · simp [special.2]
        · simp

theorem actionLength?_plain {part : List Char} (plain : ∀ c ∈ part, c ≠ '"' ∧ c ≠ '\x7d')
    (later : List Char) :
    actionLength? false (part ++ later) = (actionLength? false later).map (· + part.length) := by
  induction part with
  | nil => simp
  | cons c part induction =>
      obtain ⟨noQuote, noBrace⟩ := plain c List.mem_cons_self
      have others := induction fun c member => plain c (List.mem_cons_of_mem _ member)
      rw [List.cons_append, actionLength?]
      · simp [noQuote, others, Function.comp_def, Nat.add_assoc]
      · simp
      · simp [noBrace]

/-- Before a blank the part is one token, and no braces in it end an action. -/
structure ReadAs (part : List Char) (token : Token) : Prop where
  token : ∃ first rest, part = first :: rest ∧ isGap first = false ∧
    ∀ later, tokenAt first (rest ++ ' ' :: later) = .ok (token, rest.length)
  passed : ∀ later, actionLength? false (part ++ later) =
    (actionLength? false later).map (· + part.length)

theorem readAs_quoted (name : String) : ReadAs (quotedPart name) (.quoted name) where
  token := by
    refine ⟨'"', name.toList.flatMap escapedChar ++ ['"'], rfl, rfl, fun later => ?_⟩
    have content := stringContent_escaped name.toList (' ' :: later)
    rw [List.append_assoc, List.singleton_append]
    simp [tokenAt, content, show startsName '"' = false by decide]
  passed later := by
    have content := actionLength?_escaped name.toList ('"' :: later)
    rw [quotedPart, List.cons_append, List.cons_append, List.append_assoc, List.singleton_append,
      actionLength?]
    · cases ends : actionLength? false later with
      | none => simp [content, actionLength?, ends]
      | some count =>
          simp [content, actionLength?, ends]
          omega
    · simp
    · simp

theorem startsName_not_gap {c : Char} (starts : startsName c) : isGap c = false := by
  rw [isGap, Bool.eq_false_iff]
  simp only [ne_eq, Bool.or_eq_true, decide_eq_true_eq]
  rintro (((rfl | rfl) | rfl) | rfl) <;> exact absurd starts (by decide)

theorem isName_plain {name : String} (valid : IsName name) :
    ∀ c ∈ name.toList, c ≠ '"' ∧ c ≠ '\x7d' := by
  obtain ⟨first, rest, spelled, starts, continues⟩ := isName_iff.mp valid
  rw [spelled]
  exact List.forall_mem_cons.mpr ⟨continuesName_plain (continuesName_of_startsName starts),
    fun c member => continuesName_plain (continues c member)⟩

def nameToken (name : String) : Token :=
  match Keyword.ofSpelling? name with
  | some word => .keyword word
  | none => .identifier name

theorem tokenAt_name {first : Char} (starts : startsName first) (rest : List Char) :
    tokenAt first rest =
      .ok (nameToken (String.ofList (first :: rest.take (nameLength rest))), nameLength rest) := by
  simp only [tokenAt, if_pos starts, nameToken]
  cases Keyword.ofSpelling? (String.ofList (first :: rest.take (nameLength rest))) <;> rfl

theorem readAs_name {name : String} (valid : IsName name) :
    ReadAs name.toList (nameToken name) where
  token := by
    obtain ⟨first, rest, spelled, starts, continues⟩ := isName_iff.mp valid
    refine ⟨first, rest, spelled, startsName_not_gap starts, fun later => ?_⟩
    have blank : ∀ c ∈ (' ' :: later).head?, continuesName c = false := by
      simp
      decide
    rw [tokenAt_name starts, nameLength_append continues blank, List.take_left, ← spelled,
      String.ofList_toList]
  passed := actionLength?_plain (isName_plain valid)

theorem nameToken_spelling (word : Keyword) : nameToken word.spelling = .keyword word := by
  cases word <;> decide

theorem ofSpelling?_eq_none {name : String} :
    Keyword.ofSpelling? name = none ↔ ∀ word : Keyword, word.spelling ≠ name := by
  rw [Keyword.ofSpelling?, List.find?_eq_none]
  simp only [beq_iff_eq]
  constructor
  · intro differs word
    exact differs word (by cases word <;> simp [Keyword.all])
  · exact fun differs word _ => differs word

theorem readAs_keyword (word : Keyword) : ReadAs word.part (.keyword word) := by
  have valid : IsName word.spelling := by
    cases word <;> exact isName_of_check rfl rfl
  rw [← nameToken_spelling]
  exact readAs_name valid

theorem readAs_slot {name : String} (valid : IsSlotName name) :
    ReadAs name.toList (.identifier name) := by
  have same : nameToken name = .identifier name := by
    rw [nameToken, ofSpelling?_eq_none.mpr valid.2]
  rw [← same]
  exact readAs_name valid.1

theorem fieldsPart_plain {names : List String} (valid : ∀ name ∈ names, IsName name) :
    ∀ c ∈ fieldsPart names, c ≠ '"' ∧ c ≠ '\x7d' := by
  intro c member
  obtain ⟨name, among, inName⟩ := List.mem_flatMap.mp member
  rcases List.mem_cons.mp inName with rfl | inName
  · decide
  · exact isName_plain (valid name among) c inName

theorem Path.part_eq (path : Path) : path.part =
    if path.fromRoot then '$' :: fieldsPart path.names
    else if path.names = [] then ['.'] else fieldsPart path.names := by
  obtain ⟨fromRoot, names⟩ := path
  have fields : (String.join (names.map fun name => "." ++ name)).toList = fieldsPart names := by
    rw [String.toList_join, List.flatMap_map, fieldsPart]
    simp
  cases fromRoot with
  | true => simp [Path.part, Path.print, fields]
  | false =>
      rw [Path.part, Path.print]
      cases names with
      | nil => rfl
      | cons name names =>
          rw [if_neg (by simp)]
          simp only [Bool.false_eq_true, ↓reduceIte, String.toList_append, fields]
          rfl

theorem readAs_path {path : Path} (valid : path.Printable) : ReadAs path.part path.token := by
  obtain ⟨fromRoot, names⟩ := path
  have taken := pathNames_fieldsPart valid
  have plain := fieldsPart_plain valid
  simp only at taken plain
  rw [Path.part_eq]
  cases fromRoot with
  | true =>
      refine ⟨⟨'$', fieldsPart names, rfl, rfl, fun later => ?_⟩, actionLength?_plain ?_⟩
      · simp [tokenAt, taken, Path.token, show startsName '$' = false by decide]
      · exact List.forall_mem_cons.mpr ⟨by decide, plain⟩
  | false =>
      cases names with
      | nil =>
          refine ⟨⟨'.', [], rfl, rfl, fun later => ?_⟩,
            actionLength?_plain (List.forall_mem_singleton.mpr (by decide))⟩
          simp [tokenAt, pathNames, Path.token, show startsName '.' = false by decide,
            show startsName ' ' = false by decide]
      | cons name names =>
          have shape : fieldsPart (name :: names) = '.' :: (name.toList ++ fieldsPart names) := rfl
          refine ⟨⟨'.', name.toList ++ fieldsPart names, shape, rfl, fun later => ?_⟩,
            actionLength?_plain plain⟩
          have whole := taken later
          rw [shape, List.cons_append, List.append_assoc] at whole
          simp [tokenAt, whole, Path.token, show startsName '.' = false by decide]

theorem spaced_blank (parts : List (List Char)) : ∃ later, spaced parts = ' ' :: later := by
  cases parts with
  | nil => exact ⟨_, rfl⟩
  | cons part parts => exact ⟨_, rfl⟩

section

variable {parts : List (List Char)} {tokens : List Token} (read : List.Forall₂ ReadAs parts tokens)
include read

theorem actionLength?_spaced (later : List Char) :
    actionLength? false (spaced parts ++ later) =
      (actionLength? false later).map (· + (spaced parts).length) := by
  have blank : ∀ c ∈ [' '], c ≠ '"' ∧ c ≠ '\x7d' := List.forall_mem_singleton.mpr (by decide)
  induction read with
  | nil => exact actionLength?_plain blank later
  | @cons part _ parts _ reads _ induction =>
      have shape : spaced (part :: parts) ++ later = [' '] ++ (part ++ (spaced parts ++ later)) := by
        simp [spaced]
      rw [shape, actionLength?_plain blank, reads.passed, induction]
      cases actionLength? false later with
      | none => rfl
      | some count =>
          simp [spaced]
          omega

theorem actionLexemes_spaced (position : Nat) :
    ∃ lexemes, actionLexemes position (spaced parts) = .ok lexemes ∧
      lexemes.map Lexeme.token = tokens := by
  have atBlank : isGap ' ' = true := rfl
  induction read generalizing position with
  | nil => exact ⟨[], by rw [spaced, actionLexemes, if_pos atBlank, actionLexemes], rfl⟩
  | @cons part token parts tokens reads _ induction =>
      obtain ⟨first, rest, rfl, noGap, taken⟩ := reads.token
      obtain ⟨later, blank⟩ := spaced_blank parts
      obtain ⟨lexemes, others, same⟩ :=
        induction (position + byteSize [' '] + byteSize (first :: rest))
      rw [blank] at others
      refine ⟨⟨token, ⟨position + byteSize [' '],
        position + byteSize [' '] + byteSize (first :: rest)⟩⟩ :: lexemes, ?_,
        by rw [List.map_cons, same]⟩
      rw [spaced, blank, List.cons_append, actionLexemes, if_pos atBlank, actionLexemes, noGap]
      simp only [Bool.false_eq_true, ↓reduceIte, taken, List.take_left, List.drop_left, others]
      rfl

end

/-- Before `rest`, what stands at byte `position` is scanned to these lexemes. -/
def Scanned (position : Nat) (source rest : List Char) (lexemes : List Lexeme) : Prop :=
  ∀ later, lexemesFrom (position + byteSize source) rest = .ok later →
    lexemesFrom position (source ++ rest) = .ok (lexemes ++ later)

theorem scanned_nil (position : Nat) (rest : List Char) : Scanned position [] rest [] :=
  fun _ scanned => scanned

theorem Scanned.append {position : Nat} {source next rest : List Char} {lexemes more : List Lexeme}
    (first : Scanned position source (next ++ rest) lexemes)
    (second : Scanned (position + byteSize source) next rest more) :
    Scanned position (source ++ next) rest (lexemes ++ more) := by
  intro later scanned
  rw [byteSize_append, ← Nat.add_assoc] at scanned
  rw [List.append_assoc, List.append_assoc]
  exact first _ (second _ scanned)

theorem scanned_action {parts : List (List Char)} {tokens : List Token}
    (read : List.Forall₂ ReadAs parts tokens) (position : Nat) (rest : List Char) :
    ∃ braces lexemes, lexemes.map Lexeme.token = tokens ∧
      Scanned position (action parts) rest (Braces.around braces lexemes) := by
  obtain ⟨lexemes, inside, same⟩ := actionLexemes_spaced read (position + 2)
  have shape : action parts ++ rest =
      '\x7b' :: '\x7b' :: (spaced parts ++ '\x7d' :: '\x7d' :: rest) := by
    simp [action, actionOpening, actionClosing]
  have noComment : ∀ later, spaced parts ++ '\x7d' :: '\x7d' :: rest ≠ '/' :: '*' :: later := by
    obtain ⟨more, blank⟩ := spaced_blank parts
    simp [blank]
  have reaches : actionLength? false (spaced parts ++ '\x7d' :: '\x7d' :: rest) =
      some (spaced parts).length := by
    rw [actionLength?_spaced read, actionLength?, Option.map_some, Nat.zero_add]
  have beyond : (spaced parts ++ '\x7d' :: '\x7d' :: rest).drop ((spaced parts).length + 2) =
      rest := by
    rw [List.drop_append]
    simp
  have size : position + byteSize (action parts) = position + 2 + byteSize (spaced parts) + 2 := by
    have braces : byteSize actionOpening = 2 ∧ byteSize actionClosing = 2 := by decide
    rw [action, byteSize_append, byteSize_append, braces.1, braces.2]
    omega
  refine ⟨⟨⟨position, position + 2⟩, ⟨position + 2 + byteSize (spaced parts),
    position + 2 + byteSize (spaced parts) + 2⟩⟩, lexemes, same, fun later scanned => ?_⟩
  rw [size] at scanned
  rw [shape, lexemesFrom]
  · simp only [reaches, List.take_left, inside, beyond, scanned]
    simp [Braces.around, bind, Except.bind]
  · exact fun later same => noComment later same

structure TextEnds (content later : List Char) : Prop where
  follows : later = [] ∨ actionOpening <+: later
  plain : ¬ actionOpening <:+: content ++ later.take 1

theorem TextEnds.tail {first : Char} {content later : List Char}
    (ends : TextEnds (first :: content) later) : TextEnds content later :=
  ⟨ends.follows, fun found => ends.plain (List.infix_cons found)⟩

theorem TextEnds.not_opening {first : Char} {content later : List Char}
    (ends : TextEnds (first :: content) later) :
    ¬ actionOpening <+: first :: (content ++ later) := by
  rintro ⟨more, same⟩
  simp only [actionOpening, List.cons_append, List.nil_append, List.cons.injEq] at same
  obtain ⟨rfl, same⟩ := same
  refine ends.plain (List.IsPrefix.isInfix ?_)
  cases content with
  | nil =>
      rw [List.nil_append] at same
      rw [← same]
      exact ⟨[], rfl⟩
  | cons second content =>
      obtain ⟨rfl, -⟩ := List.cons.inj same
      exact ⟨content ++ later.take 1, rfl⟩

theorem textLength_cons {first : Char} {rest : List Char}
    (closed : ¬ actionOpening <+: first :: rest) :
    textLength (first :: rest) = textLength rest + 1 := by
  rw [textLength]
  rintro more rfl rfl
  exact closed ⟨more, rfl⟩

theorem textLength_append {content later : List Char} (ends : TextEnds content later) :
    textLength (content ++ later) = content.length := by
  induction content with
  | nil =>
      rcases ends.follows with rfl | ⟨more, rfl⟩
      · rfl
      · rw [List.nil_append, actionOpening, List.cons_append, List.cons_append, textLength,
          List.length_nil]
  | cons first content induction =>
      rw [List.cons_append, textLength_cons ends.not_opening, induction ends.tail, List.length_cons]

theorem lexemesFrom_text {position : Nat} {first : Char} {rest : List Char}
    (closed : ¬ actionOpening <+: first :: rest) :
    lexemesFrom position (first :: rest) = (do
      let content := first :: rest.take (textLength rest)
      let later ← lexemesFrom (position + byteSize content) (rest.drop (textLength rest))
      .ok (⟨.text (String.ofList content), ⟨position, position + byteSize content⟩⟩ :: later)) := by
  rw [lexemesFrom]
  · rintro more rfl rfl
    exact closed ⟨_, rfl⟩
  · rintro more rfl rfl
    exact closed ⟨_, rfl⟩

theorem scanned_content {content : String} (nonempty : content ≠ "") {rest : List Char}
    (ends : TextEnds content.toList rest) (position : Nat) :
    Scanned position content.toList rest
      [⟨.text content, ⟨position, position + byteSize content.toList⟩⟩] := by
  obtain ⟨first, others, spelled⟩ : ∃ first others, content.toList = first :: others := by
    cases spelled : content.toList with
    | nil => exact absurd (String.toList_eq_nil_iff.mp spelled) nonempty
    | cons first others => exact ⟨first, others, rfl⟩
  intro later scanned
  have same : String.ofList (first :: others) = content := by rw [← spelled, String.ofList_toList]
  rw [spelled] at ends scanned ⊢
  rw [List.cons_append, lexemesFrom_text ends.not_opening, textLength_append ends.tail]
  simp only [List.take_left, List.drop_left, scanned, same]
  rfl

theorem scanned_text {content : String} (nonempty : content ≠ "") {rest : List Char}
    (ends : TextEnds content.toList rest) (position : Nat) :
    ∃ span, Scanned position content.toList rest [⟨.text content, span⟩] :=
  ⟨_, scanned_content nonempty ends position⟩

end Language

end PageAssembly
