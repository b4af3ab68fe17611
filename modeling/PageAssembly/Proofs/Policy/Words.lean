import PageAssembly.Proofs.Policy.Grants
import PageAssembly.Proofs.Text.Splitting

/-!
Policies as texts. A policy of words comes back when its text is parsed, and what is parsed from a
text is of words; they are plain if the text is readable.
-/

namespace PageAssembly

namespace Text

theorem toList_join_cons (separator text : String) (texts : List String) (more : texts ≠ []) :
    (join separator (text :: texts)).toList =
      text.toList ++ separator.toList ++ (join separator texts).toList := by
  cases texts with
  | nil => exact absurd rfl more
  | cons next texts => simp [join]

theorem mem_join {separator : String} {texts : List String} {c : Char}
    (inside : c ∈ (join separator texts).toList) :
    c ∈ separator.toList ∨ ∃ text ∈ texts, c ∈ text.toList := by
  induction texts with
  | nil => simp [join] at inside
  | cons text texts induction =>
      cases texts with
      | nil => exact Or.inr ⟨text, List.mem_cons_self, inside⟩
      | cons next texts =>
          rw [toList_join_cons _ _ _ (List.cons_ne_nil _ _), List.mem_append,
            List.mem_append] at inside
          rcases inside with (here | between) | later
          · exact Or.inr ⟨text, List.mem_cons_self, here⟩
          · exact Or.inl between
          · rcases induction later with between | ⟨other, member, there⟩
            · exact Or.inl between
            · exact Or.inr ⟨other, List.mem_cons_of_mem _ member, there⟩

theorem mem_join_of_mem {separator : String} {texts : List String} {text : String}
    (member : text ∈ texts) {c : Char} (inside : c ∈ text.toList) :
    c ∈ (join separator texts).toList := by
  induction texts with
  | nil => cases member
  | cons first texts induction =>
      cases texts with
      | nil => rwa [← List.mem_singleton.mp member, join]
      | cons next texts =>
          rw [toList_join_cons _ _ _ (List.cons_ne_nil _ _), List.mem_append]
          rcases List.mem_cons.mp member with rfl | later
          · exact Or.inl (List.mem_append_left _ inside)
          · exact Or.inr (induction later)

theorem isBlank_of_visible {c : Char} (low : 0x20 < c.toNat) (high : c.toNat < 0x7f) :
    isBlank c = false := by
  -- no boundary lies between two visible characters
  have below : blankBounds.countP (fun bound => bound ≤ c.toNat) =
      blankBounds.countP (fun bound => bound ≤ 0x21) := by
    apply List.countP_congr
    intro bound member
    simp only [blankBounds, List.mem_cons, List.not_mem_nil, or_false] at member
    simp only [decide_eq_true_eq]
    omega
  rw [isBlank, insideBounds, below]
  rfl

end Text

/-- What can stand as a word in the text of a policy. -/
def IsWord (text : String) : Prop :=
  text ≠ "" ∧ ∀ c ∈ text.toList, Text.isBlank c = false ∧ c ≠ ';'

instance (text : String) : Decidable (IsWord text) :=
  decidable_of_iff (text ≠ "" ∧ text.toList.all fun c => !Text.isBlank c && c != ';')
    (by simp [IsWord])

/-- Words of a policy: they are visible and have no semicolon. -/
def IsPlain (text : String) : Prop :=
  text ≠ "" ∧ ∀ c ∈ text.toList, 0x20 < c.toNat ∧ c.toNat < 0x7f ∧ c ≠ ';'

instance (text : String) : Decidable (IsPlain text) :=
  decidable_of_iff
    (text ≠ "" ∧ text.toList.all fun c => 0x20 < c.toNat && c.toNat < 0x7f && c != ';')
    (by simp [IsPlain, and_assoc])

theorem IsPlain.isWord {text : String} (plain : IsPlain text) : IsWord text := by
  refine ⟨plain.1, ?_⟩
  intro c inside
  obtain ⟨low, high, other⟩ := plain.2 c inside
  exact ⟨Text.isBlank_of_visible low high, other⟩

theorem words_join {texts : List String} (areWords : ∀ text ∈ texts, IsWord text) :
    Text.words (Text.join " " texts).toList = texts.map String.toList := by
  induction texts with
  | nil => rfl
  | cons text texts induction =>
      have first := areWords text List.mem_cons_self
      have single : Text.words text.toList = [text.toList] :=
        Text.words_of_none (by simpa using first.1) fun c inside => (first.2 c inside).1
      cases texts with
      | nil => exact single
      | cons next texts =>
          have rest := induction fun other member => areWords other (List.mem_cons_of_mem _ member)
          have blank : Text.isBlank ' ' = true := by decide
          have apart : (Text.join " " (text :: next :: texts)).toList =
              text.toList ++ ' ' :: (Text.join " " (next :: texts)).toList := by
            simp [Text.toList_join_cons]
          rw [apart, Text.words_append blank, rest, single]
          rfl

namespace Directive

def OfWords (directive : Directive) : Prop :=
  ∀ word ∈ directive.name :: directive.tokens, IsWord word

instance (directive : Directive) : Decidable directive.OfWords :=
  decidable_of_iff ((directive.name :: directive.tokens).all fun word => IsWord word)
    (by simp [OfWords])

theorem OfWords.addAll {directive : Directive} (ofWords : directive.OfWords)
    {tokens : List String} (areWords : ∀ token ∈ tokens, IsWord token) :
    (directive.addAll tokens).OfWords := by
  intro word among
  rcases List.mem_cons.mp among with rfl | stored
  · rw [name_addAll]
    exact ofWords directive.name List.mem_cons_self
  · rcases (mem_addAll directive tokens).mp stored with earlier | new
    · exact ofWords word (List.mem_cons_of_mem _ earlier)
    · exact areWords word new

structure Plain (directive : Directive) : Prop where
  name : IsPlain directive.name
  tokens : ∀ token ∈ directive.tokens, IsPlain token

instance (directive : Directive) : Decidable directive.Plain :=
  decidable_of_iff (IsPlain directive.name ∧ directive.tokens.all fun token => IsPlain token)
    ⟨fun ⟨name, tokens⟩ => ⟨name, by simpa using tokens⟩,
      fun ⟨name, tokens⟩ => ⟨name, by simpa using tokens⟩⟩

theorem Plain.ofWords {directive : Directive} (plain : directive.Plain) : directive.OfWords := by
  intro word among
  rcases List.mem_cons.mp among with rfl | token
  · exact plain.name.isWord
  · exact (plain.tokens word token).isWord

theorem Plain.add {directive : Directive} (plain : directive.Plain) {token : String}
    (word : IsPlain token) : (directive.add token).Plain := by
  rw [Directive.add]
  split
  · exact plain
  · refine ⟨plain.name, ?_⟩
    intro other member
    rcases List.mem_append.mp member with earlier | last
    · exact plain.tokens other earlier
    · exact List.mem_singleton.mp last ▸ word

theorem Plain.addAll {directive : Directive} (plain : directive.Plain) {tokens : List String}
    (words : ∀ token ∈ tokens, IsPlain token) : (directive.addAll tokens).Plain := by
  rw [Directive.addAll]
  induction tokens generalizing directive with
  | nil => exact plain
  | cons token tokens induction =>
      rw [List.foldl_cons]
      apply induction (plain.add (words token List.mem_cons_self))
      exact fun other member => words other (List.mem_cons_of_mem _ member)

theorem ofSegment?_blank {c : Char} (blank : Text.isBlank c = true) (segment : List Char) :
    ofSegment? (c :: segment) = ofSegment? segment := by
  rw [ofSegment?, Text.words_cons blank, ofSegment?]

theorem ofSegment?_print {directive : Directive} (ofWords : directive.OfWords) :
    ofSegment? directive.print.toList = some directive := by
  rw [ofSegment?, print, words_join ofWords]
  simp [Function.comp_def]

theorem OfWords.not_semicolon {directive : Directive} (ofWords : directive.OfWords) {c : Char}
    (inside : c ∈ directive.print.toList) : c ≠ ';' := by
  rcases Text.mem_join inside with blank | ⟨word, among, here⟩
  · obtain rfl : c = ' ' := by simpa using blank
    decide
  · exact ((ofWords word among).2 c here).2

theorem Plain.of_mem_print {directive : Directive} (plain : directive.Plain) {c : Char}
    (inside : c ∈ directive.print.toList) : 0x20 ≤ c.toNat ∧ c.toNat < 0x7f := by
  rcases Text.mem_join inside with blank | ⟨text, member, here⟩
  · obtain rfl : c = ' ' := by simpa using blank
    decide
  · have word : IsPlain text := by
      rcases List.mem_cons.mp member with rfl | token
      · exact plain.name
      · exact plain.tokens text token
    obtain ⟨low, high, _⟩ := word.2 c here
    exact ⟨Nat.le_of_lt low, high⟩

end Directive

namespace Policy

def OfWords (policy : Policy) : Prop :=
  ∀ directive ∈ policy.directives, directive.OfWords

instance (policy : Policy) : Decidable policy.OfWords :=
  decidable_of_iff (policy.directives.all fun directive => directive.OfWords)
    (by simp [OfWords])

def Plain (policy : Policy) : Prop :=
  ∀ directive ∈ policy.directives, directive.Plain

instance (policy : Policy) : Decidable policy.Plain :=
  decidable_of_iff (policy.directives.all fun directive => directive.Plain)
    (by simp [Plain])

theorem Plain.ofWords {policy : Policy} (plain : policy.Plain) : policy.OfWords :=
  fun directive member => (plain directive member).ofWords

theorem Plain.append {policy : Policy} (plain : policy.Plain) {name : String}
    {tokens : List String} (named : IsPlain name) (words : ∀ token ∈ tokens, IsPlain token) :
    (policy.append name tokens).Plain :=
  forall_append plain ⟨named, nofun⟩ fun _ kept => kept.addAll words

theorem Plain.merge {policy other : Policy} (plain : policy.Plain) (also : other.Plain) :
    (policy.merge other).Plain := by
  rw [Policy.merge]
  obtain ⟨directives⟩ := other
  induction directives generalizing policy with
  | nil => exact plain
  | cons directive directives induction =>
      have first := also directive List.mem_cons_self
      rw [List.foldl_cons]
      apply induction
      · rw [mergeDirective]
        split
        · intro known member
          rcases List.mem_append.mp member with earlier | last
          · exact plain known earlier
          · exact List.mem_singleton.mp last ▸ first
        · exact plain.append first.name first.tokens
      · exact fun known member => also known (List.mem_cons_of_mem _ member)

def directivesIn (text : List Char) : List Directive :=
  (Text.splitWhere (· == ';') text).filterMap Directive.ofSegment?

theorem directivesIn_append (left right : List Char) :
    directivesIn (left ++ ';' :: right) = directivesIn left ++ directivesIn right := by
  rw [directivesIn, Text.splitWhere_append rfl, List.filterMap_append]
  rfl

theorem directivesIn_blank (text : List Char) :
    directivesIn (' ' :: text) = directivesIn text := by
  have blank : Text.isBlank ' ' = true := by decide
  obtain ⟨piece, pieces, split⟩ :=
    List.exists_cons_of_ne_nil (Text.splitWhere_ne_nil (· == ';') text)
  rw [directivesIn, directivesIn, Text.splitWhere_cons_of_not (by decide) split, split,
    List.filterMap_cons, List.filterMap_cons, Directive.ofSegment?_blank blank]

theorem directivesIn_print {directive : Directive} (ofWords : directive.OfWords) :
    directivesIn directive.print.toList = [directive] := by
  rw [directivesIn, Text.splitWhere_of_none]
  · simp [Directive.ofSegment?_print ofWords]
  · intro c inside
    simpa using ofWords.not_semicolon inside

/-- A policy of words is read back from its text as it was. -/
theorem parse_print {policy : Policy} (ofWords : policy.OfWords) : parse policy.print = policy := by
  obtain ⟨directives⟩ := policy
  rw [parse, mk.injEq]
  change directivesIn (Text.join "; " (directives.map Directive.print)).toList = directives
  induction directives with
  | nil => rfl
  | cons directive directives induction =>
      have first := directivesIn_print (ofWords directive List.mem_cons_self)
      have rest := induction fun other member => ofWords other (List.mem_cons_of_mem _ member)
      cases directives with
      | nil => exact first
      | cons next directives =>
          have apart : (Text.join "; " ((directive :: next :: directives).map Directive.print)).toList =
              directive.print.toList ++ ';' :: ' ' ::
                (Text.join "; " ((next :: directives).map Directive.print)).toList := by
            simp [Text.toList_join_cons]
          rw [apart, directivesIn_append, directivesIn_blank, first, rest]
          rfl

theorem Plain.of_mem_print {policy : Policy} (plain : policy.Plain) {c : Char}
    (inside : c ∈ policy.print.toList) : 0x20 ≤ c.toNat ∧ c.toNat < 0x7f := by
  rcases Text.mem_join inside with between | ⟨text, member, here⟩
  · have either : c = ';' ∨ c = ' ' := by simpa using between
    rcases either with rfl | rfl <;> decide
  · obtain ⟨directive, known, rfl⟩ := List.mem_map.mp member
    exact (plain directive known).of_mem_print here

/-- A text that a header field can be read as: visible signs, blanks and tabs. -/
def IsReadable (text : String) : Prop :=
  ∀ c ∈ text.toList, c.toNat = 9 ∨ (0x20 ≤ c.toNat ∧ c.toNat < 0x7f)

theorem isPlain_of_readable {word : String} (isWord : IsWord word) (readable : IsReadable word) :
    IsPlain word := by
  refine ⟨isWord.1, ?_⟩
  intro c inside
  obtain ⟨visible, other⟩ := isWord.2 c inside
  -- of what is readable only tabs and blanks cannot be seen, and these end a word
  have apart : c.toNat ≠ 9 ∧ c.toNat ≠ 0x20 := by
    constructor
    · intro tab
      rw [Text.isBlank, Text.insideBounds, tab] at visible
      exact absurd visible (by decide)
    · intro blank
      rw [Text.isBlank, Text.insideBounds, blank] at visible
      exact absurd visible (by decide)
  rcases readable c inside with tab | ⟨low, high⟩
  · exact absurd tab apart.1
  · exact ⟨by omega, high, other⟩

theorem isWord_of_mem {text segment word : List Char}
    (piece : segment ∈ Text.splitWhere (· == ';') text) (member : word ∈ Text.words segment) :
    IsWord (String.ofList word) ∧ ∀ c ∈ word, c ∈ text := by
  obtain ⟨nonempty, inside⟩ := Text.of_mem_words member
  have fromText : ∀ c ∈ word, c ∈ text ∧ c ≠ ';' := by
    intro c here
    obtain ⟨inText, notSemicolon⟩ := Text.of_mem_splitWhere piece (inside c here).1
    exact ⟨inText, by simpa using notSemicolon⟩
  refine ⟨⟨by simpa using nonempty, ?_⟩, fun c here => (fromText c here).1⟩
  intro c here
  rw [String.toList_ofList] at here
  exact ⟨(inside c here).2, (fromText c here).2⟩

theorem mem_parse {text : String} {directive : Directive}
    (member : directive ∈ (parse text).directives) :
    ∀ word ∈ directive.name :: directive.tokens,
      IsWord word ∧ ∀ c ∈ word.toList, c ∈ text.toList := by
  obtain ⟨segment, piece, parsed⟩ := List.mem_filterMap.mp member
  rw [Directive.ofSegment?] at parsed
  split at parsed
  · cases parsed
  · rename_i name tokens words
    cases parsed
    change ∀ word ∈ (name :: tokens).map String.ofList, _
    rw [← words]
    intro word among
    obtain ⟨characters, known, rfl⟩ := List.mem_map.mp among
    rw [String.toList_ofList]
    exact isWord_of_mem piece known

theorem parse_ofWords (text : String) : (parse text).OfWords :=
  fun _ member word among => (mem_parse member word among).1

theorem parse_plain {text : String} (readable : IsReadable text) : (parse text).Plain := by
  intro directive member
  have plain : ∀ word ∈ directive.name :: directive.tokens, IsPlain word := by
    intro word among
    obtain ⟨isWord, fromText⟩ := mem_parse member word among
    exact isPlain_of_readable isWord fun c here => readable c (fromText c here)
  obtain ⟨name, tokens⟩ := List.forall_mem_cons.mp plain
  exact ⟨name, tokens⟩

end Policy

end PageAssembly
