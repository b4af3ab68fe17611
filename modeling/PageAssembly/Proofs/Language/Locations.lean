import PageAssembly.Proofs.Language.Lines
import PageAssembly.Proofs.Language.ViablePrefix
import PageAssembly.Proofs.Text.Digits

/-!
The place that the report of an error names. The spans of errors are positions of bytes and reports
take them for positions of characters, so the place is that of the character whose number is the
position: the right one if all characters before the error are single bytes.
-/

namespace PageAssembly.Language

open Text (byteSize byteSize_append decimalString encodeString length_encode)

namespace Diagnostic

def heading (diagnostic : Diagnostic) : String :=
  alert "Error:" ++ " " ++ diagnostic.message ++ "\n"

def bracket : String :=
  painted frameColour "╭" ++ painted frameColour "─" ++ painted frameColour "["

/-- The report names the place in the source of this name: behind its message, in brackets. -/
def Names (diagnostic : Diagnostic) (report name : String) (place : Place) : Prop :=
  ∃ margin rest, report = diagnostic.heading ++ (blanks margin ++ (bracket ++ (name ++ (":" ++
    (decimalString place.line ++ (":" ++ (decimalString place.column ++
      (painted frameColour "]" ++ rest))))))))

/-- A character that two texts lack tells where they end. -/
theorem parts_eq {c : Char} {part other rest more : List Char} (absent : c ∉ part)
    (also : c ∉ other) (same : part ++ c :: rest = other ++ c :: more) :
    part = other ∧ rest = more := by
  rcases List.append_eq_append_iff.mp same with ⟨between, rfl, goesOn⟩ | ⟨between, rfl, goesOn⟩
  · cases between with
    | nil => exact ⟨(List.append_nil _).symm, (List.cons.inj goesOn).2⟩
    | cons d between =>
        obtain ⟨rfl, -⟩ := List.cons.inj goesOn
        exact absurd (List.mem_append_right _ List.mem_cons_self) also
  · cases between with
    | nil => exact ⟨List.append_nil _, (List.cons.inj goesOn).2.symm⟩
    | cons d between =>
        obtain ⟨rfl, -⟩ := List.cons.inj goesOn
        exact absurd (List.mem_append_right _ List.mem_cons_self) absent

theorem toList_painted (text : String) : ∃ more, (painted frameColour text).toList = '\x1b' :: more :=
  ⟨_, by simp [painted]; rfl⟩

theorem escape_not_mem_blanks (count : Nat) : '\x1b' ∉ (blanks count).toList := by
  rw [blanks, String.toList_ofList]
  intro member
  cases (List.eq_of_mem_replicate member)

theorem not_mem_decimalString {c : Char} (noDigit : c.isDigit = false) (value : Nat) :
    c ∉ (decimalString value).toList := by
  rw [decimalString, String.toList_ofList]
  intro member
  rw [Text.isDigit_of_mem_decimal c member] at noDigit
  cases noDigit

theorem decimalString_injective {value other : Nat}
    (same : (decimalString value).toList = (decimalString other).toList) : value = other := by
  rw [decimalString, decimalString, String.toList_ofList, String.toList_ofList] at same
  exact Text.decimal_injective same

theorem names_unique {diagnostic : Diagnostic} {report name : String} {place other : Place}
    (names : diagnostic.Names report name place) (also : diagnostic.Names report name other) :
    place = other := by
  obtain ⟨margin, rest, rfl⟩ := names
  obtain ⟨another, more, same⟩ := also
  obtain ⟨corner, starts⟩ : ∃ corner, bracket.toList = '\x1b' :: corner := by
    obtain ⟨corner, starts⟩ := toList_painted "╭"
    refine ⟨corner ++ (painted frameColour "─").toList ++ (painted frameColour "[").toList, ?_⟩
    rw [bracket, String.toList_append, String.toList_append, starts]
    rfl
  obtain ⟨ending, ends⟩ := toList_painted "]"
  have colon : ":".toList = [':'] := rfl
  have texts := congrArg String.toList same
  simp only [String.toList_append, starts, ends, colon, List.cons_append, List.nil_append] at texts
  -- blanks, digits and digits, each up to a character that is none of them
  have behind := (parts_eq (escape_not_mem_blanks margin) (escape_not_mem_blanks another)
    (List.append_cancel_left texts)).2
  have numbers := (List.cons.inj (List.append_cancel_left (List.append_cancel_left behind))).2
  obtain ⟨lines, columns⟩ := parts_eq (not_mem_decimalString rfl place.line)
    (not_mem_decimalString rfl other.line) numbers
  obtain ⟨columns, -⟩ := parts_eq (not_mem_decimalString rfl place.column)
    (not_mem_decimalString rfl other.column) columns
  obtain ⟨line, column⟩ := place
  obtain ⟨otherLine, otherColumn⟩ := other
  obtain rfl := decimalString_injective lines
  obtain rfl := decimalString_injective columns
  rfl

theorem not_names_heading (diagnostic : Diagnostic) (name : String) (place : Place) :
    ¬ diagnostic.Names diagnostic.heading name place := by
  rintro ⟨margin, rest, same⟩
  obtain ⟨more, ends⟩ := toList_painted "]"
  have sizes := congrArg (fun text : String => text.toList.length) same
  simp only [String.toList_append, List.length_append, ends, List.length_cons] at sizes
  omega

/-- The first character and the last one of the span have lines: the report names the place. -/
theorem names_render {diagnostic : Diagnostic} {source : String} {first last : SourceLine}
    (start : lineAt? source.toList diagnostic.span.start = some first)
    (stop : lineAt? source.toList (max (diagnostic.span.stop - 1) diagnostic.span.start) = some last)
    (name : String) :
    diagnostic.Names (diagnostic.render source name) name
      ⟨first.number, diagnostic.span.start - first.offset + 1⟩ := by
  unfold Names
  simp only [render, start, stop, heading, bracket, location, String.append_assoc]
  exact ⟨_, _, rfl⟩

theorem render_of_beyond {diagnostic : Diagnostic} {source : String}
    (beyond : source.toList.length < max (diagnostic.span.stop - 1) diagnostic.span.start)
    (name : String) : diagnostic.render source name = diagnostic.heading := by
  have stop := lineAt?_eq_none beyond
  simp only [render, stop, heading]
  cases lineAt? source.toList diagnostic.span.start <;> rfl

theorem names_render_iff {diagnostic : Diagnostic} {source : String} (nonempty : source.toList ≠ [])
    (lineFeeds : LineFeedsOnly source.toList) (name : String) (place : Place) :
    diagnostic.Names (diagnostic.render source name) name place ↔
      max (diagnostic.span.stop - 1) diagnostic.span.start ≤ source.toList.length ∧
        place = Place.shown ⟨1, 1⟩ source.toList diagnostic.span.start := by
  by_cases reach : max (diagnostic.span.stop - 1) diagnostic.span.start ≤ source.toList.length
  · obtain ⟨last, stop, -⟩ := exists_lineAt? nonempty lineFeeds reach
    obtain ⟨first, start, shown⟩ :=
      exists_lineAt? nonempty lineFeeds (Nat.le_trans (Nat.le_max_right _ _) reach)
    have names := names_render start stop name
    rw [shown] at names
    constructor
    · intro also
      exact ⟨reach, names_unique also names⟩
    · rintro ⟨-, rfl⟩
      exact names
  · rw [render_of_beyond (Nat.lt_of_not_le reach)]
    constructor
    · intro names
      exact absurd names (not_names_heading diagnostic name place)
    · rintro ⟨within, -⟩
      exact absurd within reach

end Diagnostic

/-- The span is that of whole characters of the text, which starts at byte `position`. -/
def Cuts (position : Nat) (text : List Char) (span : Span) : Prop :=
  ∃ before part after, text = before ++ (part ++ after) ∧
    span = ⟨position + byteSize before, position + byteSize before + byteSize part⟩

theorem cuts_start (position : Nat) (part after : List Char) :
    Cuts position (part ++ after) ⟨position, position + byteSize part⟩ :=
  ⟨[], part, after, rfl, rfl⟩

theorem Cuts.within {position : Nat} {text : List Char} {span : Span}
    (cuts : Cuts position text span) (later : List Char) : Cuts position (text ++ later) span := by
  obtain ⟨before, part, after, rfl, rfl⟩ := cuts
  exact ⟨before, part, after ++ later, by simp only [List.append_assoc], rfl⟩

theorem Cuts.behind {position start : Nat} {later text : List Char} {span : Span}
    (cuts : Cuts start later span) (before : List Char) (size : start = position + byteSize before)
    (same : text = before ++ later) : Cuts position text span := by
  obtain ⟨more, part, after, rfl, rfl⟩ := cuts
  refine ⟨before ++ more, part, after, ?_, ?_⟩
  · rw [same, List.append_assoc]
  · rw [byteSize_append, size, Nat.add_assoc]

theorem actionLexemes_error {position : Nat} {text : List Char} {error : SourceError}
    (failed : actionLexemes position text = .error error) : Cuts position text error.span := by
  fun_induction actionLexemes position text with
  | case1 => cases failed
  | case2 position first rest gap induction => exact (induction failed).behind [first] rfl rfl
  | case3 position first rest gap token count taken stop =>
      rename_i induction
      cases inner : actionLexemes stop (rest.drop count) with
      | error other =>
          rw [inner] at failed
          cases failed
          apply (induction inner).behind (first :: rest.take count) rfl
          rw [List.cons_append, List.take_append_drop]
      | ok lexemes =>
          rw [inner] at failed
          cases failed
  | case4 position first rest gap count missed characters =>
      cases failed
      have cuts := cuts_start position characters (rest.drop count)
      rw [List.cons_append, List.take_append_drop] at cuts
      exact cuts

theorem lexemesFrom_error {position : Nat} {text : List Char} {error : SourceError}
    (failed : lexemesFrom position text = .error error) : Cuts position text error.span := by
  fun_induction lexemesFrom position text with
  | case1 => cases failed
  | case2 position rest missed =>
      cases failed
      exact cuts_start position commentOpening rest
  | case3 position rest comment later found induction =>
      have size := byteSize_comment comment
      apply (induction failed).behind (commentOpening ++ (comment ++ commentClosing))
      · rw [size, Nat.add_assoc]
      · rw [Text.eq_of_cut? found]
        simp [commentOpening]
  | case4 position rest noComment missed =>
      cases failed
      exact cuts_start position actionOpening rest
  | case5 position rest noComment count reaches inside closing =>
      rename_i induction
      have braces : byteSize actionOpening = 2 ∧ byteSize actionClosing = 2 := by decide
      have whole : rest = inside ++ (actionClosing ++ rest.drop (count + 2)) := by
        rw [← actionLength?_reaches reaches, List.take_append_drop]
      cases contents : actionLexemes (position + 2) inside with
      | error other =>
          rw [contents] at failed
          cases failed
          have cuts := (actionLexemes_error contents).within (actionClosing ++ rest.drop (count + 2))
          rw [← whole] at cuts
          exact cuts.behind actionOpening (by rw [braces.1]) rfl
      | ok action =>
          cases others : lexemesFrom (closing + 2) (rest.drop (count + 2)) with
          | error other =>
              rw [contents, others] at failed
              cases failed
              apply (induction others).behind (actionOpening ++ (inside ++ actionClosing))
              · rw [byteSize_append, byteSize_append, braces.1, braces.2]
                omega
              · rw [List.append_assoc, List.append_assoc, ← whole]
                rfl
          | ok later =>
              rw [contents, others] at failed
              cases failed
  | case6 position first rest noComment noAction count content stop =>
      rename_i induction
      cases others : lexemesFrom stop (rest.drop count) with
      | error other =>
          rw [others] at failed
          cases failed
          apply (induction others).behind content rfl
          rw [List.cons_append, List.take_append_drop]
      | ok later =>
          rw [others] at failed
          cases failed

theorem exists_parted_error {source : String} {error : SourceError}
    (failed : parse source = .error error) :
    ∃ before after, source.toList = before ++ after ∧ byteSize before = error.span.start ∧
      error.span.stop ≤ byteSize source.toList := by
  cases scanned : scan source with
  | error other =>
      rw [parse, scanned] at failed
      cases failed
      obtain ⟨before, part, after, same, span⟩ := lexemesFrom_error scanned
      refine ⟨before, part ++ after, same, ?_, ?_⟩
      · rw [span, Nat.zero_add]
      · rw [same, span, byteSize_append, byteSize_append, Nat.zero_add, ← Nat.add_assoc]
        exact Nat.le_add_right _ _
  | ok lexemes =>
      rw [parse, scanned] at failed
      rcases State.run_eq_error failed with
        ⟨earlier, lexeme, later, next, parted, -, -, rfl⟩ | ⟨next, -, -, rfl⟩
      · have member : lexeme ∈ lexemes := by
          rw [parted]
          exact List.mem_append_right _ List.mem_cons_self
        obtain ⟨strips, row, written, rfl⟩ := lexemesFrom_laid scanned
        obtain ⟨strip, known, same⟩ := List.mem_filterMap.mp member
        obtain ⟨-, place⟩ := lexeme?_eq_some.mp same
        obtain ⟨before, after, around, span⟩ := row.around known
        rw [written] at around
        refine ⟨before, strip.written ++ after, around, ?_, ?_⟩
        · rw [← place, span]
        · rw [← place, span, around, byteSize_append, byteSize_append, ← Nat.add_assoc]
          exact Nat.le_add_right _ _
      · refine ⟨source.toList, [], (List.append_nil _).symm, rfl, ?_⟩
        cases isLast : lexemes.getLast? with
        | none => exact Nat.le_refl _
        | some last =>
            have within := ((scan_lossless scanned).within last (List.mem_of_getLast? isLast)).2
            rwa [encodeString, length_encode] at within

theorem length_le_byteSize (text : List Char) : text.length ≤ byteSize text := by
  induction text with
  | nil => exact Nat.le_refl _
  | cons c text induction =>
      have positive := c.utf8Size_pos
      rw [List.length_cons, byteSize]
      omega

theorem byteSize_eq_length_iff {text : List Char} :
    byteSize text = text.length ↔ ∀ c ∈ text, c.utf8Size = 1 := by
  induction text with
  | nil => exact iff_of_true rfl nofun
  | cons c text induction =>
      have positive := c.utf8Size_pos
      have least := length_le_byteSize text
      rw [List.forall_mem_cons, ← induction, List.length_cons, byteSize]
      omega

/-- The place that is shown for a position is that of what stands behind some characters exactly if
the position is theirs, but not behind the line feed at the end of the text. -/
theorem shown_eq_behind_iff {before after : List Char} {position : Nat}
    (low : before.length ≤ position) (high : position ≤ (before ++ after).length) :
    Place.shown ⟨1, 1⟩ (before ++ after) position = Place.behind before ↔
      position = before.length ∧ ¬ (after = [] ∧ before.getLast? = some '\n') := by
  by_cases ending : (before ++ after).length ≤ position ∧ (before ++ after).getLast? = some '\n'
  · rw [Place.shown, if_pos ending]
    by_cases nothing : after = []
    · subst nothing
      rw [List.append_nil] at ending ⊢
      obtain ⟨init, rfl⟩ := List.getLast?_eq_some_iff.mp ending.2
      apply iff_of_false
      · intro same
        have lines := congrArg Place.line same
        rw [List.dropLast_concat, Place.behind, Place.through_append] at lines
        exact absurd lines (Nat.ne_of_lt (Nat.lt_succ_self _))
      · rintro ⟨-, unended⟩
        exact unended ⟨rfl, ending.2⟩
    · apply iff_of_false
      · intro same
        rw [List.dropLast_append_of_ne_nil nothing, Place.through_append, ← Place.behind] at same
        have column := (Place.behind before).before_column after.dropLast
        rw [same] at column
        exact column.ne rfl
      · rintro ⟨rfl, -⟩
        apply nothing
        rw [List.length_append] at ending
        exact List.length_eq_zero_iff.mp (by omega)
  · rw [Place.shown, if_neg ending, ← Place.behind]
    by_cases here : position = before.length
    · subst here
      rw [List.take_left]
      refine iff_of_true rfl ⟨rfl, ?_⟩
      rintro ⟨rfl, last⟩
      rw [List.append_nil] at ending
      exact ending ⟨Nat.le_refl _, last⟩
    · apply iff_of_false
      · have goesOn : after.take (position - before.length) ≠ [] := by
          intro nothing
          have size := congrArg List.length nothing
          rw [List.length_append] at high
          rw [List.length_take, List.length_nil] at size
          omega
        rw [List.take_append, List.take_of_length_le low, Place.behind, Place.through_append]
        exact (Place.before_through _ goesOn).ne.symm
      · exact fun same => here same.1

/-- What the report of an error names, for a source that the error parts into `before` and `after`.
-/
structure Placed (source : String) (error : SourceError) (name : String)
    (before after : List Char) : Prop where
  parted : source.toList = before ++ after
  start : byteSize before = error.span.start
  stop : error.span.stop ≤ byteSize source.toList
  /-- The span has to be one of characters; then it is the character of this number that is named.
  -/
  names : ∀ place, error.diagnostic.Names (error.diagnostic.render source name) name place ↔
    max (error.span.stop - 1) error.span.start ≤ source.toList.length ∧
      place = Place.shown ⟨1, 1⟩ source.toList error.span.start
  /-- Whether that is the place of the error. -/
  right : error.diagnostic.Names (error.diagnostic.render source name) name (Place.behind before) ↔
    max (error.span.stop - 1) error.span.start ≤ source.toList.length ∧
      (∀ c ∈ before, c.utf8Size = 1) ∧ ¬ (after = [] ∧ before.getLast? = some '\n')
  /-- In a source of single bytes it is, but for the end behind a line feed. -/
  single : (∀ c ∈ source.toList, c.utf8Size = 1) →
    ¬ (after = [] ∧ before.getLast? = some '\n') →
    error.diagnostic.Names (error.diagnostic.render source name) name (Place.behind before)

theorem nonempty_of_failed {source : String} {error : SourceError}
    (failed : parse source = .error error) : source.toList ≠ [] := by
  intro nothing
  rw [parse, scan, nothing, lexemesFrom] at failed
  cases failed

/-- The report of an error of a source whose lines end in line feeds names the place of the
character that has as many characters before it as the error has bytes. -/
theorem report_counts_characters {source : String} {error : SourceError}
    (lineFeeds : LineFeedsOnly source.toList) (failed : parse source = .error error)
    (name : String) : ∃ before after, Placed source error name before after := by
  obtain ⟨before, after, parted, start, stop⟩ := exists_parted_error failed
  have spans : error.diagnostic.span = error.span := rfl
  have names := error.diagnostic.names_render_iff (nonempty_of_failed failed) lineFeeds name
  rw [spans] at names
  have least := length_le_byteSize before
  have right : error.diagnostic.Names (error.diagnostic.render source name) name
      (Place.behind before) ↔
      max (error.span.stop - 1) error.span.start ≤ source.toList.length ∧
        (∀ c ∈ before, c.utf8Size = 1) ∧ ¬ (after = [] ∧ before.getLast? = some '\n') := by
    rw [names, ← byteSize_eq_length_iff, start]
    apply and_congr_right
    intro reach
    have high : error.span.start ≤ (before ++ after).length := by
      rw [← parted]
      exact Nat.le_trans (Nat.le_max_right _ _) reach
    rw [parted, eq_comm]
    exact shown_eq_behind_iff (by omega) high
  refine ⟨before, after, parted, start, stop, names, right, fun single unended => ?_⟩
  have size := byteSize_eq_length_iff.mpr single
  refine right.mpr ⟨?_, fun c member => single c ?_, unended⟩
  · rw [parted, byteSize_append, List.length_append] at size
    rw [parted, byteSize_append] at stop
    have later := length_le_byteSize after
    rw [parted, List.length_append]
    omega
  · rw [parted]
    exact List.mem_append_left _ member

def strayEnd : String := "a\n\x7b\x7b end \x7d\x7d"

def strayError : SourceError :=
  ⟨⟨5, 8⟩, .unexpected (some (.keyword .finish)) [.keyword .template, .keyword .define,
    .keyword .block, .keyword .condition, .keyword .each, .keyword .scope]⟩

theorem strayEnd_placed : LineFeedsOnly strayEnd.toList ∧ parse strayEnd = .error strayError ∧
    ∃ before after, Placed strayEnd strayError "page" before after := by
  have lineFeeds : LineFeedsOnly strayEnd.toList := by
    simp [LineFeedsOnly, strayEnd, endsLine]
  have scanned : scan strayEnd = .ok [⟨.text "a\n", ⟨0, 2⟩⟩, ⟨.openAction, ⟨2, 4⟩⟩,
      ⟨.keyword .finish, ⟨5, 8⟩⟩, ⟨.closeAction, ⟨9, 11⟩⟩] := by decide +kernel
  have failed : parse strayEnd = .error strayError := by
    rw [parse, scanned]
    rfl
  exact ⟨lineFeeds, failed, report_counts_characters lineFeeds failed "page"⟩

def shifted : String := "é\x7b\x7b end \x7d\x7d"

/-- The error is at the fifth character, and it is the sixth that is named. -/
theorem shifted_misplaced : parse shifted = .error strayError ∧
    (∃ after, shifted.toList = ['é', '\x7b', '\x7b', ' '] ++ after) ∧
    byteSize ['é', '\x7b', '\x7b', ' '] = strayError.span.start ∧
    strayError.diagnostic.Names (strayError.diagnostic.render shifted "p") "p" ⟨1, 6⟩ ∧
    ¬ strayError.diagnostic.Names (strayError.diagnostic.render shifted "p") "p"
      (Place.behind ['é', '\x7b', '\x7b', ' ']) := by
  have scanned : scan shifted = .ok [⟨.text "é", ⟨0, 2⟩⟩, ⟨.openAction, ⟨2, 4⟩⟩,
      ⟨.keyword .finish, ⟨5, 8⟩⟩, ⟨.closeAction, ⟨9, 11⟩⟩] := by decide +kernel
  have failed : parse shifted = .error strayError := by
    rw [parse, scanned]
    rfl
  have lineFeeds : LineFeedsOnly shifted.toList := by
    simp [LineFeedsOnly, shifted, endsLine]
  have names := strayError.diagnostic.names_render_iff (nonempty_of_failed failed) lineFeeds "p"
  refine ⟨failed, ⟨['e', 'n', 'd', ' ', '\x7d', '\x7d'], by decide +kernel⟩, by decide, ?_, ?_⟩
  · exact (names _).mpr (by decide +kernel)
  · rw [names]
    decide +kernel

end PageAssembly.Language
