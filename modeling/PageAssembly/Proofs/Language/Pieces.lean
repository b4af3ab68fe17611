import PageAssembly.Proofs.Language.RoundTrip
import PageAssembly.Proofs.Language.Strips

/-!
A source that can be scanned is a list of pieces, each of which is read at once: a text, a comment
or an action. What a piece gives depends on nothing outside of it, so pieces that follow each other
are scanned alone as they are scanned in a whole source, and where they stand moves their lexemes
and changes nothing else.
-/

namespace PageAssembly.Language

open Text (byteSize byteSize_append cut?)

def Span.movedBy (offset : Nat) (span : Span) : Span :=
  ⟨span.start + offset, span.stop + offset⟩

def Lexeme.movedBy (offset : Nat) (lexeme : Lexeme) : Lexeme :=
  ⟨lexeme.token, lexeme.span.movedBy offset⟩

theorem tokens_movedBy (offset : Nat) (lexemes : List Lexeme) :
    (lexemes.map (Lexeme.movedBy offset)).map Lexeme.token = lexemes.map Lexeme.token := by
  rw [List.map_map]
  rfl

theorem actionLexemes_movedBy (offset position : Nat) (text : List Char) :
    (actionLexemes (position + offset) text).toOption =
      (actionLexemes position text).toOption.map (List.map (Lexeme.movedBy offset)) := by
  fun_induction actionLexemes position text with
  | case1 position =>
      rw [actionLexemes]
      rfl
  | case2 position first rest gap induction =>
      rw [actionLexemes, if_pos gap, Nat.add_right_comm]
      exact induction
  | case3 position first rest gap token count taken stop =>
      rename_i induction
      have moved : position + offset + byteSize (first :: rest.take count) = stop + offset :=
        Nat.add_right_comm _ _ _
      rw [actionLexemes, if_neg gap]
      simp only [taken, moved]
      cases inner : actionLexemes stop (rest.drop count) with
      | error error =>
          rw [inner] at induction
          cases other : actionLexemes (stop + offset) (rest.drop count) with
          | error also => rfl
          | ok others =>
              rw [other] at induction
              cases induction
      | ok lexemes =>
          rw [inner] at induction
          cases other : actionLexemes (stop + offset) (rest.drop count) with
          | error also =>
              rw [other] at induction
              cases induction
          | ok others =>
              rw [other] at induction
              obtain rfl := Option.some.inj induction
              rfl
  | case4 position first rest gap count failed =>
      rw [actionLexemes, if_neg gap]
      simp only [failed]
      rfl

/-- What the scanner reads at once; marks and braces are not part of the content. -/
inductive Piece where
  | text (content : String)
  | comment (content : List Char)
  | action (content : List Char)

namespace Piece

def written : Piece → List Char
  | .text content => content.toList
  | .comment content => commentOpening ++ (content ++ commentClosing)
  | .action content => actionOpening ++ (content ++ actionClosing)

def lexemes (position : Nat) : Piece → List Lexeme
  | .text content => [⟨.text content, ⟨position, position + byteSize content.toList⟩⟩]
  | .comment _ => []
  | .action content =>
      let closing := position + 2 + byteSize content
      ⟨.openAction, ⟨position, position + 2⟩⟩ ::
        ((actionLexemes (position + 2) content).toOption.getD [] ++
          [⟨.closeAction, ⟨closing, closing + 2⟩⟩])

/-- The piece ends where its content does, and the content of an action consists of tokens. -/
def Valid : Piece → Prop
  | .text content => IsPlain content
  | .comment content => ∀ before after : List Char,
      content ++ commentClosing = before ++ commentClosing ++ after → after = []
  | .action content =>
      ¬ ['/', '*'] <+: content ∧
        actionLength? false (content ++ actionClosing) = some content.length ∧
        ∃ lexemes, actionLexemes 0 content = .ok lexemes

def content? : Piece → Option String
  | .text content => some content
  | _ => none

end Piece

/-- The pieces of a whole source, or of a part of one: texts are as long as they can be, and what
stands behind a text cannot make opening braces together with its end. -/
def Readable : List Piece → Prop
  | [] => True
  | piece :: pieces =>
      piece.Valid ∧
        (∀ content ∈ piece.content?, (∀ next ∈ pieces.head?, next.content? = none) ∧
          (EndsOpen content → pieces = [])) ∧
        Readable pieces

def written (pieces : List Piece) : List Char :=
  pieces.flatMap Piece.written

def lexemesAt (position : Nat) : List Piece → List Lexeme
  | [] => []
  | piece :: pieces =>
      piece.lexemes position ++ lexemesAt (position + byteSize piece.written) pieces

theorem written_cons (piece : Piece) (pieces : List Piece) :
    written (piece :: pieces) = piece.written ++ written pieces :=
  List.flatMap_cons

theorem written_single (piece : Piece) : written [piece] = piece.written := by
  rw [written_cons, written, List.flatMap_nil, List.append_nil]

theorem written_append (pieces later : List Piece) :
    written (pieces ++ later) = written pieces ++ written later :=
  List.flatMap_append

theorem lexemesAt_append (position : Nat) (pieces later : List Piece) :
    lexemesAt position (pieces ++ later) =
      lexemesAt position pieces ++ lexemesAt (position + byteSize (written pieces)) later := by
  induction pieces generalizing position with
  | nil => rfl
  | cons piece pieces induction =>
      simp only [List.cons_append, lexemesAt, induction, List.append_assoc, written,
        List.flatMap_cons, byteSize_append, Nat.add_assoc]

theorem Piece.lexemes_movedBy (offset position : Nat) (piece : Piece) :
    piece.lexemes (position + offset) = (piece.lexemes position).map (Lexeme.movedBy offset) := by
  cases piece with
  | text content =>
      simp only [Piece.lexemes, List.map_cons, List.map_nil, Lexeme.movedBy, Span.movedBy,
        Nat.add_right_comm]
  | comment content => rfl
  | action content =>
      have inner := actionLexemes_movedBy offset (position + 2) content
      have moved : position + offset + 2 = position + 2 + offset := Nat.add_right_comm _ _ _
      simp only [Piece.lexemes, moved, inner]
      cases (actionLexemes (position + 2) content).toOption with
      | none =>
          simp only [Option.map_none, Option.getD_none, List.nil_append, List.map_cons,
            List.map_nil, Lexeme.movedBy, Span.movedBy, Nat.add_right_comm]
      | some lexemes =>
          simp only [Option.map_some, Option.getD_some, List.map_append, List.map_cons,
            List.map_nil, Lexeme.movedBy, Span.movedBy, Nat.add_right_comm]

theorem lexemesAt_movedBy (offset position : Nat) (pieces : List Piece) :
    lexemesAt (position + offset) pieces =
      (lexemesAt position pieces).map (Lexeme.movedBy offset) := by
  induction pieces generalizing position with
  | nil => rfl
  | cons piece pieces induction =>
      have later := induction (position + byteSize piece.written)
      rw [Nat.add_right_comm] at later
      rw [lexemesAt, lexemesAt, List.map_append, piece.lexemes_movedBy, later]

theorem tokens_lexemesAt (position : Nat) (pieces : List Piece) :
    (lexemesAt position pieces).map Lexeme.token = (lexemesAt 0 pieces).map Lexeme.token := by
  have moved := lexemesAt_movedBy position 0 pieces
  rw [Nat.zero_add] at moved
  rw [moved, tokens_movedBy]

theorem Readable.right {pieces later : List Piece} (readable : Readable (pieces ++ later)) :
    Readable later := by
  induction pieces with
  | nil => exact readable
  | cons piece pieces induction => exact induction readable.2.2

theorem Readable.left {pieces later : List Piece} (readable : Readable (pieces ++ later)) :
    Readable pieces := by
  induction pieces with
  | nil => trivial
  | cons piece pieces induction =>
      rw [List.cons_append] at readable
      obtain ⟨valid, apart, others⟩ := readable
      refine ⟨valid, fun content member => ⟨fun next first => ?_, fun isOpen => ?_⟩,
        induction others⟩
      · apply (apart content member).1 next
        rw [List.head?_append, Option.mem_def.mp first]
        rfl
      · exact (List.append_eq_nil_iff.mp ((apart content member).2 isOpen)).1

theorem Piece.opening_written {piece : Piece} (noText : piece.content? = none) :
    actionOpening <+: piece.written := by
  cases piece with
  | text content => cases noText
  | comment content => exact ⟨'/' :: '*' :: (content ++ commentClosing), rfl⟩
  | action content => exact ⟨content ++ actionClosing, rfl⟩

theorem Readable.textEnds {content : String} {pieces : List Piece}
    (readable : Readable (.text content :: pieces)) :
    TextEnds content.toList (written pieces) := by
  obtain ⟨plain, apart, -⟩ := readable
  obtain ⟨noText, closed⟩ := apart content rfl
  cases pieces with
  | nil => exact ⟨.inl rfl, by simpa [written] using plain.2⟩
  | cons next pieces =>
      have begins : actionOpening <+: written (next :: pieces) :=
        (Piece.opening_written (noText next rfl)).trans (List.prefix_append _ _)
      exact textEnds_opening plain begins fun isOpen => nomatch closed isOpen

theorem cut?_of_earliest {m : Char} {mark content : List Char} (later : List Char)
    (ends : ∀ before after : List Char,
      content ++ m :: mark = before ++ m :: mark ++ after → after = []) :
    cut? (m :: mark) (content ++ (m :: mark ++ later)) = some (content, later) := by
  induction content with
  | nil =>
      have reached : Text.after? (m :: mark) (m :: (mark ++ later)) = some later :=
        Text.after?_eq_some.mpr rfl
      rw [List.nil_append, List.cons_append, cut?, reached]
  | cons c content induction =>
      have others := induction fun before after same => ends (c :: before) after (by simp [same])
      have missed : Text.after? (m :: mark) (c :: (content ++ (m :: mark ++ later))) = none := by
        cases found : Text.after? (m :: mark) (c :: (content ++ (m :: mark ++ later))) with
        | none => rfl
        | some rest =>
            -- the mark would stand before its place, in what is cut off
            have whole : m :: mark <+: c :: (content ++ (m :: mark ++ later)) :=
              ⟨rest, (Text.after?_eq_some.mp found).symm⟩
            have begins : m :: mark <+: c :: content ++ m :: mark := by
              apply List.prefix_of_prefix_length_le whole
              · exact ⟨later, by simp⟩
              · simp only [List.length_append, List.length_cons]
                omega
            obtain ⟨after, same⟩ := begins
            have nothing := ends [] after same.symm
            have sizes := congrArg List.length same
            simp only [nothing, List.length_append, List.length_cons, List.length_nil] at sizes
            omega
      rw [List.cons_append, cut?, missed, others]
      rfl

/-- Where an action ends is known when its closing braces are. -/
theorem actionLength?_of_prefix {inString : Bool} {text other : List Char} {count : Nat}
    (reaches : actionLength? inString text = some count)
    (same : text.take (count + 2) <+: other) : actionLength? inString other = some count := by
  fun_induction actionLength? inString text generalizing count other with
  | case1 => cases reaches
  | case2 c rest induction =>
      obtain ⟨length, inner, rfl⟩ := Option.map_eq_some_iff.mp reaches
      rw [List.take_succ_cons, List.take_succ_cons] at same
      obtain ⟨later, rfl⟩ := same
      have further := induction inner (List.prefix_append _ later)
      rw [List.cons_append, List.cons_append, actionLength?, further]
      rfl
  | case3 rest =>
      cases reaches
      obtain ⟨later, rfl⟩ := same
      rfl
  | case4 inString c rest noEscape noClosing induction =>
      obtain ⟨length, inner, rfl⟩ := Option.map_eq_some_iff.mp reaches
      cases rest with
      | nil => cases inner
      | cons next rest =>
          rw [List.take_succ_cons] at same
          obtain ⟨later, rfl⟩ := same
          have further := induction inner (List.prefix_append _ later)
          rw [List.take_succ_cons, List.cons_append] at further
          rw [List.take_succ_cons, List.cons_append, List.cons_append, actionLength?]
          · rw [further]
            rfl
          · rintro head tail isString escapes -
            exact noEscape next rest isString escapes rfl
          · rintro tail outside brace same
            obtain ⟨rfl, -⟩ := List.cons.inj same
            exact noClosing rest outside brace rfl

theorem actionLength?_append {inString : Bool} {text : List Char} {count : Nat}
    (reaches : actionLength? inString text = some count) (later : List Char) :
    actionLength? inString (text ++ later) = some count :=
  actionLength?_of_prefix reaches ((List.take_prefix _ _).trans (List.prefix_append _ _))

theorem lexemesFrom_comment {position : Nat} {content later : List Char}
    (valid : (Piece.comment content).Valid) :
    lexemesFrom position ((Piece.comment content).written ++ later) =
      lexemesFrom (position + byteSize (Piece.comment content).written) later := by
  have cut : cut? commentClosing (content ++ (commentClosing ++ later)) = some (content, later) :=
    cut?_of_earliest later valid
  have shape : (Piece.comment content).written ++ later =
      '\x7b' :: '\x7b' :: '/' :: '*' :: (content ++ (commentClosing ++ later)) := by
    simp [Piece.written, commentOpening]
  rw [shape, Piece.written, byteSize_comment, lexemesFrom]
  split
  · rename_i missed
    rw [cut] at missed
    cases missed
  · rename_i comment rest found
    rw [cut] at found
    obtain ⟨rfl, rfl⟩ := Prod.mk.inj (Option.some.inj found)
    rfl

theorem byteSize_action (content : List Char) :
    byteSize (Piece.action content).written = byteSize content + 4 := by
  have braces : byteSize actionOpening = 2 ∧ byteSize actionClosing = 2 := by decide
  rw [Piece.written, byteSize_append, byteSize_append, braces.1, braces.2]
  omega

theorem lexemesFrom_action {position : Nat} {content later : List Char}
    (valid : (Piece.action content).Valid) :
    lexemesFrom position ((Piece.action content).written ++ later) = (do
      let others ← lexemesFrom (position + byteSize (Piece.action content).written) later
      .ok ((Piece.action content).lexemes position ++ others)) := by
  obtain ⟨noComment, reaches, lexemes, known⟩ := valid
  have noMark : ∀ more, content ++ (actionClosing ++ later) ≠ '/' :: '*' :: more := by
    intro more same
    cases content with
    | nil => cases same
    | cons first content =>
        cases content with
        | nil => cases same
        | cons second content =>
            simp only [List.cons_append, List.cons.injEq] at same
            obtain ⟨rfl, rfl, -⟩ := same
            exact noComment ⟨content, rfl⟩
  have ends := actionLength?_append reaches later
  rw [List.append_assoc] at ends
  have inside := actionLexemes_movedBy (position + 2) 0 content
  rw [Nat.zero_add, known] at inside
  have size : position + byteSize (Piece.action content).written =
      position + 2 + byteSize content + 2 := by
    rw [byteSize_action]
    omega
  have shape : (Piece.action content).written ++ later =
      '\x7b' :: '\x7b' :: (content ++ (actionClosing ++ later)) := by
    simp [Piece.written, actionOpening]
  have beyond : (content ++ (actionClosing ++ later)).drop (content.length + 2) = later := by
    rw [List.drop_append]
    simp [actionClosing]
  rw [shape, size, lexemesFrom]
  · simp only [ends, List.take_left, beyond, Piece.lexemes]
    cases contents : actionLexemes (position + 2) content with
    | error error =>
        rw [contents] at inside
        cases inside
    | ok action =>
        cases lexemesFrom (position + 2 + byteSize content + 2) later with
        | error error => rfl
        | ok others =>
            simp [bind, Except.bind, Except.toOption]
  · exact noMark

theorem Piece.scanned {piece : Piece} (valid : piece.Valid) {rest : List Char}
    (ends : ∀ content ∈ piece.content?, TextEnds content.toList rest) (position : Nat) :
    Scanned position piece.written rest (piece.lexemes position) := by
  cases piece with
  | text content => exact scanned_content valid.1 (ends content rfl) position
  | comment content =>
      intro later scanned
      rw [lexemesFrom_comment valid]
      exact scanned
  | action content =>
      intro later scanned
      rw [lexemesFrom_action valid, scanned]
      rfl

/-- Pieces that are readable are scanned, wherever they stand. -/
theorem lexemesFrom_pieces {pieces : List Piece} (readable : Readable pieces) (position : Nat) :
    lexemesFrom position (written pieces) = .ok (lexemesAt position pieces) := by
  induction pieces generalizing position with
  | nil => rw [written, List.flatMap_nil, lexemesFrom, lexemesAt]
  | cons piece pieces induction =>
      have ends : ∀ content ∈ piece.content?, TextEnds content.toList (written pieces) := by
        intro content member
        cases piece with
        | text other =>
            obtain rfl := Option.some.inj member
            exact readable.textEnds
        | _ => cases member
      exact piece.scanned readable.1 ends position _ (induction readable.2.2 _)

theorem written_eq_nil {pieces : List Piece} (readable : Readable pieces)
    (nothing : written pieces = []) : pieces = [] := by
  cases pieces with
  | nil => rfl
  | cons piece pieces =>
      obtain ⟨nothing, -⟩ := List.append_eq_nil_iff.mp nothing
      cases piece with
      | text content => exact absurd (String.toList_eq_nil_iff.mp nothing) readable.1.1
      | _ => cases nothing

theorem noText_of_opening {pieces : List Piece} (readable : Readable pieces)
    (begins : actionOpening <+: written pieces) :
    ∀ next ∈ pieces.head?, next.content? = none := by
  intro next first
  cases pieces with
  | nil => cases first
  | cons piece pieces =>
      obtain rfl := Option.some.inj first
      cases piece with
      | text content =>
          have ends := readable.textEnds
          obtain ⟨first, others, spelled⟩ := List.exists_cons_of_ne_nil
            (fun nothing => readable.1.1 (String.toList_eq_nil_iff.mp nothing))
          rw [spelled] at ends
          have shape : written (.text content :: pieces) = first :: (others ++ written pieces) := by
            rw [written_cons, Piece.written, spelled]
            rfl
          rw [shape] at begins
          exact absurd begins ends.not_opening
      | _ => rfl

theorem readable_cons {piece : Piece} {pieces : List Piece} (valid : piece.Valid)
    (noText : piece.content? = none) (readable : Readable pieces) : Readable (piece :: pieces) := by
  refine ⟨valid, fun content same => ?_, readable⟩
  rw [noText] at same
  cases same

theorem readable_text {content : List Char} {pieces : List Piece} (nonempty : content ≠ [])
    (ends : TextEnds content (written pieces)) (readable : Readable pieces) :
    Readable (.text (String.ofList content) :: pieces) := by
  refine ⟨ends.isPlain nonempty, fun other same => ⟨?_, fun isOpen => ?_⟩, readable⟩
  · rcases ends.follows with nothing | begins
    · obtain rfl := written_eq_nil readable nothing
      intro next first
      cases first
    · exact noText_of_opening readable begins
  · obtain rfl := Option.some.inj same
    exact written_eq_nil readable (ends.nothing isOpen)

theorem valid_action {position count : Nat} {rest : List Char} {lexemes : List Lexeme}
    (noComment : ∀ more, rest ≠ '/' :: '*' :: more)
    (reaches : actionLength? false rest = some count)
    (read : actionLexemes position (rest.take count) = .ok lexemes) :
    (Piece.action (rest.take count)).Valid := by
  have beyond := actionLength?_reaches reaches
  have content : rest.take (count + 2) = rest.take count ++ actionClosing := by
    rw [List.take_add, beyond]
    rfl
  have within : (rest.take count).length = count := by
    apply List.length_take_of_le
    have sizes := congrArg List.length beyond
    simp only [List.length_append, List.length_drop, actionClosing, List.length_cons,
      List.length_nil] at sizes
    omega
  refine ⟨?_, ?_, ?_⟩
  · rintro ⟨more, same⟩
    apply noComment (more ++ rest.drop count)
    calc rest = rest.take count ++ rest.drop count := (List.take_append_drop count rest).symm
      _ = '/' :: '*' :: (more ++ rest.drop count) := by
        rw [← same]
        rfl
  · rw [within]
    exact actionLength?_of_prefix reaches ⟨[], by rw [content, List.append_nil]⟩
  · have moved := actionLexemes_movedBy position 0 (rest.take count)
    rw [Nat.zero_add, read] at moved
    cases known : actionLexemes 0 (rest.take count) with
    | ok others => exact ⟨others, rfl⟩
    | error error =>
        rw [known] at moved
        cases moved

/-- Every source that is scanned is made of pieces. -/
theorem exists_pieces {position : Nat} {text : List Char} {lexemes : List Lexeme}
    (read : lexemesFrom position text = .ok lexemes) :
    ∃ pieces, Readable pieces ∧ written pieces = text ∧ lexemesAt position pieces = lexemes := by
  fun_induction lexemesFrom position text generalizing lexemes with
  | case1 position =>
      cases read
      exact ⟨[], trivial, rfl, rfl⟩
  | case2 => cases read
  | case3 position rest comment later found induction =>
      obtain ⟨pieces, readable, same, scanned⟩ := induction read
      have valid : (Piece.comment comment).Valid := fun _ _ => Text.cut?_earliest found
      refine ⟨.comment comment :: pieces, readable_cons valid rfl readable, ?_, ?_⟩
      · rw [written_cons, same, Text.eq_of_cut? found]
        simp [Piece.written, commentOpening]
      · rw [lexemesAt, Piece.written, byteSize_comment, ← Nat.add_assoc, scanned]
        rfl
  | case4 => cases read
  | case5 position rest noComment count reaches inside closing =>
      rename_i induction
      cases contents : actionLexemes (position + 2) inside with
      | error error =>
          rw [contents] at read
          cases read
      | ok action =>
          cases others : lexemesFrom (closing + 2) (rest.drop (count + 2)) with
          | error error =>
              rw [contents, others] at read
              cases read
          | ok later =>
              rw [contents, others] at read
              cases read
              obtain ⟨pieces, readable, same, scanned⟩ := induction others
              have size : position + byteSize (Piece.action inside).written = closing + 2 := by
                have closes : closing = position + 2 + byteSize inside := rfl
                rw [byteSize_action, closes]
                omega
              refine ⟨.action inside :: pieces,
                readable_cons (valid_action noComment reaches contents) rfl readable, ?_, ?_⟩
              · rw [written_cons, same, Piece.written, List.append_assoc,
                  List.append_assoc, ← actionLength?_reaches reaches, List.take_append_drop]
                rfl
              · rw [lexemesAt, size, scanned, Piece.lexemes, contents]
                simp [Except.toOption, closing]
  | case6 position first rest noComment noAction count content stop =>
      rename_i induction
      cases others : lexemesFrom stop (rest.drop count) with
      | error error =>
          rw [others] at read
          cases read
      | ok later =>
          rw [others] at read
          cases read
          obtain ⟨pieces, readable, same, scanned⟩ := induction others
          have closed : ¬ actionOpening <+: first :: rest := by
            rintro ⟨more, same⟩
            obtain ⟨rfl, rfl⟩ := List.cons.inj same
            exact noAction more rfl rfl
          have ends : TextEnds content (rest.drop count) :=
            textEnds_cons closed (textEnds_taken rest)
          rw [← same] at ends
          refine ⟨.text (String.ofList content) :: pieces,
            readable_text (List.cons_ne_nil _ _) ends readable, ?_, ?_⟩
          · rw [written_cons, same, Piece.written, String.toList_ofList,
              List.cons_append, List.take_append_drop]
          · rw [lexemesAt, Piece.lexemes, Piece.written, String.toList_ofList, scanned]
            rfl

end PageAssembly.Language
