import PageAssembly.Proofs.Language.Pieces

/-!
Where a source can be parted so that both parts are scanned as they are in the whole: between two
pieces, which is where a text or an action begins or ends.
-/

namespace PageAssembly.Language

open Text (byteSize byteSize_append)

def Token.begins : Token → Bool
  | .text _ | .openAction => true
  | _ => false

theorem Inner.isInner {token : Token} {written : List Char} (inner : Inner token written) :
    token.isInner = true := by
  cases inner with
  | plain inner => exact inner
  | quoted => rfl

theorem actionLexemes_inner {position : Nat} {text : List Char} {lexemes : List Lexeme}
    (read : actionLexemes position text = .ok lexemes) :
    ∀ lexeme ∈ lexemes, lexeme.token.isInner = true := by
  fun_induction actionLexemes position text generalizing lexemes with
  | case1 position =>
      cases read
      exact List.forall_mem_nil _
  | case2 position first rest gap induction => exact induction read
  | case3 position first rest gap token count taken stop =>
      rename_i induction
      cases inner : actionLexemes stop (rest.drop count) with
      | error error =>
          rw [inner] at read
          cases read
      | ok others =>
          rw [inner] at read
          cases read
          exact List.forall_mem_cons.mpr ⟨(tokenAt_inner taken).isInner, induction inner⟩
  | case4 position first rest gap count failed => cases read

theorem Piece.begins_first (piece : Piece) (position : Nat) {first : Lexeme}
    {others : List Lexeme} (same : piece.lexemes position = first :: others) :
    ∀ lexeme ∈ others, lexeme.token.begins = false := by
  cases piece with
  | text content =>
      cases same
      exact List.forall_mem_nil _
  | comment content => cases same
  | action content =>
      obtain ⟨rfl, rfl⟩ := List.cons.inj same
      intro lexeme member
      rcases List.mem_append.mp member with inside | closing
      · cases read : actionLexemes (position + 2) content with
        | error error =>
            rw [read] at inside
            cases inside
        | ok lexemes =>
            rw [read] at inside
            have inner := actionLexemes_inner read lexeme inside
            cases token : lexeme.token <;> rw [token] at inner <;> first | rfl | cases inner
      · rw [List.mem_singleton.mp closing]
        rfl

theorem Piece.whole {piece : Piece} {position : Nat} {others before after : List Lexeme}
    (same : piece.lexemes position ++ others = before ++ after) (nonempty : before ≠ [])
    (starts : ∀ lexeme ∈ after.head?, lexeme.token.begins = true) :
    ∃ more, before = piece.lexemes position ++ more ∧ others = more ++ after := by
  rcases List.append_eq_append_iff.mp same with ⟨more, rfl, rfl⟩ | ⟨rest, parted, rfl⟩
  · exact ⟨more, rfl, rfl⟩
  · cases rest with
    | nil =>
        refine ⟨[], ?_, rfl⟩
        rw [parted, List.append_nil, List.append_nil]
    | cons lexeme rest =>
        obtain ⟨first, before, rfl⟩ := List.exists_cons_of_ne_nil nonempty
        have stays := piece.begins_first position parted lexeme (by simp)
        have starts := starts lexeme rfl
        rw [stays] at starts
        cases starts

theorem Piece.start_eq {piece : Piece} {position : Nat} {first : Lexeme} {others : List Lexeme}
    (same : piece.lexemes position = first :: others) : first.span.start = position := by
  cases piece with
  | comment content => cases same
  | text content =>
      cases same
      rfl
  | action content =>
      obtain ⟨rfl, -⟩ := List.cons.inj same
      rfl

theorem Piece.stop_eq {piece : Piece} {position : Nat} {last : Lexeme}
    (ends : (piece.lexemes position).getLast? = some last) :
    last.span.stop = position + byteSize piece.written := by
  cases piece with
  | comment content => cases ends
  | text content =>
      obtain rfl := Option.some.inj ends
      rfl
  | action content =>
      rw [Piece.lexemes, ← List.cons_append, List.getLast?_concat] at ends
      obtain rfl := Option.some.inj ends
      rw [byteSize_action]
      simp only
      omega

/-- Pieces can be parted where a lexeme begins a piece. -/
theorem exists_parted_before {pieces : List Piece} {position : Nat} {before after : List Lexeme}
    {first : Lexeme} (same : lexemesAt position pieces = before ++ first :: after)
    (starts : first.token.begins = true) :
    ∃ earlier later, pieces = earlier ++ later ∧
      position + byteSize (written earlier) = first.span.start ∧
      lexemesAt first.span.start later = first :: after := by
  induction pieces generalizing position before with
  | nil => simp [lexemesAt] at same
  | cons piece pieces induction =>
      -- if the lexeme is in a later piece, this one is among the earlier ones
      have goOn {more : List Lexeme}
          (further : lexemesAt (position + byteSize piece.written) pieces = more ++ first :: after) :
          ∃ earlier later, piece :: pieces = earlier ++ later ∧
            position + byteSize (written earlier) = first.span.start ∧
            lexemesAt first.span.start later = first :: after := by
        obtain ⟨earlier, later, rfl, place, right⟩ := induction further
        refine ⟨piece :: earlier, later, rfl, ?_, right⟩
        rw [← place, written_cons, byteSize_append, Nat.add_assoc]
      cases contents : piece.lexemes position with
      | nil =>
          rw [lexemesAt, contents, List.nil_append] at same
          exact goOn same
      | cons lexeme others =>
          cases before with
          | nil =>
              have whole := same
              rw [lexemesAt, contents, List.nil_append] at same
              obtain ⟨rfl, -⟩ := List.cons.inj same
              have place := Piece.start_eq contents
              refine ⟨[], piece :: pieces, rfl, ?_, ?_⟩
              · rw [place]
                rfl
              · rw [place]
                exact whole
          | cons other before =>
              obtain ⟨more, -, further⟩ :=
                Piece.whole same (List.cons_ne_nil _ _) (by simpa using starts)
              exact goOn further

/-- Pieces can be parted behind a lexeme if none follows or the next one begins a piece. -/
theorem exists_parted_behind {pieces : List Piece} {position : Nat} {before after : List Lexeme}
    {last : Lexeme} (same : lexemesAt position pieces = before ++ after)
    (ends : before.getLast? = some last)
    (starts : ∀ lexeme ∈ after.head?, lexeme.token.begins = true) :
    ∃ earlier later, pieces = earlier ++ later ∧
      position + byteSize (written earlier) = last.span.stop ∧
      lexemesAt position earlier = before := by
  induction pieces generalizing position before with
  | nil =>
      obtain ⟨rfl, -⟩ := List.append_eq_nil_iff.mp same.symm
      cases ends
  | cons piece pieces induction =>
      have nonempty : before ≠ [] := by
        rintro rfl
        cases ends
      obtain ⟨more, rfl, further⟩ := Piece.whole same nonempty starts
      cases more with
      | nil =>
          rw [List.append_nil] at ends
          refine ⟨[piece], pieces, rfl, ?_, rfl⟩
          rw [Piece.stop_eq ends, written_single]
      | cons lexeme more =>
          rw [List.getLast?_append_of_ne_nil _ (List.cons_ne_nil _ _)] at ends
          obtain ⟨earlier, later, rfl, place, left⟩ := induction further ends
          refine ⟨piece :: earlier, later, rfl, ?_, ?_⟩
          · rw [← place, written_cons, byteSize_append, Nat.add_assoc]
          · rw [lexemesAt, left]

theorem exists_parted_at {pieces : List Piece} {before after : List Char}
    (same : written pieces = before ++ after) :
    (∃ earlier later, pieces = earlier ++ later ∧ written earlier = before ∧
        written later = after) ∨
      ∃ earlier piece later left right, pieces = earlier ++ piece :: later ∧
        left ≠ [] ∧ right ≠ [] ∧ piece.written = left ++ right ∧
        before = written earlier ++ left ∧ after = right ++ written later := by
  induction pieces generalizing before with
  | nil =>
      obtain ⟨rfl, rfl⟩ := List.append_eq_nil_iff.mp same.symm
      exact Or.inl ⟨[], [], rfl, rfl, rfl⟩
  | cons piece pieces induction =>
      rw [written_cons] at same
      rcases List.append_eq_append_iff.mp same with ⟨more, rfl, further⟩ | ⟨right, parted, rfl⟩
      · rcases induction further with ⟨earlier, later, rfl, rfl, rfl⟩ |
          ⟨earlier, other, later, left, right, rfl, some, others, parted, rfl, rfl⟩
        · exact Or.inl ⟨piece :: earlier, later, rfl, rfl, rfl⟩
        · refine Or.inr ⟨piece :: earlier, other, later, left, right, rfl, some, others, parted,
            ?_, rfl⟩
          rw [written_cons, List.append_assoc]
      · cases before with
        | nil =>
            rw [List.nil_append] at parted
            refine Or.inl ⟨[], piece :: pieces, rfl, rfl, ?_⟩
            rw [← parted]
            rfl
        | cons c before =>
            cases right with
            | nil =>
                rw [List.append_nil] at parted
                refine Or.inl ⟨[piece], pieces, rfl, ?_, rfl⟩
                rw [← parted, written_single]
            | cons d right =>
                exact Or.inr ⟨[], piece, pieces, c :: before, d :: right, rfl,
                  List.cons_ne_nil _ _, List.cons_ne_nil _ _, parted, rfl, rfl⟩

end PageAssembly.Language
