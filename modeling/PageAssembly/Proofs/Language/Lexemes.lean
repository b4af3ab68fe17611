import PageAssembly.Proofs.Language.Scanning

/-!
What the scanner can yield. Names are names, no text holds opening braces, and a text that ends in
an opening brace is the last lexeme.
-/

namespace PageAssembly.Language

def Token.Valid : Token → Prop
  | .text content => IsPlain content
  | .field names => ∀ name ∈ names, IsName name
  | .root names => ∀ name ∈ names, IsName name
  | .identifier name => IsSlotName name
  | _ => True

def Token.ValidInside (token : Token) : Prop :=
  token.Valid ∧ ∀ content, token ≠ .text content

theorem nameToken_valid {name : String} (valid : IsName name) : (nameToken name).ValidInside := by
  rw [nameToken]
  cases found : Keyword.ofSpelling? name with
  | none =>
      refine ⟨⟨valid, ofSpelling?_eq_none.mp found⟩, fun content same => ?_⟩
      cases same
  | some word =>
      refine ⟨trivial, fun content same => ?_⟩
      cases same

theorem tokenAt_valid {first : Char} {rest : List Char} {token : Token} {count : Nat}
    (read : tokenAt first rest = .ok (token, count)) : token.ValidInside := by
  by_cases starts : startsName first
  · rw [tokenAt_name starts] at read
    cases read
    exact nameToken_valid (isName_taken rest starts)
  · unfold tokenAt at read
    rw [if_neg starts] at read
    split at read
    · cases read
      exact ⟨pathNames_valid ('.' :: rest), nofun⟩
    · cases read
      exact ⟨pathNames_valid rest, nofun⟩
    · split at read
      · cases read
        exact ⟨trivial, nofun⟩
      · cases read
    · cases read

theorem actionLexemes_valid {position : Nat} {text : List Char} {lexemes : List Lexeme}
    (read : actionLexemes position text = .ok lexemes) :
    ∀ lexeme ∈ lexemes, lexeme.token.ValidInside := by
  fun_induction actionLexemes position text generalizing lexemes with
  | case1 position =>
      cases read
      exact nofun
  | case2 position first rest gap induction => exact induction read
  | case3 position first rest gap token count taken stop =>
      rename_i induction
      cases inner : actionLexemes stop (rest.drop count) with
      | error error =>
          rw [inner] at read
          cases read
      | ok others =>
          rw [inner] at read
          cases read
          exact List.forall_mem_cons.mpr ⟨tokenAt_valid taken, induction inner⟩
  | case4 position first rest gap count failed => cases read

theorem textEnds_cons {first : Char} {rest : List Char} {count : Nat}
    (closed : ¬ actionOpening <+: first :: rest)
    (ends : TextEnds (rest.take count) (rest.drop count)) :
    TextEnds (first :: rest.take count) (rest.drop count) := by
  refine ⟨ends.follows, fun found => ?_⟩
  rcases List.infix_cons_iff.mp found with begins | within
  · have before : rest.take count ++ (rest.drop count).take 1 <+: rest := by
      rw [← List.take_add]
      exact List.take_prefix _ _
    exact closed (begins.trans ((List.prefix_cons_inj first).mpr before))
  · exact ends.plain within

theorem textEnds_taken (text : List Char) :
    TextEnds (text.take (textLength text)) (text.drop (textLength text)) := by
  fun_induction textLength text with
  | case1 => exact ⟨.inl rfl, by simp [actionOpening]⟩
  | case2 rest =>
      exact ⟨.inr ⟨rest, rfl⟩, fun found => absurd found.length_le (by simp [actionOpening])⟩
  | case3 first rest other induction =>
      rw [List.take_succ_cons, List.drop_succ_cons]
      refine textEnds_cons ?_ induction
      rintro ⟨more, same⟩
      obtain ⟨rfl, rfl⟩ := List.cons.inj same
      exact other more rfl rfl

theorem TextEnds.isPlain {content later : List Char} (ends : TextEnds content later)
    (nonempty : content ≠ []) : IsPlain (String.ofList content) := by
  refine ⟨fun empty => nonempty ?_, ?_⟩
  · rw [← String.toList_ofList (l := content), empty, String.toList_empty]
  · rw [String.toList_ofList]
    exact fun found => ends.plain (found.trans (List.prefix_append _ _).isInfix)

theorem TextEnds.nothing {content later : List Char} (ends : TextEnds content later)
    (isOpen : EndsOpen (String.ofList content)) : later = [] := by
  rcases ends.follows with nothing | ⟨more, rfl⟩
  · exact nothing
  · rw [EndsOpen, String.toList_ofList, List.getLast?_eq_some_iff] at isOpen
    obtain ⟨before, rfl⟩ := isOpen
    exact absurd ⟨before, [], by simp [actionOpening]⟩ ends.plain

/-- Every token is valid, and a text that ends in an opening brace is the last one. -/
def Sound : List Lexeme → Prop
  | [] => True
  | lexeme :: lexemes =>
      lexeme.token.Valid ∧
        (∀ content, lexeme.token = .text content → EndsOpen content → lexemes = []) ∧
        Sound lexemes

theorem Sound.right {earlier later : List Lexeme} (sound : Sound (earlier ++ later)) :
    Sound later := by
  induction earlier with
  | nil => exact sound
  | cons lexeme earlier induction => exact induction sound.2.2

theorem sound_inside {inside later : List Lexeme}
    (valid : ∀ lexeme ∈ inside, lexeme.token.ValidInside) (sound : Sound later) :
    Sound (inside ++ later) := by
  induction inside with
  | nil => exact sound
  | cons lexeme inside induction =>
      obtain ⟨first, others⟩ := List.forall_mem_cons.mp valid
      exact ⟨first.1, fun content same => absurd same (first.2 content), induction others⟩

theorem lexemesFrom_sound {position : Nat} {text : List Char} {lexemes : List Lexeme}
    (read : lexemesFrom position text = .ok lexemes) : Sound lexemes := by
  fun_induction lexemesFrom position text generalizing lexemes with
  | case1 position =>
      cases read
      trivial
  | case2 => cases read
  | case3 position rest comment later found induction => exact induction read
  | case4 => cases read
  | case5 position rest noComment count reaches inside closing =>
      rename_i induction
      cases contents : actionLexemes (position + 2) inside with
      | error error =>
          rw [contents] at read
          cases read
      | ok action =>
          cases others : lexemesFrom (closing + 2) (rest.drop (count + 2)) with
          | error error =>
              rw [contents, others] at read
              cases read
          | ok later =>
              rw [contents, others] at read
              cases read
              refine ⟨trivial, nofun, sound_inside (actionLexemes_valid contents) ?_⟩
              exact ⟨trivial, nofun, induction others⟩
  | case6 position first rest noComment noAction count content stop =>
      rename_i induction
      cases others : lexemesFrom stop (rest.drop count) with
      | error error =>
          rw [others] at read
          cases read
      | ok later =>
          rw [others] at read
          cases read
          have closed : ¬ actionOpening <+: first :: rest := by
            rintro ⟨more, same⟩
            obtain ⟨rfl, rfl⟩ := List.cons.inj same
            exact noAction more rfl rfl
          have ends : TextEnds content (rest.drop count) := textEnds_cons closed (textEnds_taken rest)
          refine ⟨ends.isPlain nofun, fun _ same isOpen => ?_, induction others⟩
          obtain rfl := Token.text.inj same
          have nothing : rest.drop count = [] := ends.nothing isOpen
          rw [nothing, lexemesFrom] at others
          cases others
          rfl

end PageAssembly.Language
