import PageAssembly.Proofs.Language.Lexemes

/-!
A source that can be scanned is a row of strips without gaps: tokens as they are written, comments,
and the blanks of actions. Each strip leads from outside of actions or from inside of one to what
follows it, and the lexemes are those of the strips that have a token.
-/

namespace PageAssembly

namespace Text

theorem cut?_earliest {mark text earlier later : List Char}
    (found : cut? mark text = some (earlier, later)) {before after : List Char}
    (stands : earlier ++ mark = before ++ mark ++ after) : after = [] := by
  induction text generalizing earlier before with
  | nil =>
      obtain ⟨nothing, -⟩ := List.append_eq_nil_iff.mp (eq_of_cut? found).symm
      obtain ⟨rfl, -⟩ := List.append_eq_nil_iff.mp nothing
      have sizes := congrArg List.length stands
      simp only [List.nil_append, List.length_append] at sizes
      exact List.length_eq_zero_iff.mp (by omega)
  | cons c text induction =>
      have whole := eq_of_cut? found
      rw [cut?] at found
      split at found
      · obtain ⟨rfl, -⟩ := Prod.mk.inj (Option.some.inj found)
        have sizes := congrArg List.length stands
        simp only [List.nil_append, List.length_append] at sizes
        exact List.length_eq_zero_iff.mp (by omega)
      · rename_i missed
        obtain ⟨⟨start, rest⟩, cut, same⟩ := Option.map_eq_some_iff.mp found
        obtain ⟨rfl, rfl⟩ := Prod.mk.inj same
        cases before with
        | nil =>
            -- the text does not start with the mark
            rw [whole, stands, List.nil_append, List.append_assoc] at missed
            rw [after?_eq_some.mpr rfl] at missed
            cases missed
        | cons b before => exact induction cut (List.cons.inj stands).2

end Text

namespace Language

open Text (byteSize byteSize_append cut?)

inductive StripKind where
  | token (token : Token)
  | comment
  | gap

structure Strip where
  kind : StripKind
  written : List Char
  span : Span

def Strip.lexeme? (strip : Strip) : Option Lexeme :=
  match strip.kind with
  | .token token => some ⟨token, strip.span⟩
  | _ => none

def Token.isInner : Token → Bool
  | .text _ | .openAction | .closeAction => false
  | _ => true

/-- How a token can be written inside of an action: only a string has closing braces in it. -/
inductive Inner : Token → List Char → Prop
  | plain {token : Token} {written : List Char} (inner : token.isInner = true)
      (nonempty : written ≠ []) (noBrace : '\x7d' ∉ written) : Inner token written
  | quoted (content : String) (body : List Char) :
      Inner (.quoted content) ('"' :: (body ++ ['"']))

/-- The kinds of strips, where each can stand and where it leads, inside of an action or not. -/
inductive Leads : Bool → StripKind → List Char → Bool → Prop
  | text {content : List Char} (nonempty : content ≠ [])
      (closed : ¬ actionOpening <:+: content) :
      Leads false (.token (.text (String.ofList content))) content false
  | comment {content : List Char}
      (ends : ∀ before after : List Char,
        content ++ commentClosing = before ++ commentClosing ++ after → after = []) :
      Leads false .comment (commentOpening ++ (content ++ commentClosing)) false
  | opening : Leads false (.token .openAction) actionOpening true
  | gap {c : Char} (blank : isGap c = true) : Leads true .gap [c] true
  | inner {token : Token} {written : List Char} (spelled : Inner token written) :
      Leads true (.token token) written true
  | closing : Leads true (.token .closeAction) actionClosing false

inductive Row : Bool → Nat → List Strip → Bool → Nat → Prop
  | nil (inside : Bool) (position : Nat) : Row inside position [] inside position
  | cons {inside between after : Bool} {position stop : Nat} {kind : StripKind}
      {written : List Char} {strips : List Strip} (leads : Leads inside kind written between)
      (others : Row between (position + byteSize written) strips after stop) :
      Row inside position
        (⟨kind, written, ⟨position, position + byteSize written⟩⟩ :: strips) after stop

theorem Row.append {inside between after : Bool} {position middle stop : Nat}
    {strips more : List Strip} (first : Row inside position strips between middle)
    (second : Row between middle more after stop) :
    Row inside position (strips ++ more) after stop := by
  induction first with
  | nil => exact second
  | cons leads _ induction => exact .cons leads (induction second)

/-- A text at a position is a row of strips that has these lexemes. -/
def Laid (inside : Bool) (position : Nat) (text : List Char) (lexemes : List Lexeme)
    (after : Bool) : Prop :=
  ∃ strips, Row inside position strips after (position + byteSize text) ∧
    strips.flatMap Strip.written = text ∧ strips.filterMap Strip.lexeme? = lexemes

theorem laid_nil (inside : Bool) (position : Nat) : Laid inside position [] [] inside :=
  ⟨[], .nil inside position, rfl, rfl⟩

theorem laid_strip {inside after : Bool} {kind : StripKind} {written : List Char}
    (leads : Leads inside kind written after) (position : Nat) :
    Laid inside position written
      (Strip.lexeme? ⟨kind, written, ⟨position, position + byteSize written⟩⟩).toList after := by
  refine ⟨[⟨kind, written, ⟨position, position + byteSize written⟩⟩], .cons leads (.nil _ _), ?_, ?_⟩
  · simp
  · cases kind <;> rfl

theorem Laid.append {inside between after : Bool} {position : Nat} {text later : List Char}
    {lexemes more : List Lexeme} (first : Laid inside position text lexemes between)
    (second : Laid between (position + byteSize text) later more after) :
    Laid inside position (text ++ later) (lexemes ++ more) after := by
  obtain ⟨strips, row, rfl, rfl⟩ := first
  obtain ⟨others, further, rfl, rfl⟩ := second
  refine ⟨strips ++ others, ?_, List.flatMap_append, List.filterMap_append⟩
  rw [byteSize_append, ← Nat.add_assoc]
  exact row.append further

theorem pathNames_written (text : List Char) :
    ∀ c ∈ text.take (pathNames text).2, c = '.' ∨ continuesName c := by
  fun_induction pathNames text with
  | case1 first rest starts count names length read induction =>
      rw [read] at induction
      have taken : rest.takeWhile continuesName = rest.take count :=
        List.prefix_iff_eq_take.mp (List.takeWhile_prefix continuesName)
      have spelled : ('.' :: first :: rest).take (length + count + 2) =
          '.' :: first :: (rest.take count ++ (rest.drop count).take length) := by
        rw [List.take_succ_cons, List.take_succ_cons, Nat.add_comm length, List.take_add]
      intro c member
      rw [spelled, ← taken] at member
      rcases List.mem_cons.mp member with point | member
      · exact Or.inl point
      · rcases List.mem_cons.mp member with rfl | member
        · exact Or.inr (continuesName_of_startsName starts)
        · rcases List.mem_append.mp member with inName | later
          · exact Or.inr (List.all_eq_true.mp List.all_takeWhile c inName)
          · exact induction c later
  | case2 first rest starts => simp
  | case3 text other => simp

theorem noBrace_of_written {written : List Char}
    (plain : ∀ c ∈ written, c = '.' ∨ continuesName c) : '\x7d' ∉ written := by
  intro member
  rcases plain _ member with point | continues
  · exact absurd point (by decide)
  · exact absurd continues (by decide)

theorem stringContent_written {rest content : List Char} {length : Nat}
    (read : stringContent rest = .ok (content, length)) :
    ∃ body, rest.take length = body ++ ['"'] := by
  fun_induction stringContent rest generalizing content length with
  | case1 => cases read
  | case2 rest =>
      cases read
      exact ⟨[], rfl⟩
  | case3 => cases read
  | case4 c rest notFeed others count taken induction =>
      cases read
      obtain ⟨body, same⟩ := induction taken
      refine ⟨'\\' :: c :: body, ?_⟩
      rw [List.take_succ_cons, List.take_succ_cons, same]
      rfl
  | case5 => cases read
  | case6 => cases read
  | case7 c rest _ _ _ _ others count taken induction =>
      cases read
      obtain ⟨body, same⟩ := induction taken
      refine ⟨c :: body, ?_⟩
      rw [List.take_succ_cons, same]
      rfl
  | case8 => cases read

theorem nameToken_isInner (name : String) : (nameToken name).isInner = true := by
  rw [nameToken]
  cases Keyword.ofSpelling? name <;> rfl

theorem tokenAt_inner {first : Char} {rest : List Char} {token : Token} {count : Nat}
    (read : tokenAt first rest = .ok (token, count)) : Inner token (first :: rest.take count) := by
  by_cases starts : startsName first
  · rw [tokenAt_name starts] at read
    cases read
    have taken : rest.takeWhile continuesName = rest.take (nameLength rest) :=
      List.prefix_iff_eq_take.mp (List.takeWhile_prefix continuesName)
    refine .plain (nameToken_isInner _) nofun (noBrace_of_written ?_)
    refine List.forall_mem_cons.mpr ⟨Or.inr (continuesName_of_startsName starts), ?_⟩
    intro c member
    rw [← taken] at member
    exact Or.inr (List.all_eq_true.mp List.all_takeWhile c member)
  · unfold tokenAt at read
    rw [if_neg starts] at read
    split at read
    · cases read
      refine .plain rfl nofun (noBrace_of_written ?_)
      refine List.forall_mem_cons.mpr ⟨Or.inl rfl, ?_⟩
      -- the first point is counted among the names
      intro c member
      apply pathNames_written ('.' :: rest) c
      cases size : (pathNames ('.' :: rest)).2 with
      | zero =>
          rw [size] at member
          cases member
      | succ length =>
          rw [size] at member
          rw [List.take_succ_cons]
          exact List.mem_cons_of_mem _ member
    · cases read
      refine .plain rfl nofun ?_
      apply List.not_mem_cons_of_ne_of_not_mem (by decide)
      exact noBrace_of_written (pathNames_written rest)
    · split at read
      · rename_i content length taken
        cases read
        obtain ⟨body, same⟩ := stringContent_written taken
        rw [same]
        exact .quoted _ body
      · cases read
    · cases read

theorem actionLexemes_laid {position : Nat} {text : List Char} {lexemes : List Lexeme}
    (read : actionLexemes position text = .ok lexemes) : Laid true position text lexemes true := by
  fun_induction actionLexemes position text generalizing lexemes with
  | case1 position =>
      cases read
      exact laid_nil true position
  | case2 position first rest gap induction =>
      exact (laid_strip (.gap gap) position).append (induction read)
  | case3 position first rest gap token count taken stop =>
      rename_i induction
      cases inner : actionLexemes stop (rest.drop count) with
      | error error =>
          rw [inner] at read
          cases read
      | ok others =>
          rw [inner] at read
          cases read
          have strip := laid_strip (.inner (tokenAt_inner taken)) position
          have whole := strip.append (induction inner)
          rw [List.cons_append, List.take_append_drop] at whole
          exact whole
  | case4 position first rest gap count failed => cases read

theorem actionLength?_reaches {inString : Bool} {text : List Char} {count : Nat}
    (reaches : actionLength? inString text = some count) :
    text.drop count = actionClosing ++ text.drop (count + 2) := by
  fun_induction actionLength? inString text generalizing count with
  | case1 => cases reaches
  | case2 c rest induction =>
      obtain ⟨length, inner, rfl⟩ := Option.map_eq_some_iff.mp reaches
      exact induction inner
  | case3 =>
      cases reaches
      rfl
  | case4 inString c rest _ _ induction =>
      obtain ⟨length, inner, rfl⟩ := Option.map_eq_some_iff.mp reaches
      exact induction inner

theorem byteSize_comment (content : List Char) :
    byteSize (commentOpening ++ (content ++ commentClosing)) = byteSize content + 8 := by
  have marks : byteSize commentOpening = 4 ∧ byteSize commentClosing = 4 := by decide
  rw [byteSize_append, byteSize_append, marks.1, marks.2]
  omega

theorem lexemesFrom_laid {position : Nat} {text : List Char} {lexemes : List Lexeme}
    (read : lexemesFrom position text = .ok lexemes) :
    Laid false position text lexemes false := by
  fun_induction lexemesFrom position text generalizing lexemes with
  | case1 position =>
      cases read
      exact laid_nil false position
  | case2 => cases read
  | case3 position rest comment later found induction =>
      have strip := laid_strip (.comment fun _ _ => Text.cut?_earliest found) position
      rw [Nat.add_assoc, ← byteSize_comment] at induction read
      have whole := strip.append (induction read)
      have shape : commentOpening ++ (comment ++ commentClosing) ++ later =
          '\x7b' :: '\x7b' :: '/' :: '*' :: rest := by
        rw [Text.eq_of_cut? found]
        simp [commentOpening]
      rw [shape] at whole
      exact whole
  | case4 => cases read
  | case5 position rest noComment count reaches inside closing =>
      rename_i induction
      cases contents : actionLexemes (position + 2) inside with
      | error error =>
          rw [contents] at read
          cases read
      | ok action =>
          cases others : lexemesFrom (closing + 2) (rest.drop (count + 2)) with
          | error error =>
              rw [contents, others] at read
              cases read
          | ok later =>
              rw [contents, others] at read
              cases read
              have ending := (laid_strip .closing closing).append (induction others)
              have whole := (laid_strip .opening position).append
                ((actionLexemes_laid contents).append ending)
              have shape : actionOpening ++ (inside ++ (actionClosing ++ rest.drop (count + 2))) =
                  '\x7b' :: '\x7b' :: rest := by
                rw [← actionLength?_reaches reaches, List.take_append_drop]
                rfl
              rw [shape] at whole
              exact whole
  | case6 position first rest noComment noAction count content stop =>
      rename_i induction
      cases others : lexemesFrom stop (rest.drop count) with
      | error error =>
          rw [others] at read
          cases read
      | ok later =>
          rw [others] at read
          cases read
          have closed : ¬ actionOpening <+: first :: rest := by
            rintro ⟨more, same⟩
            obtain ⟨rfl, rfl⟩ := List.cons.inj same
            exact noAction more rfl rfl
          have ends : TextEnds content (rest.drop count) :=
            textEnds_cons closed (textEnds_taken rest)
          have noOpening : ¬ actionOpening <:+: content :=
            fun found => ends.plain (found.trans (List.prefix_append _ _).isInfix)
          have nonempty : content ≠ [] := List.cons_ne_nil _ _
          have whole := (laid_strip (.text nonempty noOpening) position).append (induction others)
          rw [List.cons_append, List.take_append_drop] at whole
          exact whole

end Language

end PageAssembly
