import PageAssembly.Proofs.Language.Strips

/-!
What a row of strips says of its parts. Each strip stands where those before it end, and what leads
to it and from it is known; so the strips of a row are in order and leave out nothing, and those
between the braces of an action are tokens and blanks.
-/

namespace PageAssembly

namespace Text

theorem byteSize_pos {text : List Char} (nonempty : text ≠ []) : 0 < byteSize text := by
  obtain ⟨c, rest, rfl⟩ := List.exists_cons_of_ne_nil nonempty
  exact Nat.add_pos_left c.utf8Size_pos _

end Text

namespace Language

open Text (byteSize byteSize_append)

/-- Actions are opened and closed in turn; texts stand outside of them and all other tokens inside.
-/
def Alternate : (inside : Bool) → List Token → Prop
  | inside, [] => inside = false
  | false, .text _ :: tokens => Alternate false tokens
  | false, .openAction :: tokens => Alternate true tokens
  | false, _ :: _ => False
  | true, .closeAction :: tokens => Alternate false tokens
  | true, token :: tokens => token.isInner = true ∧ Alternate true tokens

structure ActionIn (lexemes : List Lexeme) (opening : Lexeme) (content : List Lexeme)
    (closing : Lexeme) : Prop where
  stands : opening :: (content ++ [closing]) <:+: lexemes
  opens : opening.token = .openAction
  closes : closing.token = .closeAction
  first : ∀ lexeme ∈ content, lexeme.token ≠ .closeAction

section

variable {inside after : Bool} {written : List Char}

theorem Leads.nonempty {kind : StripKind} (leads : Leads inside kind written after) :
    written ≠ [] := by
  cases leads with
  | text nonempty _ => exact nonempty
  | comment => exact List.cons_ne_nil _ _
  | opening => exact List.cons_ne_nil _ _
  | gap => exact List.cons_ne_nil _ _
  | inner spelled =>
      cases spelled with
      | plain _ nonempty _ => exact nonempty
      | quoted => exact List.cons_ne_nil _ _
  | closing => exact List.cons_ne_nil _ _

theorem Leads.of_text {content : String}
    (leads : Leads inside (.token (.text content)) written after) :
    inside = false ∧ after = false ∧ content = String.ofList written ∧ written ≠ [] ∧
      ¬ actionOpening <:+: written := by
  cases leads with
  | text nonempty closed => exact ⟨rfl, rfl, rfl, nonempty, closed⟩
  | inner spelled =>
      cases spelled with
      | plain inner => cases inner

theorem Leads.of_openAction (leads : Leads inside (.token .openAction) written after) :
    inside = false ∧ after = true ∧ written = actionOpening := by
  cases leads with
  | opening => exact ⟨rfl, rfl, rfl⟩
  | inner spelled =>
      cases spelled with
      | plain inner => cases inner

theorem Leads.of_closeAction (leads : Leads inside (.token .closeAction) written after) :
    inside = true ∧ after = false ∧ written = actionClosing := by
  cases leads with
  | closing => exact ⟨rfl, rfl, rfl⟩
  | inner spelled =>
      cases spelled with
      | plain inner => cases inner

theorem Leads.of_gap (leads : Leads inside .gap written after) :
    inside = true ∧ after = true ∧ ∃ c, isGap c = true ∧ written = [c] := by
  cases leads with
  | gap blank => exact ⟨rfl, rfl, _, blank, rfl⟩

theorem Leads.of_comment (leads : Leads inside .comment written after) :
    inside = false ∧ after = false ∧ ∃ content,
      written = commentOpening ++ (content ++ commentClosing) ∧
        ∀ earlier later : List Char,
          content ++ commentClosing = earlier ++ commentClosing ++ later → later = [] := by
  cases leads with
  | comment ends => exact ⟨rfl, rfl, _, rfl, ends⟩

theorem Leads.stays {kind : StripKind} (leads : Leads true kind written after)
    (unclosed : kind ≠ .token .closeAction) : after = true := by
  cases leads with
  | gap => rfl
  | inner => rfl
  | closing => exact absurd rfl unclosed

/-- Inside of an action closing braces stand in strings only. -/
theorem Leads.quoted_of_brace {kind : StripKind} (leads : Leads true kind written true)
    (member : '\x7d' ∈ written) : ∃ text body, kind = .token (.quoted text) ∧
      written = '"' :: (body ++ ['"']) := by
  cases leads with
  | gap blank =>
      obtain rfl := List.mem_singleton.mp member
      cases blank
  | inner spelled =>
      cases spelled with
      | plain _ _ noBrace => exact absurd member noBrace
      | quoted text body => exact ⟨text, body, rfl, rfl⟩

end

theorem lexeme?_eq_some {strip : Strip} {lexeme : Lexeme} :
    strip.lexeme? = some lexeme ↔ strip.kind = .token lexeme.token ∧ strip.span = lexeme.span := by
  obtain ⟨kind, written, span⟩ := strip
  obtain ⟨token, covered⟩ := lexeme
  cases kind <;> simp [Strip.lexeme?]

section

variable {inside after : Bool} {position stop : Nat} {strips : List Strip}

theorem Row.stop_eq (row : Row inside position strips after stop) :
    stop = position + byteSize (strips.flatMap Strip.written) := by
  induction row with
  | nil => rfl
  | cons leads _ induction => rw [List.flatMap_cons, byteSize_append, induction, Nat.add_assoc]

theorem Row.parts {earlier later : List Strip} {strip : Strip}
    (row : Row inside position (earlier ++ strip :: later) after stop) :
    ∃ before behind, Row inside position earlier before strip.span.start ∧
      Leads before strip.kind strip.written behind ∧
      strip.span.stop = strip.span.start + byteSize strip.written ∧
      Row behind strip.span.stop later after stop := by
  induction earlier generalizing inside position with
  | nil =>
      cases row with
      | cons leads others => exact ⟨_, _, .nil _ _, leads, rfl, others⟩
  | cons first earlier induction =>
      cases row with
      | cons leads others =>
          obtain ⟨before, behind, start, here, size, rest⟩ := induction others
          exact ⟨before, behind, .cons leads start, here, size, rest⟩

theorem Row.bounds (row : Row inside position strips after stop) {strip : Strip}
    (member : strip ∈ strips) : position ≤ strip.span.start ∧
      strip.span.start < strip.span.stop ∧ strip.span.stop ≤ stop := by
  obtain ⟨earlier, later, rfl⟩ := List.append_of_mem member
  obtain ⟨before, behind, start, leads, size, rest⟩ := row.parts
  have positive := Text.byteSize_pos leads.nonempty
  have first := start.stop_eq
  have last := rest.stop_eq
  omega

theorem Row.leads (row : Row inside position strips after stop) {strip : Strip}
    (member : strip ∈ strips) :
    ∃ before behind, Leads before strip.kind strip.written behind := by
  obtain ⟨earlier, later, rfl⟩ := List.append_of_mem member
  obtain ⟨before, behind, _, leads, _, _⟩ := row.parts
  exact ⟨before, behind, leads⟩

theorem Row.apart (row : Row inside position strips after stop) {strip other : Strip}
    (member : strip ∈ strips) (also : other ∈ strips) (different : other ≠ strip) :
    other.span.stop ≤ strip.span.start ∨ strip.span.stop ≤ other.span.start := by
  obtain ⟨earlier, later, rfl⟩ := List.append_of_mem member
  obtain ⟨_, _, first, _, _, rest⟩ := row.parts
  rcases List.mem_append.mp also with before | behind
  · exact Or.inl (first.bounds before).2.2
  · rcases List.mem_cons.mp behind with same | behind
    · exact absurd same different
    · exact Or.inr (rest.bounds behind).1

theorem Row.ordered (row : Row inside position strips after stop) :
    strips.Pairwise fun earlier later => earlier.span.stop ≤ later.span.start := by
  induction row with
  | nil => exact .nil
  | cons leads others induction =>
      refine List.pairwise_cons.mpr ⟨?_, induction⟩
      intro strip member
      exact (others.bounds member).1

theorem Row.covers (row : Row inside position strips after stop) {place : Nat}
    (low : position ≤ place) (high : place < stop) :
    ∃ strip ∈ strips, strip.span.start ≤ place ∧ place < strip.span.stop := by
  induction row with
  | nil => omega
  | @cons _ _ _ position _ kind written strips leads others induction =>
      by_cases here : place < position + byteSize written
      · exact ⟨_, List.mem_cons_self, low, here⟩
      · obtain ⟨strip, member, covered⟩ := induction (by omega) high
        exact ⟨strip, List.mem_cons_of_mem _ member, covered⟩

theorem Row.stays (row : Row true position strips after stop)
    (unclosed : ∀ strip ∈ strips, strip.kind ≠ .token .closeAction) :
    after = true ∧ ∀ strip ∈ strips, Leads true strip.kind strip.written true := by
  induction strips generalizing position with
  | nil =>
      cases row
      exact ⟨rfl, nofun⟩
  | cons strip strips induction =>
      obtain ⟨here, others⟩ := List.forall_mem_cons.mp unclosed
      cases row with
      | cons leads rest =>
          obtain rfl := leads.stays here
          obtain ⟨last, all⟩ := induction rest others
          exact ⟨last, List.forall_mem_cons.mpr ⟨leads, all⟩⟩

theorem alternate_inner {token : Token} {tokens : List Token} (inner : token.isInner = true)
    (rest : Alternate true tokens) : Alternate true (token :: tokens) := by
  cases token with
  | closeAction => cases inner
  | text => cases inner
  | openAction => cases inner
  | keyword => exact ⟨rfl, rest⟩
  | field => exact ⟨rfl, rest⟩
  | root => exact ⟨rfl, rest⟩
  | identifier => exact ⟨rfl, rest⟩
  | quoted => exact ⟨rfl, rest⟩

theorem Row.alternate (row : Row inside position strips false stop) :
    Alternate inside ((strips.filterMap Strip.lexeme?).map Lexeme.token) := by
  induction strips generalizing inside position with
  | nil =>
      cases row
      rfl
  | cons strip strips induction =>
      cases row with
      | cons leads others =>
          have rest := induction others
          cases leads with
          | text => exact rest
          | comment => exact rest
          | opening => exact rest
          | gap => exact rest
          | closing => exact rest
          | inner spelled =>
              apply alternate_inner ?_ rest
              cases spelled with
              | plain inner => exact inner
              | quoted => rfl

theorem Row.action (row : Row inside position strips after stop) {opening closing : Lexeme}
    {content : List Lexeme}
    (action : ActionIn (strips.filterMap Strip.lexeme?) opening content closing) :
    ∃ before opened inner closed later, strips = before ++ opened :: (inner ++ closed :: later) ∧
      opened.lexeme? = some opening ∧ closed.lexeme? = some closing ∧
      inner.filterMap Strip.lexeme? = content ∧
      (∀ strip ∈ inner, Leads true strip.kind strip.written true) ∧
      Row true opening.span.stop inner true closing.span.start := by
  obtain ⟨earlier, later, same⟩ := action.stands
  rw [List.append_assoc, eq_comm, List.filterMap_eq_append_iff] at same
  obtain ⟨before, rest, rfl, -, same⟩ := same
  rw [List.cons_append, List.append_assoc, List.filterMap_eq_cons_iff] at same
  obtain ⟨skipped, opened, rest, rfl, -, isOpening, same⟩ := same
  rw [List.filterMap_eq_append_iff] at same
  obtain ⟨inner, rest, rfl, isContent, same⟩ := same
  rw [List.singleton_append, List.filterMap_eq_cons_iff] at same
  obtain ⟨gaps, closed, behind, rfl, silent, isClosing, -⟩ := same
  have between : (inner ++ gaps).filterMap Strip.lexeme? = content := by
    rw [List.filterMap_append, isContent, List.filterMap_eq_nil_iff.mpr silent, List.append_nil]
  have shape : before ++ (skipped ++ opened :: (inner ++ (gaps ++ closed :: behind))) =
      (before ++ skipped) ++ opened :: ((inner ++ gaps) ++ closed :: behind) := by
    simp
  rw [shape] at row ⊢
  refine ⟨_, opened, inner ++ gaps, closed, behind, rfl, isOpening, isClosing, between, ?_⟩
  obtain ⟨openKind, openSpan⟩ := lexeme?_eq_some.mp isOpening
  obtain ⟨closeKind, closeSpan⟩ := lexeme?_eq_some.mp isClosing
  obtain ⟨_, entered, _, leads, _, contents⟩ := row.parts
  rw [openKind, action.opens] at leads
  obtain ⟨-, rfl, -⟩ := leads.of_openAction
  obtain ⟨left, _, inside, _, _, _⟩ := contents.parts
  have unclosed : ∀ strip ∈ inner ++ gaps, strip.kind ≠ .token .closeAction := by
    intro strip member closes
    have lexeme : strip.lexeme? = some ⟨.closeAction, strip.span⟩ :=
      lexeme?_eq_some.mpr ⟨closes, rfl⟩
    apply action.first ⟨.closeAction, strip.span⟩ ?_ rfl
    rw [← between]
    exact List.mem_filterMap.mpr ⟨strip, member, lexeme⟩
  obtain ⟨rfl, stays⟩ := inside.stays unclosed
  rw [← openSpan, ← closeSpan]
  exact ⟨stays, inside⟩

theorem Row.outside (row : Row inside position strips after stop) {strip : Strip}
    (member : strip ∈ strips) (kind : strip.kind = .comment) {opening closing : Lexeme}
    {content : List Lexeme}
    (action : ActionIn (strips.filterMap Strip.lexeme?) opening content closing) :
    closing.span.stop ≤ strip.span.start ∨ strip.span.stop ≤ opening.span.start := by
  obtain ⟨before, opened, inner, closed, later, rfl, isOpening, isClosing, -, stays, -⟩ :=
    row.action action
  obtain ⟨openKind, openSpan⟩ := lexeme?_eq_some.mp isOpening
  obtain ⟨closeKind, closeSpan⟩ := lexeme?_eq_some.mp isClosing
  obtain ⟨_, _, first, _, _, contents⟩ := row.parts
  obtain ⟨_, _, _, _, _, rest⟩ := contents.parts
  rw [← openSpan, ← closeSpan]
  rcases List.mem_append.mp member with there | there
  · exact Or.inr (first.bounds there).2.2
  · rcases List.mem_cons.mp there with rfl | there
    · rw [kind] at openKind
      cases openKind
    · rcases List.mem_append.mp there with there | there
      · have leads := stays strip there
        rw [kind] at leads
        cases leads
      · rcases List.mem_cons.mp there with rfl | there
        · rw [kind] at closeKind
          cases closeKind
        · exact Or.inl (rest.bounds there).1

/-- A row that leads inside was there all along, or an action was opened last. -/
theorem Row.opened (row : Row inside position strips true stop) :
    (inside = true ∧ ∀ strip ∈ strips, strip.kind ≠ .token .closeAction) ∨
      ∃ before opened inner, strips = before ++ opened :: inner ∧
        opened.kind = .token .openAction ∧
        ∀ strip ∈ inner, strip.kind ≠ .token .closeAction := by
  induction strips generalizing inside position with
  | nil =>
      cases row
      exact Or.inl ⟨rfl, nofun⟩
  | cons strip strips induction =>
      cases row with
      | cons leads others =>
          rcases induction others with ⟨rfl, unclosed⟩ | ⟨before, opened, inner, rfl, opens⟩
          · cases leads with
            | opening => exact Or.inr ⟨[], _, strips, rfl, rfl, unclosed⟩
            | gap => exact Or.inl ⟨rfl, List.forall_mem_cons.mpr ⟨nofun, unclosed⟩⟩
            | inner spelled =>
                refine Or.inl ⟨rfl, List.forall_mem_cons.mpr ⟨?_, unclosed⟩⟩
                rintro ⟨⟩
                cases spelled with
                | plain inner => cases inner
          · exact Or.inr ⟨_ :: before, opened, inner, rfl, opens⟩

theorem Row.closed (row : Row true position strips false stop) :
    ∃ inner closed later, strips = inner ++ closed :: later ∧
      closed.kind = .token .closeAction ∧ ∀ strip ∈ inner, strip.kind ≠ .token .closeAction := by
  induction strips generalizing position with
  | nil => cases row
  | cons strip strips induction =>
      by_cases closes : strip.kind = .token .closeAction
      · exact ⟨[], strip, strips, rfl, closes, nofun⟩
      · cases row with
        | cons leads others =>
            obtain rfl := leads.stays closes
            obtain ⟨inner, closed, later, rfl, isClosing, unclosed⟩ := induction others
            exact ⟨_ :: inner, closed, later, rfl, isClosing,
              List.forall_mem_cons.mpr ⟨closes, unclosed⟩⟩

theorem Row.enclosed {earlier later : List Strip} {strip : Strip}
    (row : Row false position (earlier ++ strip :: later) false stop) (kind : strip.kind = .gap) :
    ∃ opening content closing,
      ActionIn ((earlier ++ strip :: later).filterMap Strip.lexeme?) opening content closing ∧
        opening.span.stop ≤ strip.span.start ∧ strip.span.stop ≤ closing.span.start := by
  obtain ⟨_, _, first, leads, _, rest⟩ := row.parts
  rw [kind] at leads
  obtain ⟨rfl, rfl, -⟩ := leads.of_gap
  rcases first.opened with ⟨outside, -⟩ | ⟨before, opened, inner, rfl, opens, unclosed⟩
  · cases outside
  obtain ⟨more, closed, behind, rfl, closes, stillUnclosed⟩ := rest.closed
  have isOpening : opened.lexeme? = some ⟨.openAction, opened.span⟩ :=
    lexeme?_eq_some.mpr ⟨opens, rfl⟩
  have isClosing : closed.lexeme? = some ⟨.closeAction, closed.span⟩ :=
    lexeme?_eq_some.mpr ⟨closes, rfl⟩
  refine ⟨⟨.openAction, opened.span⟩, (inner ++ strip :: more).filterMap Strip.lexeme?,
    ⟨.closeAction, closed.span⟩, ⟨?_, rfl, rfl, ?_⟩, ?_, ?_⟩
  · have part : opened :: ((inner ++ strip :: more) ++ [closed]) <:+:
        (before ++ opened :: inner) ++ strip :: (more ++ closed :: behind) :=
      ⟨before, behind, by simp⟩
    have lexemes := part.filterMap Strip.lexeme?
    rw [List.filterMap_cons_some isOpening, List.filterMap_append,
      List.filterMap_cons_some isClosing] at lexemes
    exact lexemes
  · intro lexeme member closesToo
    obtain ⟨known, among, same⟩ := List.mem_filterMap.mp member
    obtain ⟨token, -⟩ := lexeme?_eq_some.mp same
    rw [closesToo] at token
    rcases List.mem_append.mp among with there | there
    · exact unclosed known there token
    · rcases List.mem_cons.mp there with rfl | there
      · rw [kind] at token
        cases token
      · exact stillUnclosed known there token
  · exact (first.bounds (List.mem_append_right _ List.mem_cons_self)).2.2
  · exact (rest.bounds (List.mem_append_right _ List.mem_cons_self)).1

end

end Language

end PageAssembly
