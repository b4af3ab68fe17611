import PageAssembly.Proofs.Language.Correspondence
import PageAssembly.Proofs.Language.Parting
import PageAssembly.Proofs.Language.Rows

/-!
A comment that is put into a source outside of its actions and comments. It stands between two
pieces or parts a text in two, and no other piece is read differently; so if a reading takes the
parts of a text as the text, it cannot tell the two sources from each other.
-/

namespace PageAssembly.Language

open Text (byteSize byteSize_append)

/-- The place is in no action and in no comment of the source: it may be in a text, or where an
action or a comment begins or ends. -/
def Outside (source : List Char) (place : Nat) : Prop :=
  ∃ pieces, Readable pieces ∧ written pieces = source ∧
    ∀ earlier piece later, pieces = earlier ++ piece :: later → piece.content? = none →
      place ≤ byteSize (written earlier) ∨
        byteSize (written earlier) + byteSize piece.written ≤ place

theorem outside_text {earlier later : List Piece} {content : String} {left right : List Char}
    (readable : Readable (earlier ++ .text content :: later))
    (parted : content.toList = left ++ right) :
    Outside (written (earlier ++ .text content :: later)) (byteSize (written earlier ++ left)) := by
  refine ⟨_, readable, rfl, fun before piece behind same noText => ?_⟩
  rw [byteSize_append]
  rcases List.append_eq_append_iff.mp same.symm with ⟨between, rfl, rest⟩ | ⟨between, rfl, rest⟩
  · cases between with
    | nil =>
        obtain ⟨rfl, -⟩ := List.cons.inj rest
        cases noText
    | cons other between =>
        obtain ⟨rfl, -⟩ := List.cons.inj rest
        refine Or.inr ?_
        rw [written_append, written_cons, byteSize_append, byteSize_append]
        omega
  · cases between with
    | nil =>
        obtain ⟨rfl, -⟩ := List.cons.inj rest
        cases noText
    | cons other between =>
        obtain ⟨rfl, -⟩ := List.cons.inj rest
        refine Or.inl ?_
        rw [written_append, written_cons, Piece.written, parted, byteSize_append, byteSize_append,
          byteSize_append]
        omega

theorem content_of_parted {piece : Piece} {start : Nat} {left right : List Char}
    (spelled : piece.written = left ++ right) (someLeft : left ≠ []) (someRight : right ≠ [])
    (outside : piece.content? = none → start + byteSize left ≤ start ∨
      start + byteSize piece.written ≤ start + byteSize left) :
    ∃ content, piece = .text content := by
  have sizes := congrArg byteSize spelled
  have positive := Text.byteSize_pos someLeft
  have positiveToo := Text.byteSize_pos someRight
  rw [byteSize_append] at sizes
  cases piece with
  | text content => exact ⟨content, rfl⟩
  | _ =>
      exfalso
      have apart := outside rfl
      omega

def commented (before comment after : List Char) : String :=
  String.ofList (before ++ ((Piece.comment comment).written ++ after))

/-- No mark that closes a comment begins in the content and ends behind it. -/
theorem valid_comment {comment : List Char} (unclosed : ¬ commentClosing <:+: comment) :
    (Piece.comment comment).Valid := by
  intro before after same
  rcases List.append_eq_append_iff.mp same with ⟨begun, parted, closing⟩ | ⟨more, parted, -⟩
  · -- `begun` is the part of the mark that would stand behind the content
    have reversed := congrArg List.reverse parted
    simp only [commentClosing, List.reverse_append, List.reverse_cons, List.reverse_nil,
      List.nil_append, List.cons_append] at closing reversed
    rcases begun with _ | ⟨first, _ | ⟨second, _ | ⟨third, _ | ⟨fourth, begun⟩⟩⟩⟩
    · rw [List.append_nil] at parted
      exact absurd ⟨before, [], by rw [parted, List.append_nil]⟩ unclosed
    · obtain ⟨rfl, -⟩ := List.cons.inj closing
      cases (List.cons.inj reversed).1
    · simp only [List.cons_append, List.cons.injEq] at closing
      obtain ⟨-, rfl, -⟩ := closing
      cases (List.cons.inj reversed).1
    · simp only [List.cons_append, List.cons.injEq] at closing
      obtain ⟨-, rfl, rfl, -⟩ := closing
      cases (List.cons.inj (List.cons.inj reversed).2).1
    · have sizes := congrArg List.length closing
      simp only [List.length_append, List.length_cons, List.length_nil] at sizes
      exact List.length_eq_zero_iff.mp (by omega)
  · exact absurd ⟨before, more, parted.symm⟩ unclosed

theorem Readable.insert {pieces later : List Piece} {piece : Piece} (left : Readable pieces)
    (closed : (written pieces).getLast? ≠ some '\x7b') (noText : piece.content? = none)
    (valid : piece.Valid) (right : Readable later) : Readable (pieces ++ piece :: later) := by
  have isNext : ∀ next ∈ (piece :: later).head?, next.content? = none := by
    intro next first
    obtain rfl := Option.some.inj first
    exact noText
  induction pieces with
  | nil => exact readable_cons valid noText right
  | cons first pieces induction =>
      obtain ⟨validFirst, apart, others⟩ := left
      have behind : (written pieces).getLast? ≠ some '\x7b' := by
        intro opened
        apply closed
        rw [written_cons, List.getLast?_append, opened]
        rfl
      refine ⟨validFirst, fun content member => ?_, induction others behind⟩
      obtain ⟨noText, alone⟩ := apart content member
      constructor
      · cases pieces with
        | nil => exact isNext
        | cons next pieces => exact noText
      · intro isOpen
        obtain rfl := alone isOpen
        cases first with
        | text text =>
            obtain rfl := Option.some.inj member
            rw [written_single] at closed
            exact absurd isOpen closed
        | _ => cases member

theorem Readable.shorten {pieces later : List Piece} {content shorter : String}
    (readable : Readable (pieces ++ .text content :: later)) (plain : IsPlain shorter) :
    Readable (pieces ++ [.text shorter]) := by
  induction pieces with
  | nil => exact ⟨plain, fun _ _ => ⟨nofun, fun _ => rfl⟩, trivial⟩
  | cons first pieces induction =>
      obtain ⟨valid, apart, others⟩ := readable
      refine ⟨valid, fun text member => ?_, induction others⟩
      obtain ⟨noText, alone⟩ := apart text member
      constructor
      · cases pieces with
        | nil => cases noText _ rfl
        | cons next pieces => exact noText
      · intro isOpen
        cases pieces <;> cases alone isOpen

theorem Readable.begin_later {pieces : List Piece} {dropped content : String}
    (readable : Readable (.text (dropped ++ content) :: pieces)) (nonempty : content ≠ "") :
    Readable (.text content :: pieces) := by
  obtain ⟨plain, apart, others⟩ := readable
  obtain ⟨noText, alone⟩ := apart (dropped ++ content) rfl
  refine ⟨⟨nonempty, fun found => plain.2 ?_⟩, fun text member => ?_, others⟩
  · rw [String.toList_append]
    exact found.trans (List.suffix_append _ _).isInfix
  · obtain rfl := Option.some.inj member
    refine ⟨noText, fun isOpen => alone ?_⟩
    rw [EndsOpen] at isOpen ⊢
    rw [String.toList_append, List.getLast?_append, isOpen]
    rfl

theorem Readable.part {pieces later : List Piece} {piece : Piece} {first second : String}
    (readable : Readable (pieces ++ .text (first ++ second) :: later)) (someFirst : first ≠ "")
    (someSecond : second ≠ "") (closed : (written pieces ++ first.toList).getLast? ≠ some '\x7b')
    (noText : piece.content? = none) (valid : piece.Valid) :
    Readable (pieces ++ [.text first] ++ piece :: .text second :: later) := by
  have plain : IsPlain first := by
    refine ⟨someFirst, fun found => readable.right.1.2 ?_⟩
    rw [String.toList_append]
    exact found.trans (List.prefix_append _ _).isInfix
  apply Readable.insert (readable.shorten plain) ?_ noText valid
    (readable.right.begin_later someSecond)
  rw [written_append, written_single]
  exact closed

section

variable {like : Likeness} (anywhere : ∀ position also, like.place position also)
  (parts : ∀ {nodes others : Body} (span first second : Span) (left right : String),
    like.body nodes others → like.body (nodes ++ [.text span (left ++ right)])
      (others ++ [.text first left, .text second right]))

include parts in
theorem step_parted {one other next : State} (alike : like.States one other) {left right : String}
    {span first second : Span} (stepped : one.step ⟨.text (left ++ right), span⟩ = some next) :
    ∃ final, other.steps [⟨.text left, first⟩, ⟨.text right, second⟩] = some final ∧
      like.States next final := by
  obtain ⟨phase, nodes, frames⟩ := one
  obtain ⟨otherPhase, others, otherFrames⟩ := other
  have phases := alike.phase
  simp only at phases
  cases phases with
  | between =>
      cases stepped
      refine ⟨_, rfl, .between, ?_, alike.frames⟩
      have body := parts span first second left right alike.nodes
      simp only [State.push, List.append_assoc, List.singleton_append]
      exact body
  | name starts naming => cases naming <;> cases stepped
  | _ => cases stepped

include anywhere parts in
theorem derives_parted {earlier others later more : List Lexeme} {left right : String}
    {span first second : Span} {nodes : Body}
    (derives : Derives (earlier ++ ⟨.text (left ++ right), span⟩ :: later) nodes)
    (before : earlier.map Lexeme.token = others.map Lexeme.token)
    (behind : later.map Lexeme.token = more.map Lexeme.token) :
    ∃ also, Derives (others ++ ⟨.text left, first⟩ :: ⟨.text right, second⟩ :: more) also ∧
      like.body nodes also := by
  obtain ⟨final, reached, ended, rfl⟩ := derives_iff.mp derives
  rw [State.steps_append] at reached
  obtain ⟨next, toText, reached⟩ := Option.bind_eq_some_iff.mp reached
  rw [State.steps, List.foldlM_cons] at reached
  obtain ⟨behindText, stepped, reached⟩ := Option.bind_eq_some_iff.mp reached
  obtain ⟨otherNext, toParts, alike⟩ := exists_of_rel_some
    (Likeness.steps_alike like.states_initial (like.alike_of_tokens anywhere before)) toText
  obtain ⟨behindParts, passed, alike⟩ := step_parted parts alike stepped
  obtain ⟨last, toEnd, alike⟩ := exists_of_rel_some
    (Likeness.steps_alike alike (like.alike_of_tokens anywhere behind)) reached
  refine ⟨last.nodes, derives_iff.mpr ⟨last, ?_, alike.ended ended, rfl⟩, alike.nodes⟩
  have shape : others ++ ⟨.text left, first⟩ :: ⟨.text right, second⟩ :: more =
      others ++ ([⟨.text left, first⟩, ⟨.text right, second⟩] ++ more) := rfl
  rw [shape, State.steps_append, toParts, Option.bind_some, State.steps_append, passed]
  exact toEnd

include anywhere parts in
/-- With a comment the source is parsed too, to a body that the reading takes for the same. -/
theorem exists_commented {source : String} {body : Body} (parsed : parse source = .ok body)
    {before after comment : List Char} (parted : source.toList = before ++ after)
    (outside : Outside source.toList (byteSize before)) (closed : before.getLast? ≠ some '\x7b')
    (unclosed : ¬ commentClosing <:+: comment) :
    ∃ also, parse (commented before comment after) = .ok also ∧ like.body body also := by
  have valid := valid_comment unclosed
  obtain ⟨pieces, readable, same, outside⟩ := outside
  obtain ⟨lexemes, scanned, derives⟩ := parse_eq_ok_iff.mp parsed
  rw [scan, ← same, lexemesFrom_pieces readable] at scanned
  obtain rfl := Except.ok.inj scanned
  rw [parted] at same
  have scannedOf {others : List Piece} (readable : Readable others)
      (spelled : written others = before ++ ((Piece.comment comment).written ++ after)) :
      scan (commented before comment after) = .ok (lexemesAt 0 others) := by
    rw [scan, commented, String.toList_ofList, ← spelled]
    exact lexemesFrom_pieces readable 0
  rcases exists_parted_at same with ⟨earlier, later, rfl, rfl, rfl⟩ |
    ⟨earlier, piece, later, left, right, rfl, someLeft, someRight, spelled, rfl, rfl⟩
  · -- between two pieces
    have readableNow := Readable.insert readable.left closed rfl valid readable.right
    have scanned := scannedOf readableNow (by rw [written_append, written_cons])
    have tokens : (lexemesAt 0 (earlier ++ later)).map Lexeme.token =
        (lexemesAt 0 (earlier ++ .comment comment :: later)).map Lexeme.token := by
      simp only [lexemesAt_append, lexemesAt, Piece.lexemes, List.nil_append, List.map_append,
        tokens_lexemesAt (0 + _), tokens_lexemesAt (0 + _ + _)]
    obtain ⟨also, derived, alike⟩ :=
      Likeness.derives_alike (like.alike_of_tokens anywhere tokens) derives
    exact ⟨also, parse_eq_ok_iff.mpr ⟨_, scanned, derived⟩, alike⟩
  · -- within a piece, which is a text
    obtain ⟨content, rfl⟩ := content_of_parted spelled someLeft someRight fun noText => by
      rw [← byteSize_append]
      exact outside earlier piece later rfl noText
    obtain ⟨first, rfl⟩ : ∃ first, left = String.toList first := ⟨_, String.toList_ofList.symm⟩
    obtain ⟨second, rfl⟩ : ∃ second, right = String.toList second := ⟨_, String.toList_ofList.symm⟩
    obtain rfl : content = first ++ second := by
      rw [← String.toList_inj, String.toList_append]
      exact spelled
    rw [ne_eq, String.toList_eq_nil_iff] at someLeft someRight
    have scanned := scannedOf (readable.part someLeft someRight closed rfl valid) (by
      simp only [written_append, written_cons, List.append_assoc]
      rfl)
    simp only [lexemesAt_append, lexemesAt, Piece.lexemes, List.append_assoc,
      List.singleton_append, List.nil_append] at derives scanned
    obtain ⟨also, derived, alike⟩ := derives_parted anywhere parts derives rfl
      ((tokens_lexemesAt _ _).trans (tokens_lexemesAt _ _).symm)
    exact ⟨also, parse_eq_ok_iff.mpr ⟨_, scanned, derived⟩, alike⟩

end

end PageAssembly.Language
