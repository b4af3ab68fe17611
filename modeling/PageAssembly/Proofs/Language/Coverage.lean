import PageAssembly.Proofs.Language.Rows
import PageAssembly.Proofs.Text.Encoding

/-!
What the lexemes of a source cover. Their spans follow each other within the source, texts and
braces are what the source has there, actions are closed where the first braces outside of strings
stand, and a byte that no span covers is in a comment between actions or is a blank of an action.
-/

namespace PageAssembly.Language

open Text (byteSize byteSize_append encode encodeString encode_append length_encode)

/-- The bytes that a span covers. -/
def Span.slice (span : Span) (source : Bytes) : Bytes :=
  (source.drop span.start).take (span.stop - span.start)

/-- A comment from `start` on that is closed by what stands at `ending`, where it could be closed
for the first time. It has no byte in common with a lexeme and is not inside of an action. -/
structure CommentAt (source : Bytes) (lexemes : List Lexeme) (start ending : Nat) : Prop where
  opens : Span.slice ⟨start, start + 4⟩ source = encode commentOpening
  closes : Span.slice ⟨ending, ending + 4⟩ source = encode commentClosing
  behind : start + 4 ≤ ending
  first : ∀ place, start + 4 ≤ place →
    Span.slice ⟨place, place + 4⟩ source = encode commentClosing → ending ≤ place
  apart : ∀ lexeme ∈ lexemes, lexeme.span.stop ≤ start ∨ ending + 4 ≤ lexeme.span.start
  outside : ∀ opening content closing, ActionIn lexemes opening content closing →
    closing.span.stop ≤ start ∨ ending + 4 ≤ opening.span.start

/-- The byte is a blank, a tab, or one of those that end a line, and stands between the braces of an
action. -/
structure GapAt (source : Bytes) (lexemes : List Lexeme) (place : Nat) : Prop where
  blank : ∃ byte ∈ ([0x20, 0x09, 0x0d, 0x0a] : Bytes), source[place]? = some byte
  inside : ∃ opening content closing, ActionIn lexemes opening content closing ∧
    opening.span.stop ≤ place ∧ place < closing.span.start

/-- The lexemes account for all bytes of the source. -/
structure Lossless (source : Bytes) (lexemes : List Lexeme) : Prop where
  within : ∀ lexeme ∈ lexemes,
    lexeme.span.start < lexeme.span.stop ∧ lexeme.span.stop ≤ source.length
  ordered : lexemes.Pairwise fun earlier later => earlier.span.stop ≤ later.span.start
  texts : ∀ lexeme ∈ lexemes, ∀ content, lexeme.token = .text content →
    content ≠ "" ∧ lexeme.span.slice source = encodeString content ∧
      ¬ actionOpening <:+: content.toList
  openings : ∀ lexeme ∈ lexemes, lexeme.token = .openAction →
    lexeme.span.slice source = encode actionOpening
  closings : ∀ lexeme ∈ lexemes, lexeme.token = .closeAction →
    lexeme.span.slice source = encode actionClosing
  alternate : Alternate false (lexemes.map Lexeme.token)
  /-- Closing braces before those of an action are in one of its strings. -/
  firstClosing : ∀ opening content closing, ActionIn lexemes opening content closing →
    ∀ place, opening.span.stop ≤ place → place < closing.span.start →
      Span.slice ⟨place, place + 2⟩ source = encode actionClosing →
      ∃ lexeme ∈ content, (∃ text, lexeme.token = .quoted text) ∧
        lexeme.span.start ≤ place ∧ place + 2 ≤ lexeme.span.stop
  covered : ∀ place < source.length,
    (∃ lexeme ∈ lexemes, lexeme.span.start ≤ place ∧ place < lexeme.span.stop) ∨
      (∃ start ending, CommentAt source lexemes start ending ∧
        start ≤ place ∧ place < ending + 4) ∨
      GapAt source lexemes place

theorem slice_encode (earlier part later : List Char) :
    Span.slice ⟨byteSize earlier, byteSize earlier + byteSize part⟩
      (encode (earlier ++ (part ++ later))) = encode part := by
  rw [Span.slice, encode_append, encode_append, List.drop_left' (length_encode earlier),
    Nat.add_sub_cancel_left, List.take_left' (length_encode part)]

theorem slice_behind {earlier : List Char} {place : Nat} (behind : byteSize earlier ≤ place)
    (length : Nat) (later : List Char) :
    Span.slice ⟨place, place + length⟩ (encode (earlier ++ later)) =
      ((encode later).drop (place - byteSize earlier)).take length := by
  rw [Span.slice, encode_append, List.drop_append, List.drop_eq_nil_of_le, List.nil_append,
    length_encode, Nat.add_sub_cancel_left]
  rwa [length_encode]

theorem getElem?_encode {earlier part : List Char} {place : Nat}
    (after : byteSize earlier ≤ place) (before : place < byteSize earlier + byteSize part)
    (later : List Char) :
    (encode (earlier ++ (part ++ later)))[place]? = (encode part)[place - byteSize earlier]? := by
  have within : place - byteSize earlier < (encode part).length := by
    rw [length_encode]
    omega
  rw [encode_append, encode_append, List.getElem?_append_right (by rwa [length_encode]),
    length_encode, List.getElem?_append_left within]

theorem head_of_slice {source : Bytes} {place length : Nat} {byte : UInt8} {bytes : Bytes}
    (slice : Span.slice ⟨place, place + length⟩ source = byte :: bytes) :
    source[place]? = some byte := by
  have head := congrArg List.head? slice
  rw [Span.slice, List.head?_take, List.head?_drop, List.head?_cons] at head
  split at head
  · cases head
  · exact head

/-- What closes a comment, if nothing before does, is the first mark in the bytes of its source too.
-/
theorem closing_of_slice {content : List Char}
    (ends : ∀ before after : List Char,
      content ++ commentClosing = before ++ commentClosing ++ after → after = [])
    {earlier later : List Char} {place : Nat} (behind : byteSize earlier ≤ place)
    (closes : Span.slice ⟨place, place + 4⟩
      (encode (earlier ++ (content ++ (commentClosing ++ later)))) = encode commentClosing) :
    byteSize earlier + byteSize content ≤ place := by
  by_contra sooner
  have mark : byteSize commentClosing = 4 := by decide
  have low : ∀ c ∈ commentClosing, c.toNat < 0x80 := by
    simp [commentClosing]
  have size : (encode (content ++ commentClosing)).length = byteSize content + 4 := by
    rw [length_encode, byteSize_append, mark]
  have begins : encode commentClosing <+:
      (encode (content ++ commentClosing)).drop (place - byteSize earlier) := by
    rw [slice_behind behind, ← List.append_assoc, encode_append,
      List.drop_append_of_le_length (by omega),
      List.take_append_of_le_length (by rw [List.length_drop]; omega)] at closes
    rw [← closes]
    exact List.take_prefix _ _
  obtain ⟨before, after, same, reached⟩ :=
    Text.infix_of_prefix_drop low (List.cons_ne_nil _ _) begins
  obtain rfl := ends before after same
  rw [List.append_nil] at same
  obtain rfl := List.append_cancel_right same
  omega

section

variable {inside after : Bool} {stop : Nat} {strips : List Strip}

theorem Row.around (row : Row inside 0 strips after stop) {strip : Strip}
    (member : strip ∈ strips) :
    ∃ earlier later, strips.flatMap Strip.written = earlier ++ (strip.written ++ later) ∧
      strip.span = ⟨byteSize earlier, byteSize earlier + byteSize strip.written⟩ := by
  obtain ⟨before, behind, rfl⟩ := List.append_of_mem member
  obtain ⟨_, _, first, _, size, _⟩ := row.parts
  have start := first.stop_eq
  rw [Nat.zero_add] at start
  refine ⟨before.flatMap Strip.written, behind.flatMap Strip.written, ?_, ?_⟩
  · rw [List.flatMap_append, List.flatMap_cons]
  · rw [← start, ← size]

theorem Row.slice (row : Row inside 0 strips after stop) {strip : Strip}
    (member : strip ∈ strips) :
    strip.span.slice (encode (strips.flatMap Strip.written)) = encode strip.written := by
  obtain ⟨earlier, later, same, span⟩ := row.around member
  rw [same, span]
  exact slice_encode earlier strip.written later

theorem Row.byte (row : Row inside 0 strips after stop) {strip : Strip} (member : strip ∈ strips)
    {place : Nat} (low : strip.span.start ≤ place) (high : place < strip.span.stop) :
    (encode (strips.flatMap Strip.written))[place]? =
      (encode strip.written)[place - strip.span.start]? := by
  obtain ⟨earlier, later, same, span⟩ := row.around member
  rw [span] at low high ⊢
  rw [same]
  exact getElem?_encode low high later

theorem Row.lexeme (row : Row inside 0 strips after stop) {lexeme : Lexeme}
    (member : lexeme ∈ strips.filterMap Strip.lexeme?) :
    ∃ written before behind, Leads before (.token lexeme.token) written behind ∧
      lexeme.span.slice (encode (strips.flatMap Strip.written)) = encode written := by
  obtain ⟨strip, known, same⟩ := List.mem_filterMap.mp member
  obtain ⟨kind, span⟩ := lexeme?_eq_some.mp same
  have slice := row.slice known
  obtain ⟨before, behind, leads⟩ := row.leads known
  rw [kind] at leads
  rw [span] at slice
  exact ⟨strip.written, before, behind, leads, slice⟩

theorem brace_before_quote {body : List Char} {offset : Nat}
    (brace : (encode ('"' :: (body ++ ['"'])))[offset]? = some 0x7d) :
    offset + 2 ≤ byteSize ('"' :: (body ++ ['"'])) := by
  have quote : encode ['"'] = [0x22] := by decide
  have size : byteSize ['"'] = 1 := by decide
  rw [← List.cons_append, encode_append, quote] at brace
  rw [← List.cons_append, byteSize_append, size]
  by_cases within : offset < (encode ('"' :: body)).length
  · rw [length_encode] at within
    omega
  · rw [List.getElem?_append_right (Nat.le_of_not_lt within)] at brace
    have last := List.mem_singleton.mp (List.mem_of_getElem? brace)
    exact absurd last (by decide)

theorem Row.firstClosing (row : Row inside 0 strips after stop) {opening closing : Lexeme}
    {content : List Lexeme}
    (action : ActionIn (strips.filterMap Strip.lexeme?) opening content closing) {place : Nat}
    (low : opening.span.stop ≤ place) (high : place < closing.span.start)
    (closes : Span.slice ⟨place, place + 2⟩ (encode (strips.flatMap Strip.written)) =
      encode actionClosing) :
    ∃ lexeme ∈ content, (∃ text, lexeme.token = .quoted text) ∧
      lexeme.span.start ≤ place ∧ place + 2 ≤ lexeme.span.stop := by
  obtain ⟨before, opened, inner, closed, later, rfl, -, -, rfl, stays, inside⟩ := row.action action
  obtain ⟨strip, known, start, beyond⟩ := inside.covers low high
  have member : strip ∈ before ++ opened :: (inner ++ closed :: later) :=
    List.mem_append_right _ (List.mem_cons_of_mem _ (List.mem_append_left _ known))
  have brace : (encode strip.written)[place - strip.span.start]? = some 0x7d := by
    rw [← row.byte member start beyond]
    exact head_of_slice closes
  have inStrip : '\x7d' ∈ strip.written :=
    Text.mem_of_mem_encode (by decide) (List.mem_of_getElem? brace)
  obtain ⟨text, body, quoted, spelled⟩ := (stays strip known).quoted_of_brace inStrip
  have lexeme : strip.lexeme? = some ⟨.quoted text, strip.span⟩ :=
    lexeme?_eq_some.mpr ⟨quoted, rfl⟩
  refine ⟨⟨.quoted text, strip.span⟩, List.mem_filterMap.mpr ⟨strip, known, lexeme⟩,
    ⟨text, rfl⟩, start, ?_⟩
  rw [spelled] at brace
  have short := brace_before_quote brace
  rw [← spelled] at short
  obtain ⟨earlier, _, _, span⟩ := row.around member
  simp only [span] at short start ⊢
  omega

theorem Row.comment (row : Row inside 0 strips after stop) {strip : Strip}
    (member : strip ∈ strips) (kind : strip.kind = .comment) :
    ∃ ending, CommentAt (encode (strips.flatMap Strip.written)) (strips.filterMap Strip.lexeme?)
      strip.span.start ending ∧ strip.span.stop = ending + 4 := by
  obtain ⟨_, _, leads⟩ := row.leads member
  rw [kind] at leads
  obtain ⟨-, -, content, written, ends⟩ := leads.of_comment
  obtain ⟨earlier, later, same, span⟩ := row.around member
  rw [written, byteSize_comment] at span
  have marks : byteSize commentOpening = 4 ∧ byteSize commentClosing = 4 := by decide
  have start : strip.span.start + 4 = byteSize (earlier ++ commentOpening) := by
    rw [byteSize_append, marks.1, span]
  have source : strips.flatMap Strip.written =
      (earlier ++ commentOpening) ++ (content ++ (commentClosing ++ later)) := by
    rw [same, written]
    simp
  have stop_eq : strip.span.stop = strip.span.start + 4 + byteSize content + 4 := by
    rw [span]
    simp only
    omega
  refine ⟨strip.span.start + 4 + byteSize content, ⟨?_, ?_, ?_, ?_, ?_, ?_⟩, ?_⟩
  · have slice := slice_encode earlier commentOpening (content ++ (commentClosing ++ later))
    rw [← List.append_assoc, ← source, marks.1] at slice
    rw [span]
    exact slice
  · have slice := slice_encode (earlier ++ commentOpening ++ content) commentClosing later
    rw [List.append_assoc (earlier ++ commentOpening), ← source, marks.2, byteSize_append,
      ← start] at slice
    exact slice
  · omega
  · intro place low closes
    rw [start] at low ⊢
    rw [source] at closes
    exact closing_of_slice ends low closes
  · intro lexeme known
    obtain ⟨other, among, same⟩ := List.mem_filterMap.mp known
    obtain ⟨token, covered⟩ := lexeme?_eq_some.mp same
    rw [← covered, ← stop_eq]
    apply row.apart member among
    rintro rfl
    rw [kind] at token
    cases token
  · intro opening content closing action
    rw [← stop_eq]
    exact row.outside member kind action
  · exact stop_eq

theorem gap_byte {c : Char} (blank : isGap c = true) :
    ∃ byte ∈ ([0x20, 0x09, 0x0d, 0x0a] : Bytes), encode [c] = [byte] := by
  simp only [isGap, Bool.or_eq_true, decide_eq_true_eq] at blank
  rcases blank with ((rfl | rfl) | rfl) | rfl
  · exact ⟨0x20, by decide, by decide⟩
  · exact ⟨0x09, by decide, by decide⟩
  · exact ⟨0x0a, by decide, by decide⟩
  · exact ⟨0x0d, by decide, by decide⟩

theorem Row.gap (row : Row false 0 strips false stop) {strip : Strip} (member : strip ∈ strips)
    (kind : strip.kind = .gap) {place : Nat} (low : strip.span.start ≤ place)
    (high : place < strip.span.stop) :
    GapAt (encode (strips.flatMap Strip.written)) (strips.filterMap Strip.lexeme?) place := by
  have stands := row.byte member low high
  obtain ⟨_, _, leads⟩ := row.leads member
  rw [kind] at leads
  obtain ⟨-, -, c, blank, written⟩ := leads.of_gap
  obtain ⟨byte, among, encoded⟩ := gap_byte blank
  rw [written, encoded] at stands
  constructor
  · refine ⟨byte, among, ?_⟩
    obtain ⟨_, _, _, span⟩ := row.around member
    have single : byteSize [c] = 1 := by
      rw [← length_encode, encoded]
      rfl
    have alone : place - strip.span.start = 0 := by
      rw [span, written, single] at high
      rw [span] at low ⊢
      simp only at low high ⊢
      omega
    rw [stands, alone]
    rfl
  · obtain ⟨earlier, later, rfl⟩ := List.append_of_mem member
    obtain ⟨opening, content, closing, action, before, behind⟩ := row.enclosed kind
    exact ⟨opening, content, closing, action, by omega, by omega⟩

theorem Row.lossless (row : Row false 0 strips false stop) :
    Lossless (encode (strips.flatMap Strip.written)) (strips.filterMap Strip.lexeme?) := by
  have size : stop = (encode (strips.flatMap Strip.written)).length := by
    rw [row.stop_eq, Nat.zero_add, length_encode]
  constructor
  · intro lexeme member
    obtain ⟨strip, known, same⟩ := List.mem_filterMap.mp member
    obtain ⟨-, span⟩ := lexeme?_eq_some.mp same
    obtain ⟨-, nonempty, within⟩ := row.bounds known
    rw [← span, ← size]
    exact ⟨nonempty, within⟩
  · apply row.ordered.filterMap
    intro strip other ordered lexeme same next sameNext
    rw [← (lexeme?_eq_some.mp same).2, ← (lexeme?_eq_some.mp sameNext).2]
    exact ordered
  · intro lexeme member content isText
    obtain ⟨written, _, _, leads, slice⟩ := row.lexeme member
    rw [isText] at leads
    obtain ⟨-, -, rfl, nonempty, closed⟩ := leads.of_text
    rw [Text.encodeString_ofList, String.toList_ofList]
    exact ⟨by simpa using nonempty, slice, closed⟩
  · intro lexeme member isOpening
    obtain ⟨written, _, _, leads, slice⟩ := row.lexeme member
    rw [isOpening] at leads
    obtain ⟨-, -, rfl⟩ := leads.of_openAction
    exact slice
  · intro lexeme member isClosing
    obtain ⟨written, _, _, leads, slice⟩ := row.lexeme member
    rw [isClosing] at leads
    obtain ⟨-, -, rfl⟩ := leads.of_closeAction
    exact slice
  · exact row.alternate
  · intro opening content closing action place low high closes
    exact row.firstClosing action low high closes
  · intro place within
    rw [← size] at within
    obtain ⟨strip, member, low, high⟩ := row.covers (Nat.zero_le place) within
    cases kind : strip.kind with
    | token token =>
        have lexeme : strip.lexeme? = some ⟨token, strip.span⟩ :=
          lexeme?_eq_some.mpr ⟨kind, rfl⟩
        exact Or.inl ⟨_, List.mem_filterMap.mpr ⟨strip, member, lexeme⟩, low, high⟩
    | comment =>
        obtain ⟨ending, comment, same⟩ := row.comment member kind
        rw [same] at high
        exact Or.inr (Or.inl ⟨_, ending, comment, low, high⟩)
    | gap => exact Or.inr (Or.inr (row.gap member kind low high))

end

/-- If a source can be scanned, its lexemes account for all of its bytes. -/
theorem scan_lossless {source : String} {lexemes : List Lexeme}
    (read : scan source = .ok lexemes) : Lossless (encodeString source) lexemes := by
  obtain ⟨strips, row, written, rfl⟩ := lexemesFrom_laid read
  have lossless := row.lossless
  rw [written] at lossless
  exact lossless

def mixed : String :=
  "é\x7b\x7b/* \x7d\x7d */\x7d\x7d\x7b\x7b template \"\x7d\x7dé\" \x7d\x7d"

def mixedLexemes : List Lexeme :=
  [⟨.text "é", ⟨0, 2⟩⟩, ⟨.openAction, ⟨14, 16⟩⟩, ⟨.keyword .template, ⟨17, 25⟩⟩,
    ⟨.quoted "\x7d\x7dé", ⟨26, 32⟩⟩, ⟨.closeAction, ⟨33, 35⟩⟩]

theorem mixed_lossless :
    scan mixed = .ok mixedLexemes ∧ Lossless (encodeString mixed) mixedLexemes := by
  have read : scan mixed = .ok mixedLexemes := by decide +kernel
  exact ⟨read, scan_lossless read⟩

end PageAssembly.Language
