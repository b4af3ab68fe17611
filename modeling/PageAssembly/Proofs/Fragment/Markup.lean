import PageAssembly.Proofs.Fragment.Collection
import PageAssembly.Proofs.Fragment.Refinement
import PageAssembly.Proofs.Html.Inert
import PageAssembly.Proofs.Text.Encoding

/-!
Data cannot bring markup into a page. An execution writes texts that stand in fragments, slots as
they are, and values of the data with their characters replaced; this holds of all that is written
up to an error, and of executions that run out of depth.
-/

namespace PageAssembly

open PageAssembly.Language (Body Node)

namespace Fragment

mutual

def textsOfNode : Node → List String
  | .text _ content => [content]
  | .output _ _ => []
  | .slot _ _ => []
  | .invoke _ _ _ => []
  | .control _ _ _ body otherwise => textsOf body ++ textsOf otherwise
  | .define _ _ body => textsOf body
  | .block _ _ _ body => textsOf body

def textsOf : Body → List String
  | [] => []
  | node :: nodes => textsOfNode node ++ textsOf nodes

end

end Fragment

/-- A literal text of one of the fragments. -/
def FragmentSet.HasText (set : FragmentSet) (content : String) : Prop :=
  ∃ name fragment, set.find? name = some fragment ∧ content ∈ Fragment.textsOf fragment.body

def Slots.all (slots : Slots) : List Bytes :=
  [slots.css, slots.js, slots.csp]

theorem Slots.mem_all {slots : Slots} {name : String} {markup : Bytes}
    (known : slots.get? name = some markup) : markup ∈ slots.all := by
  simp only [Slots.get?] at known
  simp only [Slots.all, List.mem_cons, List.not_mem_nil, or_false]
  split at known
  · exact Or.inl (Option.some.inj known).symm
  · split at known
    · exact Or.inr (Or.inl (Option.some.inj known).symm)
    · split at known
      · exact Or.inr (Or.inr (Option.some.inj known).symm)
      · cases known

namespace Semantics

/-- What an execution writes at once: a text of a fragment, a slot, or a text that has been replaced
and means nothing in markup. -/
inductive Chunk (set : FragmentSet) (slots : Slots) : Bytes → Prop where
  | text {content : String} (literal : set.HasText content) :
      Chunk set slots (Text.encodeString content)
  | slot {markup : Bytes} (member : markup ∈ slots.all) : Chunk set slots markup
  | escaped {shown : List Char} (inert : Html.Inert (Html.escapeContent shown)) :
      Chunk set slots (Text.encode (Html.escapeContent shown))

/-- Bytes that are chunks one after the other. -/
def Chunked (set : FragmentSet) (slots : Slots) (bytes : Bytes) : Prop :=
  ∃ chunks : List Bytes, bytes = chunks.flatten ∧ ∀ chunk ∈ chunks, Chunk set slots chunk

def Task.texts : Task → List String
  | .invocation _ _ => []
  | .node _ one _ => Fragment.textsOfNode one
  | .body _ nodes _ => Fragment.textsOf nodes
  | .items _ nodes _ => Fragment.textsOf nodes

section

variable {set : FragmentSet} {slots : Slots} {root : Json} {task first later other : Task}
  {bytes more : Bytes}

theorem chunked_nil : Chunked set slots [] :=
  ⟨[], rfl, by simp⟩

theorem Chunk.chunked (chunk : Chunk set slots bytes) : Chunked set slots bytes :=
  ⟨[bytes], by simp, by simpa using chunk⟩

theorem Chunked.append (chunked : Chunked set slots bytes) (also : Chunked set slots more) :
    Chunked set slots (bytes ++ more) := by
  obtain ⟨chunks, rfl, each⟩ := chunked
  obtain ⟨others, rfl, eachOther⟩ := also
  refine ⟨chunks ++ others, List.flatten_append.symm, ?_⟩
  intro chunk member
  exact (List.mem_append.mp member).elim (each chunk) (eachOther chunk)

theorem Means.texts_subset (means : Means root task other) : other.texts ⊆ task.texts := by
  cases means with
  | invoke => exact List.nil_subset _
  | block => exact List.nil_subset _
  | condition => exact List.subset_append_left _ _
  | conditionElse => exact List.subset_append_right _ _
  | scope => exact List.subset_append_left _ _
  | scopeElse => exact List.subset_append_right _ _
  | each => exact List.subset_append_left _ _
  | eachElse => exact List.subset_append_right _ _

theorem Splits.texts_subset (splits : Splits task first later) :
    first.texts ⊆ task.texts ∧ later.texts ⊆ task.texts := by
  cases splits with
  | body => exact ⟨List.subset_append_left _ _, List.subset_append_right _ _⟩
  | items => exact ⟨List.Subset.refl _, List.Subset.refl _⟩

def Literal (set : FragmentSet) (task : Task) : Prop :=
  ∀ content ∈ task.texts, set.HasText content

theorem Literal.means (literal : Literal set task) (means : Means root task other) :
    Literal set other :=
  fun content member => literal content (means.texts_subset member)

theorem Literal.splits (literal : Literal set task) (splits : Splits task first later) :
    Literal set first ∧ Literal set later :=
  ⟨fun content member => literal content (splits.texts_subset.1 member),
   fun content member => literal content (splits.texts_subset.2 member)⟩

theorem literal_invocation (name : String) (dot : Json) : Literal set (.invocation name dot) := by
  intro content member
  cases member

theorem literal_defined {name : String} {fragment : Fragment}
    (defined : set.find? name = some fragment) (dot : Json) :
    Literal set (.body fragment.name fragment.body dot) :=
  fun _ member => ⟨name, fragment, defined, member⟩

theorem Writes.chunked (writes : Writes slots root task bytes) (literal : Literal set task) :
    Chunked set slots bytes := by
  cases writes with
  | text => exact (Chunk.text (literal _ (by simp [Task.texts, Fragment.textsOfNode]))).chunked
  | @output _ _ _ _ value _ =>
      have chunk : Chunk set slots (Text.encode (Html.escapeContent value.shown)) :=
        .escaped (Html.inert_escapeContent value.shown)
      rw [escapeContent_eq] at chunk
      exact chunk.chunked
  | slot known => exact (Chunk.slot (Slots.mem_all known)).chunked
  | define => exact chunked_nil
  | empty => exact chunked_nil
  | noItems => exact chunked_nil

theorem Evaluates.chunked {outcome : Output} (evaluates : Evaluates set slots root task outcome)
    (literal : Literal set task) : Chunked set slots outcome.bytes := by
  induction evaluates with
  | write writes => exact writes.chunked literal
  | fail => exact chunked_nil
  | means means _ induction => exact induction (literal.means means)
  | missing => exact chunked_nil
  | invoke defined _ induction => exact induction (literal_defined defined _)
  | stop splits _ induction => exact induction (literal.splits splits).1
  | go splits _ _ induction inductionLater =>
      exact (induction (literal.splits splits).1).append (inductionLater (literal.splits splits).2)

theorem Reaches.chunked {depth : Nat} (reaches : Reaches set slots root task depth bytes)
    (literal : Literal set task) : Chunked set slots bytes := by
  induction reaches with
  | here => exact chunked_nil
  | means means _ induction => exact induction (literal.means means)
  | invoke defined _ induction => exact induction (literal_defined defined _)
  | first splits _ induction => exact induction (literal.splits splits).1
  | later splits done _ induction =>
      exact (done.chunked (literal.splits splits).1).append (induction (literal.splits splits).2)

end

end Semantics

open Semantics (Chunk)

theorem execute_chunked (set : FragmentSet) (main : String) (data : Json) (slots : Slots) :
    Semantics.Chunked set slots (execute set main data slots).bytes := by
  have literal : Semantics.Literal set (.invocation main data) :=
    Semantics.literal_invocation main data
  have bounded : Semantics.Bounded set slots data maxDepth (.invocation main data) :=
    Semantics.bounded_invocation maxDepth main data
  cases bounded with
  | evaluated _ evaluates => exact evaluates.chunked literal
  | reached _ reaches => exact reaches.chunked literal

namespace Html

theorem mark_low {c : Char} (mark : c ∈ marks) : c.toNat < 0x80 := by
  simp only [marks, List.mem_cons, List.not_mem_nil, or_false] at mark
  rcases mark with rfl | rfl | rfl | rfl <;> decide

end Html

theorem Semantics.Chunk.unmarked {set : FragmentSet} {slots : Slots} {c : Char} {chunk : Bytes}
    (written : Chunk set slots chunk) (mark : c ∈ Html.marks)
    (texts : ∀ content, set.HasText content → c ∉ content.toList)
    (markups : ∀ markup ∈ slots.all, c.toUInt8 ∉ markup) : c.toUInt8 ∉ chunk := by
  cases written with
  | text literal =>
      intro member
      exact texts _ literal (Text.mem_of_mem_encode (Html.mark_low mark) member)
  | slot member => exact markups _ member
  | escaped inert =>
      intro member
      exact inert.unmarked c (Text.mem_of_mem_encode (Html.mark_low mark) member) mark

/-- All that an execution writes is texts of fragments, slots, and text without marks in which every
ampersand begins an entity. A mark that is in no text and no slot is not written, whatever the data
are. -/
theorem data_brings_no_markup (set : FragmentSet) (main : String) (data : Json) (slots : Slots) :
    (∃ chunks : List Bytes, (execute set main data slots).bytes = chunks.flatten ∧
      ∀ chunk ∈ chunks, Chunk set slots chunk) ∧
    ∀ c ∈ Html.marks, (∀ content, set.HasText content → c ∉ content.toList) →
      (∀ markup ∈ slots.all, c.toUInt8 ∉ markup) →
      c.toUInt8 ∉ (execute set main data slots).bytes := by
  have chunked := execute_chunked set main data slots
  refine ⟨chunked, ?_⟩
  intro c mark texts markups member
  obtain ⟨chunks, same, each⟩ := chunked
  rw [same] at member
  obtain ⟨chunk, written, inside⟩ := List.mem_flatten.mp member
  exact (each chunk written).unmarked mark texts markups inside

def Fragment.listing : Fragment :=
  ⟨"main", [.text ⟨0, 0⟩ "a", .control ⟨0, 0⟩ .each ⟨false, ["items"]⟩ [.output ⟨0, 0⟩ .dot] [],
    .slot ⟨0, 0⟩ "css"]⟩

theorem listing_brings_no_markup :
    let set := FragmentSet.empty.insert .listing
    let data := Json.object
      [("items", .array [.string "<i>'&amp;", .object [("\"", .string "</script>")]])]
    let slots : Slots := ⟨[0x62], [], []⟩
    ∀ c ∈ Html.marks, (∀ content, set.HasText content → c ∉ content.toList) ∧
      (∀ markup ∈ slots.all, c.toUInt8 ∉ markup) ∧
      c.toUInt8 ∉ (execute set "main" data slots).bytes := by
  intro set data slots c mark
  have texts : ∀ content, set.HasText content → c ∉ content.toList := by
    rintro content ⟨name, fragment, defined, member⟩
    rw [FragmentSet.find?_insert] at defined
    split at defined
    · cases defined
      obtain rfl : content = "a" := List.mem_singleton.mp member
      exact fun inside => absurd (List.mem_singleton.mp inside ▸ mark) (by decide)
    · cases defined
  have markups : ∀ markup ∈ slots.all, c.toUInt8 ∉ markup := by
    have unmarked : (Html.marks.all fun c => slots.all.all fun markup => c.toUInt8 ∉ markup) :=
      by decide
    simpa using List.all_eq_true.mp unmarked c mark
  exact ⟨texts, markups, (data_brings_no_markup set "main" data slots).2 c mark texts markups⟩

end PageAssembly
