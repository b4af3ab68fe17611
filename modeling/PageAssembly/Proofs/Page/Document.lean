import PageAssembly.Proofs.Html.Decoding
import PageAssembly.Proofs.Page.Permission

/-!
The policy of a page stands in two places: in a header field of the response and, as the value of an
attribute, in the document. Both are texts of one policy. The one in the document lacks the
directives that have no effect there and is otherwise read as the one in the header field.
-/

namespace PageAssembly

namespace Policy

theorem empty_of_append {policy : Policy} {name : String} {tokens : List String}
    (empty : (policy.append name tokens).directives = []) : policy.directives = [] := by
  unfold append at empty
  split at empty
  · exact empty
  · exact absurd empty (addToFirst_ne_nil _ _ _)

theorem empty_of_merge {policy other : Policy} (empty : (policy.merge other).directives = []) :
    policy.directives = [] := by
  obtain ⟨directives⟩ := other
  unfold merge at empty
  induction directives generalizing policy with
  | nil => exact empty
  | cons directive directives induction =>
      have first : (policy.mergeDirective directive).directives = [] := induction empty
      unfold mergeDirective at first
      split at first
      · simp at first
      · exact empty_of_append first

theorem inDocument_plain {policy : Policy} (plain : policy.Plain) : policy.inDocument.Plain := by
  intro directive member
  exact plain directive (List.mem_filter.mp member).1

def metaContent (policy : Policy) : List Char :=
  Html.escapeAttribute policy.inDocument.print.toList

theorem encodeString_metaTag (policy : Policy) :
    Text.encodeString policy.metaTag =
      Text.encodeString "<meta http-equiv=\"Content-Security-Policy\" content=\"" ++
        Text.encode policy.metaContent ++ Text.encodeString "\">" := by
  unfold metaTag
  simp only [Text.encodeString_append, Text.encodeString_ofList, metaContent]

/-- The attribute is read as the policy without the directives that are for header fields only. -/
theorem parse_metaContent {policy : Policy} (plain : policy.Plain) :
    parse (String.ofList (Html.decode Html.attributeEntities policy.metaContent)) =
      policy.inDocument := by
  rw [metaContent, Html.decode_escapeAttribute, String.ofList_toList]
  exact parse_print (inDocument_plain plain).ofWords

end Policy

namespace Page

theorem csp_compose (page : Page) (left : Writer) (values : List (String × Json))
    (options : RenderOptions) :
    (page.compose left values options).slots.csp =
      Text.encodeString (page.compose left values options).policy.metaTag := by
  simp only [compose]

section

variable {page : Page} {left : Writer} {values : List (String × Json)} {options : RenderOptions}
  {before after : Headers}

theorem empty_of_compose (given : left.headers = some before)
    (empty : (page.compose left values options).policy.directives = []) :
    (Policy.ofHeaders before).directives = [] := by
  obtain ⟨css, js, same, _, _⟩ := page.compose_policy left values options
  have start : policyFor left options = (Policy.ofHeaders before).merge options.policy := by
    rw [policyFor, given]
  rw [same, start] at empty
  apply Policy.empty_of_merge
  apply Policy.empty_of_append
  exact Policy.empty_of_append empty

/-- The policy of a page is what is read from the header fields that it was written to, also where
it has no directives and nothing was written. -/
theorem ofHeaders_compose (given : left.headers = some before) (plain : options.policy.Plain)
    (wrote : (page.compose left values options).policy.writeTo before = .ok after) :
    Policy.ofHeaders after = (page.compose left values options).policy := by
  have composed := page.compose_plain left values options plain
  rw [Policy.ofHeaders_writeTo composed wrote]
  split
  · rename_i empty
    have nothing := List.isEmpty_iff.mp empty
    have none := empty_of_compose given nothing
    rw [Policy.mk.injEq, none, nothing]
  · rfl

end

theorem hooks_ran {page : Page} {pool : Pool} {writer : Writer} {request : Request} {data : Json}
    {options : RenderOptions}
    (succeeded : (page.render pool writer request data options).result = .ok ()) :
    ∃ left prepared, HooksRun request page.hooks writer (startData data) left prepared := by
  rcases runHooks_spec request page.hooks writer (startData data) with
    ⟨left, prepared, run, _⟩ | ⟨passed, failing, failure, left, _, failed⟩
  · exact ⟨left, prepared, run⟩
  · rw [render, failed] at succeeded
    cases succeeded

/-- When a page has been rendered to a response with header fields, the slot for its policy is one
element whose attribute cannot be left, and a browser reads the attribute as the directives that it
reads from the header fields, in their order, but for those with no effect in a document. -/
theorem document_mirrors_header {page : Page} {pool : Pool} {writer : Writer} {request : Request}
    {data : Json} {options : RenderOptions} {final : Headers} (asked : options.asJson = false)
    (plain : options.policy.Plain)
    (succeeded : (page.render pool writer request data options).result = .ok ())
    (answered : (page.render pool writer request data options).writer.headers = some final) :
    ∃ left prepared values content,
      HooksRun request page.hooks writer (startData data) left prepared ∧
      (page.environmentFor request options).result = .ok values ∧
      (page.render pool writer request data options).writer.body =
        left.body ++ (execute page.fragments page.main prepared
          (page.compose left values options).slots).bytes ∧
      (page.compose left values options).slots.csp =
        Text.encodeString "<meta http-equiv=\"Content-Security-Policy\" content=\"" ++
          Text.encode content ++ Text.encodeString "\">" ∧
      (∀ c ∈ content, c ≠ '"' ∧ c ≠ '<' ∧ c ≠ '>') ∧
      (Policy.parse (String.ofList (Html.decode Html.attributeEntities content))).directives =
        (Policy.ofHeaders final).directives.filter fun directive =>
          !(["frame-ancestors", "report-uri", "sandbox"].any directive.isNamed) := by
  obtain ⟨left, prepared, run⟩ := hooks_ran succeeded
  obtain ⟨written, buffer, calls, result, ends, rendered⟩ := run.html_ends asked pool
  rw [rendered] at succeeded answered ⊢
  cases succeeded
  cases ends.writes pool.get_empty with
  | @written values policied found executed wrote =>
      have composed := page.compose_plain left values options plain
      have element := page.csp_compose left values options
      rw [Policy.encodeString_metaTag] at element
      refine ⟨left, prepared, values, (page.compose left values options).policy.metaContent, run,
        found, rfl, element, Html.unmarked_escapeAttribute _, ?_⟩
      obtain ⟨_, _, ⟨bare, _⟩ | ⟨before, fields, given, set, stored⟩⟩ := writePolicy_ok wrote
      · simp [setContentType, bare] at answered
      · obtain rfl : fields.insert contentTypeName (Text.encodeString htmlType) = final := by
          simpa [setContentType, set] using answered
        rw [Policy.ofHeaders_insert (by decide), ofHeaders_compose given plain stored,
          Policy.parse_metaContent composed]
        rfl

/-- A response that comes with a policy of its own: one directive that is for header fields only,
and one with signs that mean something in markup. -/
def framed : Headers :=
  Headers.empty.insert Policy.headerName
    (Text.encodeString "Frame-Ancestors 'none';; img-src a&\"<b>")

theorem framed_mirrors :
    ∃ final left prepared values content,
      (linking.render (.ofSize 1) (.response framed) ⟨"GET", "/", .empty⟩ .null
        allowing).writer.headers = some final ∧
      HooksRun ⟨"GET", "/", .empty⟩ linking.hooks (.response framed) (startData .null) left
        prepared ∧
      (linking.environmentFor ⟨"GET", "/", .empty⟩ allowing).result = .ok values ∧
      (linking.compose left values allowing).slots.csp =
        Text.encodeString "<meta http-equiv=\"Content-Security-Policy\" content=\"" ++
          Text.encode content ++ Text.encodeString "\">" ∧
      (Policy.parse (String.ofList (Html.decode Html.attributeEntities content))).directives =
        (Policy.ofHeaders final).directives.filter fun directive =>
          !(["frame-ancestors", "report-uri", "sandbox"].any directive.isNamed) := by
  have plain : allowing.policy.Plain := by decide
  have succeeded : (linking.render (.ofSize 1) (.response framed) ⟨"GET", "/", .empty⟩ .null
      allowing).result = .ok () := rfl
  obtain ⟨final, answered⟩ : ∃ final, (linking.render (.ofSize 1) (.response framed)
      ⟨"GET", "/", .empty⟩ .null allowing).writer.headers = some final := ⟨_, rfl⟩
  obtain ⟨left, prepared, values, content, run, found, _, element, _, read⟩ :=
    document_mirrors_header rfl plain succeeded answered
  exact ⟨final, left, prepared, values, content, answered, run, found, element, read⟩

end Page

end PageAssembly
