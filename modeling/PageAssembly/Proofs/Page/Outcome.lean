import PageAssembly.Proofs.Page.Rendering

/-!
All or nothing. When a rendering fails, the writer is as the last hook that ran left it; when it
succeeds, the body has grown by the whole page and only the headers of a page have changed.
-/

namespace PageAssembly.Page

def ownHeaders (options : RenderOptions) : List String :=
  if options.asJson then [contentTypeName] else [contentTypeName, Policy.headerName]

/-- The hooks ran, in the order of the page, and after them only functions for the scripts. -/
def RanHooksFirst (page : Page) (rendered : Rendered) : Prop :=
  ∃ later, rendered.calls = hookCalls page.hooks ++ later ∧
    ∀ call ∈ later, ∃ identity, call = .environment identity

/-- What a body is given: the data as JSON or the execution of the page, which has come to its
end. -/
inductive Content (page : Page) (left : Writer) (request : Request) (prepared : Json)
    (options : RenderOptions) : Bytes → Prop where
  | json (asked : options.asJson = true) :
      Content page left request prepared options (Text.encode prepared.print)
  | html {values : List (String × Json)} (asked : options.asJson = false)
      (found : (page.environmentFor request options).result = .ok values)
      (finished : (page.output left prepared options values).failure = none) :
      Content page left request prepared options (page.output left prepared options values).bytes

/-- The ways in which a rendering ends. -/
inductive Outcome (page : Page) (writer : Writer) (request : Request) (data : Json)
    (options : RenderOptions) (rendered : Rendered) : Prop where
  | hookFailed {passed : List Hook} {failing : Hook} {failure : Failure}
      (hooks : HooksFail request page.hooks writer (startData data) passed failing failure
        rendered.writer)
      (calls : rendered.calls = hookCalls (passed ++ [failing]))
      (result : rendered.result = .error (.hook failing.id failure)) :
      Outcome page writer request data options rendered
  | failed {left : Writer} {prepared : Json} {error : RenderError}
      (hooks : HooksRun request page.hooks writer (startData data) left prepared)
      (calls : page.RanHooksFirst rendered) (asked : options.asJson = false)
      (cause : page.FailsHtml left request prepared options error)
      (result : rendered.result = .error error) (untouched : rendered.writer = left) :
      Outcome page writer request data options rendered
  | succeeded {left : Writer} {prepared : Json} {content : Bytes}
      (hooks : HooksRun request page.hooks writer (startData data) left prepared)
      (calls : page.RanHooksFirst rendered) (result : rendered.result = .ok ())
      (complete : page.Content left request prepared options content)
      (body : rendered.writer.body = left.body ++ content)
      (headers : rendered.writer.headers.map (Headers.without (ownHeaders options)) =
        left.headers.map (Headers.without (ownHeaders options))) :
      Outcome page writer request data options rendered

theorem contentType_mem_ownHeaders (options : RenderOptions) :
    contentTypeName ∈ ownHeaders options := by
  rw [ownHeaders]
  split <;> exact List.mem_cons_self

theorem policy_mem_ownHeaders {options : RenderOptions} (asked : options.asJson = false) :
    Policy.headerName ∈ ownHeaders options := by
  rw [ownHeaders, asked]
  exact List.mem_cons_of_mem _ List.mem_cons_self

theorem without_setContentType {names : List String} (among : contentTypeName ∈ names)
    (writer : Writer) (type : String) :
    (setContentType writer type).headers.map (Headers.without names) =
      writer.headers.map (Headers.without names) := by
  rw [setContentType, Option.map_map]
  cases writer.headers with
  | none => rfl
  | some headers => exact congrArg some (Headers.without_insert among headers _)

theorem without_writeTo {names : List String} (among : Policy.headerName ∈ names)
    {policy : Policy} {before after : Headers} (wrote : policy.writeTo before = .ok after) :
    after.without names = before.without names := by
  rw [Policy.writeTo, Headers.insertText] at wrote
  split at wrote
  · cases wrote
    rfl
  · split at wrote
    · cases wrote
      exact Headers.without_insert among before _
    · cases wrote

theorem without_writePolicy {names : List String} (among : Policy.headerName ∈ names)
    {writer written : Writer} {policy : Policy} (wrote : writePolicy writer policy = .ok written) :
    written.headers.map (Headers.without names) = writer.headers.map (Headers.without names) := by
  obtain ⟨_, _, ⟨none, also⟩ | ⟨before, after, given, left, fields⟩⟩ := writePolicy_ok wrote
  · rw [none, also]
  · rw [given, left, Option.map_some, Option.map_some, without_writeTo among fields]

section

variable {page : Page} {writer left : Writer} {request : Request} {data prepared : Json}
  {options : RenderOptions}

theorem outcome_json (asked : options.asJson = true) (unclosed : left.closed = false)
    (run : HooksRun request page.hooks writer (startData data) left prepared) (pool : Pool) :
    Outcome page writer request data options (page.render pool writer request data options) := by
  have rendered := run.render_eq pool options
  simp only [asked, if_true, renderJson_open unclosed pool.get_empty prepared] at rendered
  rw [rendered]
  refine .succeeded run ⟨[], rfl, by simp⟩ rfl (.json asked) rfl ?_
  exact without_setContentType (contentType_mem_ownHeaders options) left jsonType

theorem outcome_html (asked : options.asJson = false) (unclosed : left.closed = false)
    (run : HooksRun request page.hooks writer (startData data) left prepared) (pool : Pool) :
    Outcome page writer request data options (page.render pool writer request data options) := by
  obtain ⟨final, buffer, calls, result, ends, rendered⟩ := run.html_ends asked pool
  rw [rendered]
  have first : ∀ call ∈ calls, ∃ identity, call = .environment identity := by
    rw [ends.calls_eq]
    exact runEnvironment_calls request page.environment []
  cases result with
  | error error =>
      obtain ⟨untouched, cause⟩ := ends.fails unclosed
      exact .failed run ⟨calls, rfl, first⟩ asked cause rfl untouched
  | ok _ =>
      cases ends.writes pool.get_empty with
      | @written values policied found executed wrote =>
          refine .succeeded run ⟨calls, rfl, first⟩ rfl (.html asked found executed) rfl ?_
          have type := without_setContentType (contentType_mem_ownHeaders options) policied htmlType
          have policy := without_writePolicy (policy_mem_ownHeaders asked) wrote
          exact type.trans policy

end

/-- However a rendering ends on a writer that takes all it is given, the hooks run in their order up
to the first that fails, and what comes after them is done as a whole or leaves the writer alone. -/
theorem render_outcome (page : Page) (pool : Pool) (writer : Writer) (request : Request)
    (data : Json) (options : RenderOptions)
    (unclosed : ∀ left prepared,
      HooksRun request page.hooks writer (startData data) left prepared → left.closed = false) :
    Outcome page writer request data options (page.render pool writer request data options) := by
  rcases runHooks_spec request page.hooks writer (startData data) with
    ⟨left, prepared, run, _⟩ | ⟨passed, failing, failure, left, fail, same⟩
  · cases asked : options.asJson with
    | true => exact outcome_json asked (unclosed left prepared run) run pool
    | false => exact outcome_html asked (unclosed left prepared run) run pool
  · have rendered : page.render pool writer request data options =
        ⟨left, pool, hookCalls (passed ++ [failing]), .error (.hook failing.id failure)⟩ := by
      rw [render, same]
    rw [rendered]
    exact .hookFailed fail rfl rfl

def prefaced : Page :=
  let preface : Hook := ⟨"preface", 0, fun writer _ data =>
    ({ writer with body := writer.body ++ [0x61] }, .ok data)⟩
  { main := "main", fragments := FragmentSet.empty.insert ⟨"main", [.text ⟨0, 0⟩ "b"]⟩, css := [],
    js := [], hooks := [preface], environment := [], inline := true, place := "" }

theorem prefaced_outcome :
    Outcome prefaced .buffer ⟨"GET", "/", .empty⟩ .null .standard
      (prefaced.render (.ofSize 1) .buffer ⟨"GET", "/", .empty⟩ .null .standard) := by
  apply render_outcome
  intro left prepared run
  have same : _ = left := congrArg Prepared.writer run.runHooks_eq
  rw [← same]
  rfl

end PageAssembly.Page
