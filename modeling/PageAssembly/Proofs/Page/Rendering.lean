import PageAssembly.Page.Render
import PageAssembly.Proofs.Page.Pieces

/-!
The two parts of a rendering. First the hooks run, each on what the one before it left. What comes
after them either leaves the writer alone and fails, or gives it a body and headers.
-/

namespace PageAssembly

/-- What can be seen of a rendering is the same; the buffers that it leaves cannot be seen. -/
structure Rendered.Same (one other : Rendered) : Prop where
  writer : one.writer = other.writer
  calls : one.calls = other.calls
  result : one.result = other.result

def Headers.without (names : List String) (headers : Headers) : List (String × Bytes) :=
  headers.fields.filter fun field => field.1 ∉ names

theorem Headers.without_insert {names : List String} {name : String} (among : name ∈ names)
    (headers : Headers) (value : Bytes) :
    (headers.insert name value).without names = headers.without names := by
  rw [without, insert, List.filter_append, List.filter_filter, without]
  have dropped : [(name, value)].filter (fun field => field.1 ∉ names) = [] := by simp [among]
  rw [dropped, List.append_nil]
  apply List.filter_congr
  intro field _
  by_cases other : field.1 ∈ names
  · simp [other]
  · have different : field.1 ≠ name := fun same => other (same ▸ among)
    simp [other, different]

/-- What a buffer holds does not tell how it was cut when it was written; how large it is does. -/
theorem Buffer.content_appendAll (buffer : Buffer) (pieces : List Bytes) :
    (buffer.appendAll pieces).content = buffer.content ++ pieces.flatten := by
  rw [appendAll]
  induction pieces generalizing buffer with
  | nil => exact (List.append_nil _).symm
  | cons piece pieces induction =>
      rw [List.foldl_cons, induction, List.flatten_cons, ← List.append_assoc]
      rfl

example : ((Buffer.ofCapacity 0).appendAll [[1, 2, 3, 4, 5, 6, 7, 8, 9], [10]]).capacity = 18 ∧
    ((Buffer.ofCapacity 0).appendAll [[1, 2, 3, 4, 5, 6, 7, 8, 9, 10]]).capacity = 10 := by decide

namespace Page

/-- Hooks run one after the other, each on the writer and the data that the one before it left. -/
inductive HooksRun (request : Request) : List Hook → Writer → Json → Writer → Json → Prop where
  | none {writer : Writer} {data : Json} : HooksRun request [] writer data writer data
  | next {hook : Hook} {hooks : List Hook} {writer between left : Writer}
      {data given prepared : Json} (ran : hook.run writer request data = (between, .ok given))
      (later : HooksRun request hooks between given left prepared) :
      HooksRun request (hook :: hooks) writer data left prepared

/-- A hook fails after those before it have run, and those behind it do not run. -/
def HooksFail (request : Request) (hooks : List Hook) (writer : Writer) (data : Json)
    (passed : List Hook) (failing : Hook) (failure : Failure) (left : Writer) : Prop :=
  passed ++ [failing] <+: hooks ∧ ∃ before given,
    HooksRun request passed writer data before given ∧
      failing.run before request given = (left, .error failure)

def hookCalls (hooks : List Hook) : List Call :=
  hooks.map fun hook => .hook hook.identity

section

variable {request : Request} {hooks : List Hook} {writer left : Writer} {data prepared : Json}

theorem HooksRun.runHooks_eq (run : HooksRun request hooks writer data left prepared) :
    runHooks request hooks writer data = ⟨left, hookCalls hooks, .ok prepared⟩ := by
  induction run with
  | none => rfl
  | next ran _ induction =>
      rw [runHooks, ran]
      simp only [induction]
      rfl

theorem runHooks_spec (request : Request) (hooks : List Hook) (writer : Writer) (data : Json) :
    (∃ left prepared, HooksRun request hooks writer data left prepared ∧
      runHooks request hooks writer data = ⟨left, hookCalls hooks, .ok prepared⟩) ∨
    ∃ passed failing failure left,
      HooksFail request hooks writer data passed failing failure left ∧
      runHooks request hooks writer data =
        ⟨left, hookCalls (passed ++ [failing]), .error (.hook failing.id failure)⟩ := by
  induction hooks generalizing writer data with
  | nil => exact Or.inl ⟨writer, data, .none, rfl⟩
  | cons hook hooks induction =>
      rcases ran : hook.run writer request data with ⟨between, failure | given⟩
      · refine Or.inr ⟨[], hook, failure, between, ⟨?_, writer, data, .none, ran⟩, ?_⟩
        · exact ⟨hooks, rfl⟩
        · rw [runHooks, ran]
          rfl
      · rcases induction between given with ⟨left, prepared, run, same⟩ |
          ⟨passed, failing, failure, left, ⟨initial, before, reached, run, failed⟩, same⟩
        · refine Or.inl ⟨left, prepared, .next ran run, ?_⟩
          rw [runHooks, ran]
          simp only [same]
          rfl
        · refine Or.inr ⟨hook :: passed, failing, failure, left,
            ⟨?_, before, reached, .next ran run, failed⟩, ?_⟩
          · exact List.cons_prefix_cons.mpr ⟨rfl, initial⟩
          · rw [runHooks, ran]
            simp only [same]
            rfl

end

theorem writeBody_open {writer : Writer} (unclosed : writer.closed = false) (bytes : Bytes) :
    writeBody writer bytes = ({ writer with body := writer.body ++ bytes }, .ok ()) := by
  rw [writeBody, Writer.write, unclosed]
  rfl

theorem writeBody_ok {writer : Writer} {bytes : Bytes}
    (succeeded : (writeBody writer bytes).2 = .ok ()) :
    (writeBody writer bytes).1 = { writer with body := writer.body ++ bytes } := by
  rw [writeBody, Writer.write] at succeeded ⊢
  split <;> rename_i taken
  · split at taken
    · cases taken
    · cases taken
      rfl
  · rw [taken] at succeeded
    cases succeeded

@[simp]
theorem setContentType_closed (writer : Writer) (type : String) :
    (setContentType writer type).closed = writer.closed := rfl

@[simp]
theorem setContentType_body (writer : Writer) (type : String) :
    (setContentType writer type).body = writer.body := rfl

theorem writePolicy_ok {writer written : Writer} {policy : Policy}
    (wrote : writePolicy writer policy = .ok written) :
    written.closed = writer.closed ∧ written.body = writer.body ∧
      (written.headers = none ∧ writer.headers = none ∨
        ∃ before after, writer.headers = some before ∧ written.headers = some after ∧
          policy.writeTo before = .ok after) := by
  rw [writePolicy] at wrote
  split at wrote
  · rename_i bare
    cases wrote
    exact ⟨rfl, rfl, Or.inl ⟨bare, bare⟩⟩
  · rename_i before given
    split at wrote
    · rename_i after fields
      cases wrote
      exact ⟨rfl, rfl, Or.inr ⟨before, after, given, rfl, fields⟩⟩
    · cases wrote

theorem writePolicy_error {writer : Writer} {policy : Policy} {error : RenderError}
    (failed : writePolicy writer policy = .error error) :
    ∃ headers cause, writer.headers = some headers ∧ policy.writeTo headers = .error cause ∧
      error = .header cause := by
  rw [writePolicy] at failed
  split at failed
  · cases failed
  · rename_i headers given
    split at failed
    · cases failed
    · rename_i cause fields
      cases failed
      exact ⟨headers, cause, given, fields, rfl⟩

theorem runEnvironment_error {request : Request} {functions : List EnvironmentFunction}
    {values : List (String × Json)} {error : RenderError}
    (failed : (runEnvironment request functions values).result = .error error) :
    ∃ function ∈ functions, ∃ failure, function.run request = .error failure ∧
      error = .environment function.key failure := by
  induction functions generalizing values with
  | nil => cases failed
  | cons function functions induction =>
      rw [runEnvironment] at failed
      split at failed
      · rename_i failure ran
        cases failed
        exact ⟨function, List.mem_cons_self, failure, ran, rfl⟩
      · obtain ⟨later, member, failure, ran, same⟩ := induction failed
        exact ⟨later, List.mem_cons_of_mem _ member, failure, ran, same⟩

theorem runEnvironment_calls (request : Request) (functions : List EnvironmentFunction)
    (values : List (String × Json)) :
    ∀ call ∈ (runEnvironment request functions values).calls,
      ∃ identity, call = .environment identity := by
  induction functions generalizing values with
  | nil =>
      intro call member
      cases member
  | cons function functions induction =>
      intro call member
      rw [runEnvironment] at member
      split at member
      · exact ⟨_, List.mem_singleton.mp member⟩
      · rcases List.mem_cons.mp member with same | later
        · exact ⟨_, same⟩
        · exact induction _ call later

section

variable (page : Page) (left : Writer) (request : Request) (buffer : Buffer) (prepared : Json)
  (options : RenderOptions)

def output (values : List (String × Json)) : Output :=
  execute page.fragments page.main prepared (page.compose left values options).slots

def outputInPieces (values : List (String × Json)) : Output (List Bytes) :=
  execute page.fragments page.main prepared (page.compose left values options).slots

theorem outputInPieces_joined (values : List (String × Json)) :
    (page.outputInPieces left prepared options values).joined =
      page.output left prepared options values :=
  joined_execute page.fragments page.main prepared (page.compose left values options).slots

/-- The ways in which a rendering as HTML ends, in the order in which it can fail. -/
inductive HtmlEnds : Writer × Buffer × List Call × Except RenderError Unit → Prop where
  | environment {error : RenderError}
      (failed : (page.environmentFor request options).result = .error error) :
      HtmlEnds (left, buffer, (page.environmentFor request options).calls, .error error)
  | execution {values : List (String × Json)} {error : ExecutionError}
      (found : (page.environmentFor request options).result = .ok values)
      (failed : (page.output left prepared options values).failure = some error) :
      HtmlEnds (left, buffer.appendAll (page.outputInPieces left prepared options values).bytes,
        (page.environmentFor request options).calls, .error (.execution page.main error))
  | policy {values : List (String × Json)} {error : RenderError}
      (found : (page.environmentFor request options).result = .ok values)
      (executed : (page.output left prepared options values).failure = none)
      (failed : writePolicy left (page.compose left values options).policy = .error error) :
      HtmlEnds (left, buffer.appendAll (page.outputInPieces left prepared options values).bytes,
        (page.environmentFor request options).calls, .error error)
  | body {values : List (String × Json)} {policied final : Writer} {result : Except RenderError Unit}
      (found : (page.environmentFor request options).result = .ok values)
      (executed : (page.output left prepared options values).failure = none)
      (wrote : writePolicy left (page.compose left values options).policy = .ok policied)
      (ended : writeBody (setContentType policied htmlType)
        (buffer.appendAll (page.outputInPieces left prepared options values).bytes).content =
          (final, result)) :
      HtmlEnds (final, buffer.appendAll (page.outputInPieces left prepared options values).bytes,
        (page.environmentFor request options).calls, result)

theorem renderHtml_ends :
    page.HtmlEnds left request buffer prepared options
      (page.renderHtml left request buffer prepared options) := by
  rw [renderHtml]
  dsimp only
  split
  · rename_i error failed
    exact .environment failed
  · rename_i values found
    have same : (page.outputInPieces left prepared options values).failure =
        (page.output left prepared options values).failure :=
      congrArg Output.failure (page.outputInPieces_joined left prepared options values)
    split
    · rename_i error failed
      exact .execution found (same ▸ failed)
    · rename_i executed
      split
      · rename_i error failed
        exact .policy found (same ▸ executed) failed
      · rename_i policied wrote
        exact .body found (same ▸ executed) wrote rfl

inductive FailsHtml : RenderError → Prop where
  | environment {function : EnvironmentFunction} {failure : Failure}
      (among : function ∈ page.environment) (failed : function.run request = .error failure) :
      FailsHtml (.environment function.key failure)
  | execution {values : List (String × Json)} {error : ExecutionError}
      (found : (page.environmentFor request options).result = .ok values)
      (failed : (page.output left prepared options values).failure = some error) :
      FailsHtml (.execution page.main error)
  | header {values : List (String × Json)} {headers : Headers} {error : HeaderError}
      (found : (page.environmentFor request options).result = .ok values)
      (given : left.headers = some headers)
      (failed : (page.compose left values options).policy.writeTo headers = .error error) :
      FailsHtml (.header error)

inductive WritesHtml : Writer → Prop where
  | written {values : List (String × Json)} {policied : Writer}
      (found : (page.environmentFor request options).result = .ok values)
      (executed : (page.output left prepared options values).failure = none)
      (wrote : writePolicy left (page.compose left values options).policy = .ok policied) :
      WritesHtml { setContentType policied htmlType with
        body := left.body ++ (page.output left prepared options values).bytes }

end

theorem environmentFor_error {page : Page} {request : Request} {options : RenderOptions}
    {error : RenderError} (failed : (page.environmentFor request options).result = .error error) :
    ∃ function ∈ page.environment, ∃ failure, function.run request = .error failure ∧
      error = .environment function.key failure := by
  rw [environmentFor] at failed
  cases ran : (runEnvironment request page.environment []).result with
  | ok values =>
      rw [ran] at failed
      cases failed
  | error cause =>
      rw [ran] at failed
      cases failed
      exact runEnvironment_error ran

section

variable {page : Page} {left final : Writer} {request : Request} {buffer after : Buffer}
  {prepared : Json} {options : RenderOptions} {calls : List Call}

theorem HtmlEnds.writes (empty : buffer.content = [])
    (ends : page.HtmlEnds left request buffer prepared options (final, after, calls, .ok ())) :
    page.WritesHtml left request prepared options final := by
  cases ends with
  | @body values _ _ _ found executed wrote ended =>
      have bytes : (page.outputInPieces left prepared options values).bytes.flatten =
          (page.output left prepared options values).bytes :=
        congrArg Output.bytes (page.outputInPieces_joined left prepared options values)
      have same := writeBody_ok (congrArg Prod.snd ended)
      rw [ended, setContentType_body, (writePolicy_ok wrote).2.1, Buffer.content_appendAll, empty,
        List.nil_append, bytes] at same
      subst same
      exact .written found executed wrote

/-- A rendering as HTML that fails leaves the writer as it was. -/
theorem HtmlEnds.fails (unclosed : left.closed = false) {error : RenderError}
    (ends : page.HtmlEnds left request buffer prepared options (final, after, calls, .error error)) :
    final = left ∧ page.FailsHtml left request prepared options error := by
  cases ends with
  | environment failed =>
      obtain ⟨function, among, failure, ran, rfl⟩ := environmentFor_error failed
      exact ⟨rfl, .environment among ran⟩
  | execution found failed => exact ⟨rfl, .execution found failed⟩
  | policy found _ failed =>
      obtain ⟨headers, cause, given, wrote, rfl⟩ := writePolicy_error failed
      exact ⟨rfl, .header found given wrote⟩
  | @body values policied _ _ _ _ wrote ended =>
      have still : (setContentType policied htmlType).closed = false := by
        rw [setContentType_closed, (writePolicy_ok wrote).1, unclosed]
      rw [writeBody_open still] at ended
      cases ended

theorem HtmlEnds.calls_eq {result : Except RenderError Unit}
    (ends : page.HtmlEnds left request buffer prepared options (final, after, calls, result)) :
    calls = (runEnvironment request page.environment []).calls := by
  cases ends <;> rfl

end

theorem renderJson_open {left : Writer} {buffer : Buffer} (unclosed : left.closed = false)
    (empty : buffer.content = []) (prepared : Json) :
    renderJson left buffer prepared =
      ({ setContentType left jsonType with body := left.body ++ Text.encode prepared.print },
        buffer.appendAll (prepared.pieces.map Text.encode), [], .ok ()) := by
  have still : (setContentType left jsonType).closed = false := unclosed
  rw [renderJson, writeBody_open still, setContentType_body, Buffer.content_appendAll, empty,
    List.nil_append, prepared.flatten_encode_pieces]

theorem HooksRun.render_eq {page : Page} {writer left : Writer} {request : Request}
    {data prepared : Json} (run : HooksRun request page.hooks writer (startData data) left prepared)
    (pool : Pool) (options : RenderOptions) :
    let ended :=
      if options.asJson then renderJson left pool.get.1 prepared
      else page.renderHtml left request pool.get.1 prepared options
    page.render pool writer request data options =
      ⟨ended.1, pool.get.2.put ended.2.1, hookCalls page.hooks ++ ended.2.2.1, ended.2.2.2⟩ := by
  rw [render, run.runHooks_eq]

theorem HooksRun.html_ends {page : Page} {writer left : Writer} {request : Request}
    {data prepared : Json} {options : RenderOptions} (asked : options.asJson = false)
    (run : HooksRun request page.hooks writer (startData data) left prepared) (pool : Pool) :
    ∃ final buffer calls result,
      page.HtmlEnds left request pool.get.1 prepared options (final, buffer, calls, result) ∧
      page.render pool writer request data options =
        ⟨final, pool.get.2.put buffer, hookCalls page.hooks ++ calls, result⟩ := by
  have rendered := run.render_eq pool options
  simp only [asked, Bool.false_eq_true, if_false] at rendered
  exact ⟨_, _, _, _, renderHtml_ends page left request pool.get.1 prepared options, rendered⟩

section

variable {buffer other : Buffer} (same : buffer.content = other.content)

include same

theorem appendAll_content (pieces : List Bytes) :
    (buffer.appendAll pieces).content = (other.appendAll pieces).content := by
  rw [buffer.content_appendAll, other.content_appendAll, same]

theorem renderHtml_content (page : Page) (left : Writer) (request : Request) (prepared : Json)
    (options : RenderOptions) :
    let one := page.renderHtml left request buffer prepared options
    let two := page.renderHtml left request other prepared options
    one.1 = two.1 ∧ one.2.2 = two.2.2 := by
  simp only [renderHtml, appendAll_content same]
  cases (page.environmentFor request options).result with
  | error error => exact ⟨rfl, rfl⟩
  | ok values =>
      dsimp only
      split
      · exact ⟨rfl, rfl⟩
      · split <;> exact ⟨rfl, rfl⟩

theorem renderJson_content (left : Writer) (prepared : Json) :
    let one := renderJson left buffer prepared
    let two := renderJson left other prepared
    one.1 = two.1 ∧ one.2.2 = two.2.2 := by
  simp only [renderJson, appendAll_content same, and_self]

end

theorem render_same (page : Page) (pool other : Pool) (writer : Writer) (request : Request)
    (data : Json) (options : RenderOptions) :
    (page.render pool writer request data options).Same
      (page.render other writer request data options) := by
  have empty : pool.get.1.content = other.get.1.content := by
    rw [pool.get_empty, other.get_empty]
  rw [render, render]
  generalize runHooks request page.hooks writer (startData data) = prepared
  rcases prepared with ⟨left, calls, error | data⟩
  · exact ⟨rfl, rfl, rfl⟩
  · cases options.asJson with
    | true =>
        obtain ⟨written, rest⟩ := renderJson_content empty left data
        exact ⟨written, by simp [rest], by simp [rest]⟩
    | false =>
        obtain ⟨written, rest⟩ := page.renderHtml_content empty left request data options
        exact ⟨written, by simp [rest], by simp [rest]⟩

end Page

end PageAssembly
