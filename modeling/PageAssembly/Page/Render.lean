import PageAssembly.Fragment.Execution
import PageAssembly.Page.Basic
import PageAssembly.Page.Pool
import PageAssembly.Policy.Header

/-!
Rendering a page for a request. The hooks run first; then everything that can fail without the
writer is done, and the writer is touched last.
-/

namespace PageAssembly

inductive RenderError where
  | hook (id : String) (failure : Failure)
  | environment (key : String) (failure : Failure)
  | execution (main : String) (error : ExecutionError)
  | header (error : HeaderError)
  | write (error : WriteError)
deriving DecidableEq

namespace RenderError

def cause : RenderError → String
  | .hook _ failure => failure.message
  | .environment _ failure => failure.message
  | .execution _ error => error.message
  | .header error => error.message
  | .write error => error.message

def message : RenderError → String
  | .hook id failure => "hook " ++ id ++ " failed: " ++ failure.message
  | .environment key failure => "env function " ++ key ++ " failed: " ++ failure.message
  | .execution main error => "error executing template \"" ++ main ++ "\": " ++ error.message
  | .header error => "invalid Content-Security-Policy: " ++ error.message
  | .write error => "error writing response: " ++ error.message

end RenderError

inductive Call where
  | hook (identity : Nat)
  | environment (identity : Nat)
deriving DecidableEq

structure RenderOptions where
  environment : List (String × Json)
  inline : Option Bool
  policy : Policy
  asJson : Bool

namespace RenderOptions

def standard : RenderOptions := ⟨[], none, .empty, false⟩

def allow (options : RenderOptions) (directive : String) (tokens : List String) : RenderOptions :=
  { options with policy := options.policy.append directive tokens }

end RenderOptions

/-- How a rendering ended, with the writer and the buffers it left and the functions it ran. -/
structure Rendered where
  writer : Writer
  pool : Pool
  calls : List Call
  result : Except RenderError Unit

structure Prepared where
  writer : Writer
  calls : List Call
  result : Except RenderError Json

structure Environment where
  calls : List Call
  result : Except RenderError (List (String × Json))

def contentTypeName : String := "content-type"

def htmlType : String := "text/html; charset=utf-8"

def jsonType : String := "application/json"

namespace Page

def runHooks (request : Request) : List Hook → Writer → Json → Prepared
  | [], writer, data => ⟨writer, [], .ok data⟩
  | hook :: hooks, writer, data =>
      match hook.run writer request data with
      | (writer, .error failure) =>
          ⟨writer, [.hook hook.identity], .error (.hook hook.id failure)⟩
      | (writer, .ok data) =>
          let later := runHooks request hooks writer data
          ⟨later.writer, .hook hook.identity :: later.calls, later.result⟩

/-- Later functions take the place of earlier ones of the same key. -/
def runEnvironment (request : Request) : List EnvironmentFunction → List (String × Json) →
    Environment
  | [], values => ⟨[], .ok values⟩
  | function :: functions, values =>
      match function.run request with
      | .error failure =>
          ⟨[.environment function.identity], .error (.environment function.key failure)⟩
      | .ok value =>
          let later := runEnvironment request functions (Table.put values function.key value)
          ⟨.environment function.identity :: later.calls, later.result⟩

/-- The values given with the request win over those of functions. -/
def environmentFor (page : Page) (request : Request) (options : RenderOptions) : Environment :=
  let values := runEnvironment request page.environment []
  ⟨values.calls, values.result.map fun found =>
    options.environment.foldl (fun values (key, value) => Table.put values key value) found⟩

def policyFor (writer : Writer) (options : RenderOptions) : Policy :=
  let given :=
    match writer.headers with
    | some headers => Policy.ofHeaders headers
    | none => Policy.empty
  given.merge options.policy

def setContentType (writer : Writer) (type : String) : Writer :=
  { writer with
    headers := writer.headers.map fun headers =>
      headers.insert contentTypeName (Text.encodeString type) }

def writeBody (writer : Writer) (bytes : Bytes) : Writer × Except RenderError Unit :=
  match writer.write bytes with
  | .ok writer => (writer, .ok ())
  | .error error => (writer, .error (.write error))

def writePolicy (writer : Writer) (policy : Policy) : Except RenderError Writer :=
  match writer.headers with
  | none => .ok writer
  | some headers =>
      match policy.writeTo headers with
      | .ok headers => .ok { writer with headers := some headers }
      | .error error => .error (.header error)

structure Composed where
  policy : Policy
  slots : Slots

def compose (page : Page) (writer : Writer) (environment : List (String × Json))
    (options : RenderOptions) : Composed :=
  let delivery := page.delivery options.inline
  let (css, policy) := Block.css page.css delivery (policyFor writer options)
  let (js, policy) := Block.js page.js environment delivery policy
  ⟨policy, ⟨css, js, Text.encodeString policy.metaTag⟩⟩

/-- The buffer holds what was executed, also when nothing of it is written. -/
def renderHtml (page : Page) (writer : Writer) (request : Request) (buffer : Buffer) (data : Json)
    (options : RenderOptions) : Writer × Buffer × List Call × Except RenderError Unit :=
  let environment := page.environmentFor request options
  match environment.result with
  | .error error => (writer, buffer, environment.calls, .error error)
  | .ok values =>
      let composed := page.compose writer values options
      let output : Output (List Bytes) := execute page.fragments page.main data composed.slots
      let buffer := buffer.appendAll output.bytes
      match output.failure with
      | some error => (writer, buffer, environment.calls, .error (.execution page.main error))
      | none =>
          match writePolicy writer composed.policy with
          | .error error => (writer, buffer, environment.calls, .error error)
          | .ok written =>
              let (writer, result) := writeBody (setContentType written htmlType) buffer.content
              (writer, buffer, environment.calls, result)

def renderJson (writer : Writer) (buffer : Buffer) (data : Json) :
    Writer × Buffer × List Call × Except RenderError Unit :=
  let buffer := buffer.appendAll (data.pieces.map Text.encode)
  let (writer, result) := writeBody (setContentType writer jsonType) buffer.content
  (writer, buffer, [], result)

/-- No data is the object without fields. -/
def startData : Json → Json
  | .null => .object []
  | data => data

def render (page : Page) (pool : Pool) (writer : Writer) (request : Request) (data : Json)
    (options : RenderOptions) : Rendered :=
  let prepared := runHooks request page.hooks writer (startData data)
  match prepared.result with
  | .error error => ⟨prepared.writer, pool, prepared.calls, .error error⟩
  | .ok data =>
      let (buffer, pool) := pool.get
      let (writer, buffer, calls, result) :=
        if options.asJson then renderJson prepared.writer buffer data
        else page.renderHtml prepared.writer request buffer data options
      ⟨writer, pool.put buffer, prepared.calls ++ calls, result⟩

end Page

end PageAssembly
