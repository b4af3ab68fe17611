import PageAssembly.Policy.Header
import PageAssembly.Setup.Hook

/-!
Hooks that are lists of actions, and functions that give one part of the request or a fixed value.
-/

namespace PageAssembly

/-- The first four change fields of the data. The data itself can be replaced; header fields, tokens
of the policy and text go to the writer. -/
inductive HookAction where
  | setField (key : String) (value : Json)
  | appendText (key added : String)
  | setFromHeader (key header : String)
  | setFromPath (key : String)
  | replaceData (value : Json)
  | insertHeader (name value : String)
  | allow (directive : String) (tokens : List String)
  | writeText (content : String)
  | fail (message : String)

/-- A value of the request as JSON; a header that is absent or no text is null. -/
def Request.headerValue (request : Request) (name : String) : Json :=
  match (Headers.name? name).bind request.headers.text? with
  | some value => .string value
  | none => .null

namespace HookAction

def notObject : Failure := ⟨"data is not an object"⟩

def changeField (data : Json) (key : String) (change : Json → Json) : Except Failure Json :=
  match data with
  | .object fields =>
      let old := (Table.get? fields key).getD .null
      .ok (.object (Table.put fields key (change old)))
  | _ => .error notObject

def addText (added : String) : Json → Json
  | .string text => .string (text ++ added)
  | _ => .string added

def changeHeaders (writer : Writer) (data : Json) (change : Headers → Except HeaderError Headers) :
    Writer × Except Failure Json :=
  match writer.headers with
  | none => (writer, .ok data)
  | some headers =>
      match change headers with
      | .ok headers => ({ writer with headers := some headers }, .ok data)
      | .error error => (writer, .error ⟨error.message⟩)

def insertField (name value : String) (headers : Headers) : Except HeaderError Headers :=
  match Headers.name? name with
  | some name => headers.insertText name value
  | none => .error .invalidName

def run (action : HookAction) (writer : Writer) (request : Request) (data : Json) :
    Writer × Except Failure Json :=
  match action with
  | .setField key value => (writer, changeField data key fun _ => value)
  | .appendText key added => (writer, changeField data key (addText added))
  | .setFromHeader key header =>
      (writer, changeField data key fun _ => request.headerValue header)
  | .setFromPath key => (writer, changeField data key fun _ => .string request.path)
  | .replaceData value => (writer, .ok value)
  | .insertHeader name value => changeHeaders writer data (insertField name value)
  | .allow directive tokens =>
      changeHeaders writer data fun headers => Policy.appendToHeaders headers directive tokens
  | .writeText content =>
      match writer.write (Text.encodeString content) with
      | .ok writer => (writer, .ok data)
      | .error error => (writer, .error ⟨error.message⟩)
  | .fail message => (writer, .error ⟨message⟩)

/-- Actions run in order up to the first that fails; what was done before stays done. -/
def runAll : List HookAction → Writer → Request → Json → Writer × Except Failure Json
  | [], writer, _, data => (writer, .ok data)
  | action :: actions, writer, request, data =>
      match action.run writer request data with
      | (writer, .ok data) => runAll actions writer request data
      | (writer, .error failure) => (writer, .error failure)

end HookAction

def Hook.ofActions (id : String) (identity : Nat) (actions : List HookAction) : Hook :=
  ⟨id, identity, HookAction.runAll actions⟩

inductive ValueSource where
  | path
  | method
  | header (name : String)
  | failure (message : String)
  | fixed (value : Json)

def ValueSource.value (source : ValueSource) (request : Request) : Except Failure Json :=
  match source with
  | .path => .ok (.string request.path)
  | .method => .ok (.string request.method)
  | .header name => .ok (request.headerValue name)
  | .failure message => .error ⟨message⟩
  | .fixed value => .ok value

def EnvironmentFunction.ofSource (key : String) (identity : Nat) (source : ValueSource) :
    EnvironmentFunction :=
  ⟨key, identity, source.value⟩

end PageAssembly
