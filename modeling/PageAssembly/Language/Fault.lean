import PageAssembly.Language.Token
import PageAssembly.Text.Quoted

/-!
What can be wrong with a source, where, and what could have stood there.
-/

namespace PageAssembly.Language

inductive Fault where
  | unclosedComment
  | unclosedAction
  /-- No token starts with these characters of an action. -/
  | noToken (characters : List Char)
  /-- A token that cannot follow those before it, or the end of the source. The tokens listed could,
  of those that have only one spelling. -/
  | unexpected (found : Option Token) (expected : List Token)
deriving DecidableEq

def Fault.message : Fault → String
  | .unclosedComment => "unclosed comment"
  | .unclosedAction => "unclosed action"
  | .noToken characters =>
      "unexpected character in action: " ++ String.ofList (Text.quoted characters)
  | .unexpected (some token) _ => "Unexpected " ++ token.description
  | .unexpected none _ => "Unexpected end of input"

def Fault.expected : Fault → List Token
  | .unclosedComment => [.closeAction]
  | .unclosedAction => [.closeAction]
  | .noToken _ => []
  | .unexpected _ expected => expected

structure SourceError where
  span : Span
  fault : Fault
deriving DecidableEq

def SourceError.message (error : SourceError) : String :=
  "Parse error at " ++ Text.decimalString error.span.start ++ ".." ++
    Text.decimalString error.span.stop ++ ": " ++ error.fault.message

end PageAssembly.Language
