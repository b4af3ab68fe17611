import PageAssembly.Html.Escape
import PageAssembly.Text.Blank

/-!
Content security policies: directives in order, each with a name and tokens. Of several directives
with one name, up to case, only the first has effect, so tokens are added to that one.
-/

namespace PageAssembly

structure Directive where
  name : String
  tokens : List String
deriving DecidableEq

structure Policy where
  directives : List Directive
deriving DecidableEq

namespace Directive

def isNamed (directive : Directive) (name : String) : Bool :=
  Text.sameIgnoringCase directive.name name

def add (directive : Directive) (token : String) : Directive :=
  if token ∈ directive.tokens then directive
  else { directive with tokens := directive.tokens ++ [token] }

def addAll (directive : Directive) (tokens : List String) : Directive :=
  tokens.foldl add directive

def print (directive : Directive) : String :=
  Text.join " " (directive.name :: directive.tokens)

/-- The first word of a segment is the name, the others are the tokens. -/
def ofSegment? (segment : List Char) : Option Directive :=
  match Text.words segment with
  | [] => none
  | name :: tokens => some ⟨String.ofList name, tokens.map String.ofList⟩

end Directive

namespace Policy

def empty : Policy := ⟨[]⟩

def parse (text : String) : Policy :=
  ⟨(Text.splitWhere (· == ';') text.toList).filterMap Directive.ofSegment?⟩

def print (policy : Policy) : String :=
  Text.join "; " (policy.directives.map Directive.print)

/-- The directive of a name that has effect. -/
def find? (policy : Policy) (name : String) : Option Directive :=
  policy.directives.find? fun directive => directive.isNamed name

def tokens? (policy : Policy) (name : String) : Option (List String) :=
  (policy.find? name).map Directive.tokens

def contains (policy : Policy) (name token : String) : Bool :=
  match policy.tokens? name with
  | some tokens => tokens.contains token
  | none => false

def addToFirst (name : String) (tokens : List String) : List Directive → List Directive
  | [] => [(⟨name, []⟩ : Directive).addAll tokens]
  | directive :: directives =>
      if directive.isNamed name then directive.addAll tokens :: directives
      else directive :: addToFirst name tokens directives

/-- Adds tokens to a directive, which is made at the end if there is none. Without tokens nothing
changes. -/
def append (policy : Policy) (name : String) (tokens : List String) : Policy :=
  if tokens.isEmpty then policy else ⟨addToFirst name tokens policy.directives⟩

/-- Takes over a directive; one without tokens only if there is none of its name. -/
def mergeDirective (policy : Policy) (directive : Directive) : Policy :=
  if directive.tokens.isEmpty && (policy.find? directive.name).isNone then
    ⟨policy.directives ++ [directive]⟩
  else
    policy.append directive.name directive.tokens

def merge (policy other : Policy) : Policy :=
  other.directives.foldl mergeDirective policy

/-- Directives that have no effect in a document. -/
def headerOnly : List String := ["frame-ancestors", "report-uri", "sandbox"]

def inDocument (policy : Policy) : Policy :=
  ⟨policy.directives.filter fun directive => !headerOnly.any directive.isNamed⟩

def metaTag (policy : Policy) : String :=
  "<meta http-equiv=\"Content-Security-Policy\" content=\"" ++
    String.ofList (Html.escapeAttribute policy.inDocument.print.toList) ++ "\">"

end Policy

end PageAssembly
