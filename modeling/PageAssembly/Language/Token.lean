import PageAssembly.Text.Search

/-!
The tokens of fragment sources. A source is text with actions in double braces; every token knows
the bytes that it covers.
-/

namespace PageAssembly.Language

/-- Byte positions, the first one covered and the first one behind. -/
structure Span where
  start : Nat
  stop : Nat
deriving DecidableEq, Inhabited

inductive Keyword where
  | define
  | template
  | block
  | condition
  | alternative
  | each
  | scope
  | finish
deriving DecidableEq

def Keyword.spelling : Keyword → String
  | .define => "define"
  | .template => "template"
  | .block => "block"
  | .condition => "if"
  | .alternative => "else"
  | .each => "range"
  | .scope => "with"
  | .finish => "end"

def Keyword.all : List Keyword :=
  [.define, .template, .block, .condition, .alternative, .each, .scope, .finish]

def Keyword.ofSpelling? (name : String) : Option Keyword :=
  Keyword.all.find? fun keyword => keyword.spelling == name

inductive Token where
  | text (content : String)
  | openAction
  | closeAction
  | keyword (word : Keyword)
  | field (names : List String)
  | root (names : List String)
  | identifier (name : String)
  | quoted (content : String)
deriving DecidableEq

def Token.description : Token → String
  | .text _ => "text"
  | .openAction => "'\x7b\x7b'"
  | .closeAction => "'\x7d\x7d'"
  | .keyword word => "keyword '" ++ word.spelling ++ "'"
  | .field names => "field '." ++ Text.join "." names ++ "'"
  | .root [] => "'$'"
  | .root names => "field '$." ++ Text.join "." names ++ "'"
  | .identifier name => "identifier '" ++ name ++ "'"
  | .quoted content => "string \"" ++ content ++ "\""

structure Lexeme where
  token : Token
  span : Span
deriving DecidableEq

end PageAssembly.Language
