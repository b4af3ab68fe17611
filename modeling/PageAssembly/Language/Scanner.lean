import PageAssembly.Language.Fault
import PageAssembly.Text.Bytes

/-!
From a source to its lexemes. Outside of actions everything is text but comments, which leave no
trace. Inside, tokens are as long as possible and blanks stand between them where they are needed.
-/

namespace PageAssembly.Language

open Text (byteSize cut?)

def isGap (c : Char) : Bool :=
  c = ' ' || c = '\t' || c = '\n' || c = '\r'

def startsName (c : Char) : Bool :=
  ('a' ≤ c && c ≤ 'z') || ('A' ≤ c && c ≤ 'Z') || c = '_'

def continuesName (c : Char) : Bool :=
  startsName c || ('0' ≤ c && c ≤ '9')

def nameLength (rest : List Char) : Nat :=
  (rest.takeWhile continuesName).length

/-- The names that follow, each behind a point, and the characters they take. A point with no name
behind it is left alone. -/
def pathNames : List Char → List String × Nat
  | '.' :: first :: rest =>
      if startsName first then
        let count := nameLength rest
        let (names, length) := pathNames (rest.drop count)
        (String.ofList (first :: rest.take count) :: names, length + count + 2)
      else
        ([], 0)
  | _ => ([], 0)
termination_by text => text.length
decreasing_by
  simp only [List.length_drop, List.length_cons]
  omega

def unescaped : Char → Char
  | 'n' => '\n'
  | 't' => '\t'
  | c => c

/-- The content of a string behind its opening quote and the length with the closing one. A
backslash takes the character after it, unless that is a line feed: then the answer is how far the
string got. -/
def stringContent : List Char → Except Nat (List Char × Nat)
  | [] => .error 0
  | '"' :: _ => .ok ([], 1)
  | '\\' :: '\n' :: _ => .error 0
  | '\\' :: c :: rest =>
      match stringContent rest with
      | .ok (content, length) => .ok (unescaped c :: content, length + 2)
      | .error length => .error (length + 2)
  | ['\\'] => .error 0
  | c :: rest =>
      match stringContent rest with
      | .ok (content, length) => .ok (c :: content, length + 1)
      | .error length => .error (length + 1)

/-- The token that starts with `first` and how many of the other characters belong to it, or how
many of them were read in vain. -/
def tokenAt (first : Char) (rest : List Char) : Except Nat (Token × Nat) :=
  if startsName first then
    let count := nameLength rest
    let name := String.ofList (first :: rest.take count)
    match Keyword.ofSpelling? name with
    | some word => .ok (.keyword word, count)
    | none => .ok (.identifier name, count)
  else
    match first with
    | '.' =>
        let (names, length) := pathNames ('.' :: rest)
        .ok (.field names, length - 1)
    | '$' =>
        let (names, length) := pathNames rest
        .ok (.root names, length)
    | '"' =>
        match stringContent rest with
        | .ok (content, length) => .ok (.quoted (String.ofList content), length)
        | .error length => .error length
    | _ => .error 0

def actionLexemes (position : Nat) : List Char → Except SourceError (List Lexeme)
  | [] => .ok []
  | first :: rest =>
      if isGap first then
        actionLexemes (position + byteSize [first]) rest
      else
        match tokenAt first rest with
        | .ok (token, count) => do
            let stop := position + byteSize (first :: rest.take count)
            let lexemes ← actionLexemes stop (rest.drop count)
            .ok (⟨token, ⟨position, stop⟩⟩ :: lexemes)
        | .error count =>
            let characters := first :: rest.take count
            .error ⟨⟨position, position + byteSize characters⟩, .noToken characters⟩
termination_by text => text.length
decreasing_by
  all_goals simp only [List.length_drop, List.length_cons]
  all_goals omega

/-- The length of an action up to its closing braces, those in strings not counted. -/
def actionLength? : (inString : Bool) → List Char → Option Nat
  | _, [] => none
  | true, '\\' :: _ :: rest => (actionLength? true rest).map (· + 2)
  | false, '\x7d' :: '\x7d' :: _ => some 0
  | inString, c :: rest =>
      (actionLength? (if c = '"' then !inString else inString) rest).map (· + 1)

def textLength : List Char → Nat
  | [] => 0
  | '\x7b' :: '\x7b' :: _ => 0
  | _ :: rest => textLength rest + 1

def commentOpening : List Char := ['\x7b', '\x7b', '/', '*']

def commentClosing : List Char := ['*', '/', '\x7d', '\x7d']

def lexemesFrom (position : Nat) : List Char → Except SourceError (List Lexeme)
  | [] => .ok []
  | '\x7b' :: '\x7b' :: '/' :: '*' :: rest =>
      match found : cut? commentClosing rest with
      | none => .error ⟨⟨position, position + 4⟩, .unclosedComment⟩
      | some (comment, later) => lexemesFrom (position + byteSize comment + 8) later
  | '\x7b' :: '\x7b' :: rest =>
      match actionLength? false rest with
      | none => .error ⟨⟨position, position + 2⟩, .unclosedAction⟩
      | some count => do
          let inside := rest.take count
          let closing := position + 2 + byteSize inside
          let action ← actionLexemes (position + 2) inside
          let later ← lexemesFrom (closing + 2) (rest.drop (count + 2))
          .ok (⟨.openAction, ⟨position, position + 2⟩⟩ ::
            action ++ ⟨.closeAction, ⟨closing, closing + 2⟩⟩ :: later)
  | first :: rest => do
      let count := textLength rest
      let content := first :: rest.take count
      let stop := position + byteSize content
      let later ← lexemesFrom stop (rest.drop count)
      .ok (⟨.text (String.ofList content), ⟨position, stop⟩⟩ :: later)
termination_by text => text.length
decreasing_by
  · simp only [Text.eq_of_cut? found, List.length_append, List.length_cons]
    omega
  all_goals simp only [List.length_drop, List.length_cons]
  all_goals omega

def scan (source : String) : Except SourceError (List Lexeme) :=
  lexemesFrom 0 source.toList

end PageAssembly.Language
