import PageAssembly.Toml.Quoted
import PageAssembly.Toml.Scalar

/-!
Reading documents: lines with assignments and headers. Arrays can go over several lines, tables that
are written as values cannot.
-/

namespace PageAssembly.Toml

def isKeyChar (c : Char) : Bool :=
  ('a' ≤ c && c ≤ 'z') || ('A' ≤ c && c ≤ 'Z') || Text.isDecimal c || c == '_' || c == '-'

def readKeyPart : List Char → Option (String × List Char)
  | '"' :: rest => (readEscaped rest).map fun (content, rest) => (String.ofList content, rest)
  | '\'' :: rest => (readPlain rest).map fun (content, rest) => (String.ofList content, rest)
  | text =>
      match text.span isKeyChar with
      | ([], _) => none
      | (name, rest) => some (String.ofList name, rest)

def readKeyParts (text : List Char) : Option (List String × List Char) :=
  match readKeyPart (skipBlanks text) with
  | none => none
  | some (part, rest) =>
      match skipBlanks rest with
      | '.' :: later =>
          if _ : later.length < text.length then do
            let (parts, rest) ← readKeyParts later
            some (part :: parts, rest)
          else
            none
      | later => some ([part], later)
termination_by text.length

/-- Keys have fewer parts than this, and values fewer containers around them. -/
def depthLimit : Nat := 80

def readKey (text : List Char) : Option (List String × String × List Char) := do
  let (parts, rest) ← readKeyParts text
  let key ← parts.getLast?
  if parts.length < depthLimit then some (parts.dropLast, key, rest) else none

def readAssignment (value : List Char → Option (Toml × List Char)) (text : List Char) :
    Option (Assignment × List Char) := do
  let (path, key, rest) ← readKey text
  let rest ← Text.after? ['='] rest
  let (value, rest) ← value (skipBlanks rest)
  some (⟨path, key, value⟩, rest)

def skipFiller (text : List Char) : List Char :=
  match text with
  | '#' :: rest => skipFiller (rest.dropWhile isLegible)
  | ' ' :: rest => skipFiller rest
  | '\t' :: rest => skipFiller rest
  | '\n' :: rest => skipFiller rest
  | '\r' :: '\n' :: rest => skipFiller rest
  | text => text
termination_by text.length
decreasing_by
  · have : (rest.dropWhile isLegible).length ≤ rest.length :=
      (List.dropWhile_sublist _).length_le
    simp only [List.length_cons]
    omega
  all_goals
    simp only [List.length_cons]
    omega

/-- The items behind the opening bracket; a comma can follow the last one. Each item must take
something, so that reading ends. -/
def readItems (item : List Char → Option (Toml × List Char)) (text : List Char) :
    Option (List Toml × List Char) :=
  match skipFiller text with
  | ']' :: rest => some ([], rest)
  | start =>
      match item start with
      | none => none
      | some (value, rest) =>
          match skipFiller rest with
          | ']' :: rest => some ([value], rest)
          | ',' :: later =>
              if _ : later.length < text.length then do
                let (values, rest) ← readItems item later
                some (value :: values, rest)
              else
                none
          | _ => none
termination_by text.length

def readEntries (value : List Char → Option (Toml × List Char)) (text : List Char) :
    Option (List Assignment × List Char) :=
  match readAssignment value text with
  | none => none
  | some (assignment, rest) =>
      match skipBlanks rest with
      | '\x7d' :: rest => some ([assignment], rest)
      | ',' :: later =>
          if _ : later.length < text.length then do
            let (assignments, rest) ← readEntries value later
            some (assignment :: assignments, rest)
          else
            none
      | _ => none
termination_by text.length

def readValue (room : Nat) (text : List Char) : Option (Toml × List Char) :=
  match text with
  | '[' :: rest =>
      match room with
      | 0 => none
      | room + 1 => do
          let (items, rest) ← readItems (readValue room) rest
          some (.array items, rest)
  | '\x7b' :: rest =>
      match room with
      | 0 => none
      | room + 1 => do
          let (assignments, rest) ←
            match skipBlanks rest with
            | '\x7d' :: rest => some ([], rest)
            | rest => readEntries (readValue room) rest
          let entries ← assignAll [] assignments
          some (.table .written entries, rest)
  | text =>
      match readQuoted text with
      | some (content, rest) => some (.string (String.ofList content), rest)
      | none => readScalar text

def lineEnd? (text : List Char) : Option (List Char) :=
  let rest :=
    match skipBlanks text with
    | '#' :: comment => comment.dropWhile isLegible
    | rest => rest
  if rest.isEmpty then some [] else newline? rest

inductive Line where
  | header (header : Header)
  | assignment (assignment : Assignment)

def readLine (text : List Char) : Option (Line × List Char) :=
  match text with
  | '[' :: '[' :: rest => do
      let (path, key, rest) ← readKey rest
      let rest ← Text.after? [']', ']'] rest
      some (.header ⟨path, key, true⟩, rest)
  | '[' :: rest => do
      let (path, key, rest) ← readKey rest
      let rest ← Text.after? [']'] rest
      some (.header ⟨path, key, false⟩, rest)
  | text => do
      let (assignment, rest) ← readAssignment (readValue (depthLimit - 1)) text
      some (.assignment assignment, rest)

def Document.add (line : Line) (later : Document) : Document :=
  match line with
  | .assignment assignment => { later with assignments := assignment :: later.assignments }
  | .header header => ⟨[], ⟨header, later.assignments⟩ :: later.sections⟩

def readLines (text : List Char) : Option Document :=
  if text.isEmpty then
    some ⟨[], []⟩
  else
    match lineEnd? text with
    | some rest => if _ : rest.length < text.length then readLines rest else none
    | none => do
        let (line, rest) ← readLine (skipBlanks text)
        let rest ← lineEnd? rest
        if _ : rest.length < text.length then
          let later ← readLines rest
          some (later.add line)
        else
          none
termination_by text.length

/-- The table that a text spells. A mark of the byte order before it does not count. -/
def read? (text : List Char) : Option Entries := do
  let document ← readLines ((Text.after? ['\ufeff'] text).getD text)
  document.entries?

end PageAssembly.Toml
