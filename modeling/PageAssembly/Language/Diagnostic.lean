import PageAssembly.Language.Fault
import PageAssembly.Text.Blank
import PageAssembly.Text.Width

/-!
A diagnostic shows a span of a source in colours, with its message attached by a drawn line. Spans
are taken as positions of characters.
-/

namespace PageAssembly.Language

structure Diagnostic where
  span : Span
  message : String
  expected : List String

def SourceError.diagnostic (error : SourceError) : Diagnostic :=
  ⟨error.span, error.fault.message, error.fault.expected.map Token.description⟩

structure SourceLine where
  number : Nat
  offset : Nat
  content : List Char
deriving Inhabited

def SourceLine.stop (line : SourceLine) : Nat :=
  line.offset + line.content.length

def endsLine (c : Char) : Bool :=
  c = '\n' || c = '\r' || c = '\x0b' || c = '\x0c' || c = '\u0085' || c = '\u2028' || c = '\u2029'

/-- Every line keeps its end; a carriage return before a line feed ends no line of its own. -/
def lineContents : List Char → List (List Char)
  | [] => []
  | '\r' :: '\n' :: rest => ['\r', '\n'] :: lineContents rest
  | c :: rest =>
      if endsLine c then
        [c] :: lineContents rest
      else
        match lineContents rest, rest with
        | line :: lines, _ :: _ => (c :: line) :: lines
        | lines, _ => [c] :: lines

def numberLines (number offset : Nat) : List (List Char) → List SourceLine
  | [] => []
  | content :: contents =>
      ⟨number, offset, content⟩ :: numberLines (number + 1) (offset + content.length) contents

def sourceLines (source : List Char) : List SourceLine :=
  numberLines 1 0 (lineContents source)

/-- The line of a position; the end of a source belongs to its last line. -/
def lineAt? (source : List Char) (position : Nat) : Option SourceLine :=
  if position ≤ source.length then
    (sourceLines source).reverse.find? fun line => line.offset ≤ position
  else
    none

namespace Diagnostic

def painted (colour text : String) : String :=
  "\x1b[" ++ colour ++ "m" ++ text ++ "\x1b[0m"

def frameColour : String := "38;5;246"

def gutterColour : String := "38;5;240"

def sourceColour : String := "38;5;249"

def alertColour : String := "31"

def alert (text : String) : String :=
  painted alertColour text

def blanks (count : Nat) : String :=
  String.ofList (List.replicate count ' ')

/-- The character that is drawn and its cells. A tab fills up to a multiple of four columns. -/
def cell (column : Nat) (c : Char) : Char × Nat :=
  if c = '\t' then (' ', 4 - column % 4)
  else if Text.isBlank c then (' ', 1)
  else (c, Text.cellWidth c)

def repeated (count : Nat) (text : String) : String :=
  String.join (List.replicate count text)

def shownChar (diagnostic : Diagnostic) (offset column : Nat) (c : Char) : String :=
  let position := offset + column
  let inside := diagnostic.span.start ≤ position && position < diagnostic.span.stop
  let colour := if inside then alertColour else sourceColour
  let (drawn, width) := cell column c
  let sign := painted colour (String.singleton drawn)
  if drawn = ' ' then repeated width sign else sign

def shownLine (diagnostic : Diagnostic) (line : SourceLine) : String :=
  String.join ((Text.trimEnd line.content).mapIdx (diagnostic.shownChar line.offset))

def drawnRow (line : SourceLine) (count : Nat) (signs : Nat → String × String) : String :=
  let content := Text.trimEnd line.content
  String.join ((List.range count).map fun column =>
    let width :=
      match content[column]? with
      | some c => (cell column c).2
      | none => 1
    let (first, more) := signs column
    match width with
    | 0 => ""
    | width + 1 => first ++ repeated width more)

def labelText (diagnostic : Diagnostic) : String :=
  if diagnostic.expected.isEmpty then
    diagnostic.message
  else
    diagnostic.message ++ "\nExpected: " ++ Text.join ", " diagnostic.expected

def numbered (width : Nat) (line : SourceLine) : String :=
  let number := Text.decimalString line.number
  " " ++ painted frameColour (blanks (width - number.length) ++ number ++ " │") ++ " "

def gutter (width : Nat) (bar : String) : String :=
  " " ++ painted gutterColour (blanks (width + 1) ++ bar) ++ " "

def underLine (diagnostic : Diagnostic) (width : Nat) (line : SourceLine) : String :=
  let span := diagnostic.span
  let middle := (span.start + span.stop) / 2 - line.offset
  let count := span.stop - line.offset + 2
  let inside (column : Nat) : Bool :=
    span.start ≤ line.offset + column && line.offset + column < span.stop
  let under := drawnRow line count fun column =>
    if column = middle then
      if inside column then (alert "┬", alert "─") else (alert "│", alert " ")
    else if inside column then (alert "─", alert "─")
    else (" ", " ")
  let lead := drawnRow line count fun column =>
    if column = middle then (alert "╰", alert "─")
    else if middle < column then (alert "─", alert "─")
    else (" ", " ")
  numbered width line ++ diagnostic.shownLine line ++ "\n" ++
    gutter width "│" ++ under ++ "\n" ++
    gutter width "│" ++ lead ++ " " ++ diagnostic.labelText ++ "\n"

/-- A line whose span stops behind the end of the source is left out, and the message with it. -/
def withinLine (diagnostic : Diagnostic) (width : Nat) (line : SourceLine) : String :=
  if diagnostic.span.stop ≤ line.stop then
    diagnostic.underLine width line
  else
    gutter width "│" ++ "\n"

/-- A span over several lines: a line beside its first and last line leads to the message, the lines
between are left out. When the span stops behind the end of the source, its last line is left out
too, and the message with it. -/
def overLines (diagnostic : Diagnostic) (width : Nat) (first last : SourceLine) : String :=
  let arrow (corner : String) : String := alert corner ++ alert "─" ++ alert "▶" ++ alert " "
  let count := last.content.length + 2
  let skipped := gutter width "┆" ++ alert "┆" ++ blanks 3 ++ "\n"
  let head := numbered width first ++ arrow "╭" ++ diagnostic.shownLine first ++ "\n"
  if diagnostic.span.stop ≤ last.stop then
    head ++
      (if first.number + 1 < last.number then skipped else "") ++
      numbered width last ++ arrow "├" ++ diagnostic.shownLine last ++ "\n" ++
      gutter width "│" ++ alert "│" ++ blanks 3 ++
        drawnRow last count (fun _ => (" ", " ")) ++ "\n" ++
      gutter width "│" ++ alert "╰" ++ repeated 3 (alert "─") ++
        drawnRow last count (fun _ => (alert "─", alert "─")) ++ " " ++ diagnostic.labelText ++ "\n"
  else
    head ++ skipped

def location (diagnostic : Diagnostic) (name : String) (line : SourceLine) : String :=
  name ++ ":" ++ Text.decimalString line.number ++ ":" ++
    Text.decimalString (diagnostic.span.start - line.offset + 1)

/-- A span that lies outside of the source has a message only. -/
def render (diagnostic : Diagnostic) (source name : String) : String :=
  let span := diagnostic.span
  let title := alert "Error:" ++ " " ++ diagnostic.message ++ "\n"
  let text := source.toList
  match lineAt? text span.start, lineAt? text (max (span.stop - 1) span.start) with
  | some first, some last =>
      let width := (Text.decimal last.number).length
      title ++ blanks (width + 2) ++ painted frameColour "╭" ++ painted frameColour "─" ++
        painted frameColour "[" ++ diagnostic.location name first ++ painted frameColour "]" ++
        "\n" ++ blanks (width + 2) ++ painted frameColour "│" ++ "\n" ++
        (if first.number = last.number then diagnostic.withinLine width first
          else diagnostic.overLines width first last) ++
        painted frameColour (repeated (width + 2) "─" ++ "╯") ++ "\n"
  | _, _ => title

end Diagnostic

end PageAssembly.Language
