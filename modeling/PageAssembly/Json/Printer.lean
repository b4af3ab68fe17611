import PageAssembly.Json.Value
import PageAssembly.Text.Digits

/-!
The compact text of a JSON value: no blanks, and only what has to be escaped is escaped. To a buffer
it is written in pieces: an escape, what stands between two escapes, a number and a mark are one
each.
-/

namespace PageAssembly.Json

def printedChar (c : Char) : List Char :=
  match c with
  | '"' => ['\\', '"']
  | '\\' => ['\\', '\\']
  | '\x08' => ['\\', 'b']
  | '\x0c' => ['\\', 'f']
  | '\n' => ['\\', 'n']
  | '\r' => ['\\', 'r']
  | '\t' => ['\\', 't']
  | c =>
      if c.toNat < 0x20 then
        ['\\', 'u', '0', '0', Text.digitChar (c.toNat / 16), Text.digitChar (c.toNat % 16)]
      else
        [c]

def printString (text : String) : List Char :=
  '"' :: text.toList.flatMap printedChar ++ ['"']

def printNumber : Number → List Char
  | .whole value => Text.integer value
  | .real value => value.print

mutual

def print : Json → List Char
  | .null => ['n', 'u', 'l', 'l']
  | .bool true => ['t', 'r', 'u', 'e']
  | .bool false => ['f', 'a', 'l', 's', 'e']
  | .number value => printNumber value
  | .string text => printString text
  | .array items => '[' :: printItems items ++ [']']
  | .object fields => '\x7b' :: printFields fields ++ ['\x7d']

def printItems : List Json → List Char
  | [] => []
  | [item] => print item
  | item :: items => print item ++ ',' :: printItems items

def printFields : List (String × Json) → List Char
  | [] => []
  | [(name, value)] => printString name ++ ':' :: print value
  | (name, value) :: fields => printString name ++ ':' :: print value ++ ',' :: printFields fields

end

def isPlain (c : Char) : Bool :=
  printedChar c == [c]

def stringPieces (text : String) : List (List Char) :=
  let runs := text.toList.splitBy fun c next => isPlain c && isPlain next
  ['"'] :: runs.map (fun run => run.flatMap printedChar) ++ [['"']]

mutual

def pieces : Json → List (List Char)
  | .string text => stringPieces text
  | .array items => ['['] :: itemPieces items ++ [[']']]
  | .object fields => ['\x7b'] :: fieldPieces fields ++ [['\x7d']]
  | value => [value.print]

def itemPieces : List Json → List (List Char)
  | [] => []
  | [item] => pieces item
  | item :: items => pieces item ++ [','] :: itemPieces items

def fieldPieces : List (String × Json) → List (List Char)
  | [] => []
  | [(name, value)] => stringPieces name ++ [':'] :: pieces value
  | (name, value) :: fields =>
      stringPieces name ++ [':'] :: pieces value ++ [','] :: fieldPieces fields

end

end PageAssembly.Json
