import PageAssembly.Text.Bytes
import PageAssembly.Text.Search

/-!
Header fields in the order in which they were added. A name can have several values; names are kept
in small letters.
-/

namespace PageAssembly

inductive HeaderError where
  | invalidName
  | invalidValue
deriving DecidableEq

def HeaderError.message : HeaderError → String
  | .invalidName => "invalid HTTP header name"
  | .invalidValue => "failed to parse header value"

structure Headers where
  fields : List (String × Bytes)
deriving DecidableEq

namespace Headers

def empty : Headers := ⟨[]⟩

def isNameChar (c : Char) : Bool :=
  ('a' ≤ c && c ≤ 'z') || ('A' ≤ c && c ≤ 'Z') || ('0' ≤ c && c ≤ '9') ||
    "!#$%&'*+-.^_\x60|~".toList.contains c

def maxName : Nat := 65535

/-- The form in which a name is kept, none if it is no name. -/
def name? (name : String) : Option String :=
  if name ≠ "" ∧ name.length ≤ maxName ∧ name.toList.all isNameChar then
    some (Text.lowerAscii name)
  else
    none

def validByte (byte : UInt8) : Bool :=
  byte == 0x09 || (0x20 ≤ byte && byte != 0x7f)

def validValue (value : Bytes) : Bool :=
  value.all validByte

/-- Only tabs and the visible part of ASCII are read back as text. -/
def visibleByte (byte : UInt8) : Bool :=
  byte == 0x09 || (0x20 ≤ byte && byte < 0x7f)

def textOf? (value : Bytes) : Option String :=
  if value.all visibleByte then
    some (String.ofList (value.map fun byte => Char.ofNat byte.toNat))
  else
    none

/-- The first value of a name. -/
def get? (headers : Headers) (name : String) : Option Bytes :=
  (headers.fields.find? fun (key, _) => key = name).map Prod.snd

def text? (headers : Headers) (name : String) : Option String :=
  (headers.get? name).bind textOf?

def append (headers : Headers) (name : String) (value : Bytes) : Headers :=
  ⟨headers.fields ++ [(name, value)]⟩

def insert (headers : Headers) (name : String) (value : Bytes) : Headers :=
  ⟨(headers.fields.filter fun (key, _) => key ≠ name) ++ [(name, value)]⟩

def insertText (headers : Headers) (name value : String) : Except HeaderError Headers :=
  let bytes := Text.encodeString value
  if validValue bytes then .ok (headers.insert name bytes) else .error .invalidValue

def add (headers : Headers) (name : String) (value : Bytes) : Headers :=
  match name? name with
  | some name => if validValue value then headers.append name value else headers
  | none => headers

def ofList (fields : List (String × Bytes)) : Headers :=
  fields.foldl (fun headers (name, value) => headers.add name value) empty

def sorted (headers : Headers) : List (String × Bytes) :=
  headers.fields.mergeSort fun left right => left.1 ≤ right.1

end Headers

end PageAssembly
