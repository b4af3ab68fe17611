/-!
Bytes are lists, so that what a page writes can be taken apart. A text has one encoding, UTF-8.
-/

namespace PageAssembly

abbrev Bytes := List UInt8

namespace Text

def encode (text : List Char) : Bytes :=
  text.flatMap String.utf8EncodeChar

def encodeString (text : String) : Bytes :=
  encode text.toList

def decode? (bytes : Bytes) : Option String :=
  String.fromUTF8? ⟨bytes.toArray⟩

def byteSize : List Char → Nat
  | [] => 0
  | c :: text => c.utf8Size + byteSize text

/-- Texts are ordered by their encodings, which is the order of their code points. -/
def before (left right : String) : Bool :=
  left.toList < right.toList

end Text

end PageAssembly
