import PageAssembly.Http.Headers

/-!
What responses are written to: bytes, with header fields or without.
-/

namespace PageAssembly

inductive WriteError where
  | closed
deriving DecidableEq

def WriteError.message : WriteError → String
  | .closed => "writer closed"

structure Writer where
  headers : Option Headers
  body : Bytes
  closed : Bool
deriving DecidableEq

namespace Writer

def buffer : Writer := ⟨none, [], false⟩

def response (headers : Headers) : Writer := ⟨some headers, [], false⟩

/-- A closed writer takes no byte, so that only what is empty can be written to it. -/
def write (writer : Writer) (bytes : Bytes) : Except WriteError Writer :=
  if writer.closed && !bytes.isEmpty then .error .closed
  else .ok { writer with body := writer.body ++ bytes }

end Writer

end PageAssembly
