import PageAssembly.Decimal.Binary64
import PageAssembly.Table

/-!
JSON values. Whole numbers and binary ones stay apart; the fields of an object stand in increasing
order of their names, each name once.
-/

namespace PageAssembly

/-- Whole numbers have 64 bits, with a sign or without. -/
inductive Number where
  | whole (value : Int)
  | real (value : Binary64)
deriving DecidableEq

inductive Json where
  | null
  | bool (value : Bool)
  | number (value : Number)
  | string (text : String)
  | array (items : List Json)
  | object (fields : List (String × Json))

namespace Json

instance : Inhabited Json := ⟨.null⟩

def nat (value : Nat) : Json :=
  .number (.whole value)

/-- What is missing, false, zero or empty does not hold. -/
def holds : Json → Bool
  | .null => false
  | .bool value => value
  | .number (.whole value) => value != 0
  | .number (.real value) => !value.isZero
  | .string text => text != ""
  | .array items => !items.isEmpty
  | .object fields => !fields.isEmpty

end Json

end PageAssembly
