/-!
Character classes given by their boundaries. A class is the increasing list of the code points at
which membership changes, starting outside the class.
-/

namespace PageAssembly.Text

/-- A code point is inside when an odd number of boundaries is at or below it. -/
def insideBounds (bounds : List Nat) (c : Char) : Bool :=
  bounds.countP (fun bound => bound ≤ c.toNat) % 2 == 1

end PageAssembly.Text
