/-!
Finding, cutting and replacing in lists of characters.
-/

namespace PageAssembly.Text

def after? : (mark text : List Char) → Option (List Char)
  | [], text => some text
  | _ :: _, [] => none
  | m :: mark, c :: text => if m = c then after? mark text else none

theorem after?_eq_some {mark text later : List Char} :
    after? mark text = some later ↔ text = mark ++ later := by
  induction mark generalizing text with
  | nil => simp [after?]
  | cons m mark induction =>
      cases text with
      | nil => simp [after?]
      | cons c text =>
          by_cases same : m = c
          · simp [after?, same, induction]
          · simp [after?, same, Ne.symm same]

def cut? (mark : List Char) : (text : List Char) → Option (List Char × List Char)
  | [] => (after? mark []).map fun later => ([], later)
  | c :: text =>
      match after? mark (c :: text) with
      | some later => some ([], later)
      | none => (cut? mark text).map fun (earlier, later) => (c :: earlier, later)

theorem eq_of_cut? {mark text earlier later : List Char}
    (found : cut? mark text = some (earlier, later)) :
    text = earlier ++ mark ++ later := by
  induction text generalizing earlier with
  | nil =>
      simp only [cut?, Option.map_eq_some_iff, Prod.mk.injEq] at found
      obtain ⟨_, reached, rfl, rfl⟩ := found
      simpa using after?_eq_some.mp reached
  | cons c text induction =>
      simp only [cut?] at found
      split at found
      · rename_i _ reached
        simp only [Option.some.injEq, Prod.mk.injEq] at found
        obtain ⟨rfl, rfl⟩ := found
        simpa using after?_eq_some.mp reached
      · simp only [Option.map_eq_some_iff, Prod.exists, Prod.mk.injEq] at found
        obtain ⟨before, _, tail, rfl, rfl⟩ := found
        simp [induction tail]

def splitWhere (isSeparator : Char → Bool) : List Char → List (List Char)
  | [] => [[]]
  | c :: text =>
      if isSeparator c then
        [] :: splitWhere isSeparator text
      else
        match splitWhere isSeparator text with
        | piece :: pieces => (c :: piece) :: pieces
        | [] => [[c]]

def replaceChar (target : Char) (replacement : List Char) (text : List Char) : List Char :=
  text.flatMap fun c => if c = target then replacement else [c]

def dropLeading (c : Char) (text : List Char) : List Char :=
  text.dropWhile (· == c)

def dropTrailing (c : Char) (text : List Char) : List Char :=
  (text.reverse.dropWhile (· == c)).reverse

def join (separator : String) : List String → String
  | [] => ""
  | [text] => text
  | text :: texts => text ++ separator ++ join separator texts

def lowerAscii (text : String) : String :=
  String.ofList (text.toList.map Char.toLower)

/-- Equality up to the case of the letters of ASCII. -/
def sameIgnoringCase (left right : String) : Bool :=
  lowerAscii left == lowerAscii right

end PageAssembly.Text
