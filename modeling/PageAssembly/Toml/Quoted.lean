import PageAssembly.Text.Digits

/-!
Texts in quotation marks. Between double ones a backslash starts an escape, between single ones
nothing does. Three marks open a block, which can have line ends and single marks in it.
-/

namespace PageAssembly.Toml

def isBlank (c : Char) : Bool :=
  c == ' ' || c == '\t'

def skipBlanks (text : List Char) : List Char :=
  text.dropWhile isBlank

def newline? : List Char → Option (List Char)
  | '\n' :: rest => some rest
  | '\r' :: '\n' :: rest => some rest
  | _ => none

def isLegible (c : Char) : Bool :=
  c == '\t' || (0x20 ≤ c.toNat && c.toNat != 0x7f)

def charAt? (digits : List Char) : Option Char := do
  let point ← Text.valueIn? 16 digits
  if point.isValidChar then some (Char.ofNat point) else none

def shortEscape? : Char → Option Char
  | 'b' => some '\x08'
  | 't' => some '\t'
  | 'n' => some '\n'
  | 'f' => some '\x0c'
  | 'r' => some '\r'
  | '"' => some '"'
  | '\\' => some '\\'
  | _ => none

def escape? : List Char → Option (Char × List Char)
  | 'u' :: rest => if rest.length < 4 then none else (charAt? (rest.take 4)).map (·, rest.drop 4)
  | 'U' :: rest => if rest.length < 8 then none else (charAt? (rest.take 8)).map (·, rest.drop 8)
  | sign :: rest => (shortEscape? sign).map (·, rest)
  | [] => none

theorem escape?_shortens {text rest : List Char} {char : Char}
    (found : escape? text = some (char, rest)) : rest.length < text.length := by
  unfold escape? at found
  split at found
  · split at found
    · simp at found
    · simp only [Option.map_eq_some_iff, Prod.mk.injEq] at found
      obtain ⟨_, _, _, rfl⟩ := found
      simp only [List.length_drop, List.length_cons]
      omega
  · split at found
    · simp at found
    · simp only [Option.map_eq_some_iff, Prod.mk.injEq] at found
      obtain ⟨_, _, _, rfl⟩ := found
      simp only [List.length_drop, List.length_cons]
      omega
  · simp only [Option.map_eq_some_iff, Prod.mk.injEq] at found
    obtain ⟨_, _, _, rfl⟩ := found
    simp
  · simp at found

def readEscaped (text : List Char) : Option (List Char × List Char) :=
  match text with
  | [] => none
  | '"' :: rest => some ([], rest)
  | '\\' :: rest =>
      match _ : escape? rest with
      | none => none
      | some (char, later) => do
          let (content, later) ← readEscaped later
          some (char :: content, later)
  | c :: rest =>
      if isLegible c then do
        let (content, later) ← readEscaped rest
        some (c :: content, later)
      else
        none
termination_by text.length
decreasing_by
  · have := escape?_shortens (by assumption)
    simp only [List.length_cons]
    omega
  · simp

def readPlain (text : List Char) : Option (List Char × List Char) :=
  match text.span fun c => isLegible c && c != '\'' with
  | (content, '\'' :: rest) => some (content, rest)
  | _ => none

/-- Three marks close a block; up to two more before them belong to it. -/
def closing? (mark : Char) (text : List Char) : Option (List Char × List Char) :=
  let count := (text.takeWhile (· == mark)).length
  if count < 3 then none
  else
    let kept := min 2 (count - 3)
    some (List.replicate kept mark, text.drop (kept + 3))

def skipLines : List Char → List Char
  | ' ' :: rest => skipLines rest
  | '\t' :: rest => skipLines rest
  | '\n' :: rest => skipLines rest
  | '\r' :: '\n' :: rest => skipLines rest
  | text => text

/-- A backslash at the end of a line takes all blanks and line ends that follow. -/
def foldedLine? (text : List Char) : Option (List Char) :=
  (newline? (skipBlanks text)).map skipLines

theorem skipLines_le (text : List Char) : (skipLines text).length ≤ text.length := by
  fun_induction skipLines text <;> simp_all <;> omega

theorem newline?_shortens {text rest : List Char} (found : newline? text = some rest) :
    rest.length < text.length := by
  unfold newline? at found
  split at found
  · simp_all
  · simp only [Option.some.injEq] at found
    subst found
    simp only [List.length_cons]
    omega
  · simp at found

theorem foldedLine?_shortens {text rest : List Char} (found : foldedLine? text = some rest) :
    rest.length < text.length := by
  simp only [foldedLine?, Option.map_eq_some_iff] at found
  obtain ⟨line, ended, rfl⟩ := found
  have shorter := newline?_shortens ended
  have skipped : (skipBlanks text).length ≤ text.length :=
    (List.dropWhile_sublist _).length_le
  have := skipLines_le line
  omega

def readBlock (mark : Char) (text : List Char) : Option (List Char × List Char) :=
  match closing? mark text with
  | some closed => some closed
  | none =>
      match _ : newline? text with
      | some rest => do
          let (content, later) ← readBlock mark rest
          some ('\n' :: content, later)
      | none =>
          match text with
          | [] => none
          | c :: rest =>
              if c = '\\' ∧ mark = '"' then
                match _ : foldedLine? rest with
                | some later => readBlock mark later
                | none =>
                    match _ : escape? rest with
                    | none => none
                    | some (char, later) => do
                        let (content, later) ← readBlock mark later
                        some (char :: content, later)
              else if isLegible c then do
                let (content, later) ← readBlock mark rest
                some (c :: content, later)
              else
                none
termination_by text.length
decreasing_by
  · exact newline?_shortens (by assumption)
  · have := foldedLine?_shortens (by assumption)
    simp only [List.length_cons]
    omega
  · have := escape?_shortens (by assumption)
    simp only [List.length_cons]
    omega
  · simp

/-- A line end right behind the opening marks of a block does not count. -/
def skipFirstNewline (text : List Char) : List Char :=
  (newline? text).getD text

def readQuoted : List Char → Option (List Char × List Char)
  | '"' :: '"' :: '"' :: rest => readBlock '"' (skipFirstNewline rest)
  | '\'' :: '\'' :: '\'' :: rest => readBlock '\'' (skipFirstNewline rest)
  | '"' :: rest => readEscaped rest
  | '\'' :: rest => readPlain rest
  | _ => none

end PageAssembly.Toml
