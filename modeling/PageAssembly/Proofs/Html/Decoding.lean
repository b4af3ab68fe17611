import PageAssembly.Html.Escape

/-!
Entities are undone by reading them from left to right. This asks something of a table of entities:
that none is replaced again, that each begins with an ampersand and none begins another, and that
the ampersand itself is replaced, so that no text looks like an entity once it has been replaced.
-/

namespace PageAssembly.Html

def replacement (entities : List (Char × String)) (c : Char) : List Char :=
  match entities.find? fun entry => entry.1 == c with
  | some entry => entry.2.toList
  | none => [c]

/-- Reads a text in one pass, when as many of its characters still belong to an entity that has been
read. -/
def decodeFrom (entities : List (Char × String)) : (inside : Nat) → (text : List Char) → List Char
  | _, [] => []
  | inside + 1, _ :: text => decodeFrom entities inside text
  | 0, c :: text =>
      match entities.find? fun entry => entry.2.toList.isPrefixOf (c :: text) with
      | some entry => entry.1 :: decodeFrom entities (entry.2.length - 1) text
      | none => c :: decodeFrom entities 0 text

/-- A text with its entities read; all that is no entity stands for itself. -/
def decode (entities : List (Char × String)) (text : List Char) : List Char :=
  decodeFrom entities 0 text

/-- Texts that have been replaced by these entities can be read. -/
structure Legible (entities : List (Char × String)) : Prop where
  settled : entities.Pairwise fun earlier later =>
    later.1 ≠ earlier.1 ∧ later.1 ∉ earlier.2.toList
  ampersand : ∃ entry ∈ entities, entry.1 = '&'
  begins : ∀ entry ∈ entities, ∃ rest, entry.2.toList = '&' :: rest
  apart : ∀ entry ∈ entities, ∀ other ∈ entities, entry.2.toList <+: other.2.toList → entry = other
  unmarked : ∀ entry ∈ entities, ∀ other ∈ entities, other.1 ∈ entry.2.toList → other.1 = '&'

section

variable {entities : List (Char × String)}

theorem replacement_cons (entry : Char × String) (c : Char) :
    replacement (entry :: entities) c =
      if entry.1 = c then entry.2.toList else replacement entities c := by
  unfold replacement
  by_cases same : entry.1 = c <;> simp [same]

theorem replacement_of_absent {c : Char} (absent : ∀ entry ∈ entities, entry.1 ≠ c) :
    replacement entities c = [c] := by
  have nothing : (entities.find? fun entry => entry.1 == c) = none := by
    simpa using absent
  rw [replacement, nothing]

theorem flatMap_replacement {text : List Char}
    (absent : ∀ entry ∈ entities, entry.1 ∉ text) :
    text.flatMap (replacement entities) = text := by
  induction text with
  | nil => rfl
  | cons c text induction =>
      have first : replacement entities c = [c] := by
        apply replacement_of_absent
        rintro entry member rfl
        exact absent entry member List.mem_cons_self
      have rest := induction fun entry member inside =>
        absent entry member (List.mem_cons_of_mem _ inside)
      rw [List.flatMap_cons, first, rest, List.singleton_append]

/-- Where no entity is replaced again, replacing one after the other comes to replacing at once. -/
theorem replaceEach_eq
    (settled : entities.Pairwise fun earlier later =>
      later.1 ≠ earlier.1 ∧ later.1 ∉ earlier.2.toList) (text : List Char) :
    replaceEach entities text = text.flatMap (replacement entities) := by
  induction entities generalizing text with
  | nil =>
      rw [flatMap_replacement (by simp)]
      rfl
  | cons entry entities induction =>
      obtain ⟨first, rest⟩ := List.pairwise_cons.mp settled
      have later := induction rest (Text.replaceChar entry.1 entry.2.toList text)
      unfold replaceEach at later ⊢
      rw [List.foldl_cons, later, Text.replaceChar, List.flatMap_assoc]
      congr 1
      funext c
      rw [replacement_cons]
      by_cases same : c = entry.1
      · -- the entity has no character that is replaced after it
        rw [if_pos same, if_pos same.symm]
        exact flatMap_replacement fun other member => (first other member).2
      · rw [if_neg same, if_neg (Ne.symm same), List.flatMap_singleton]

theorem decodeFrom_append (passed text : List Char) :
    decodeFrom entities passed.length (passed ++ text) = decode entities text := by
  induction passed with
  | nil => rfl
  | cons c passed induction => simpa only [List.length_cons, List.cons_append, decodeFrom]

theorem decode_entity (legible : Legible entities) {entry : Char × String}
    (member : entry ∈ entities) (text : List Char) :
    decode entities (entry.2.toList ++ text) = entry.1 :: decode entities text := by
  obtain ⟨rest, spelled⟩ := legible.begins entry member
  have found : (entities.find? fun other => other.2.toList.isPrefixOf (entry.2.toList ++ text)) =
      some entry := by
    cases first : entities.find? fun other => other.2.toList.isPrefixOf (entry.2.toList ++ text) with
    | none =>
        have missed := List.find?_eq_none.mp first entry member
        simp at missed
    | some other =>
        -- both begin the same text, so one of them begins the other
        have among := List.mem_of_find?_eq_some first
        have begins : other.2.toList <+: entry.2.toList ++ text := by
          simpa using List.find?_some first
        have also : entry.2.toList <+: entry.2.toList ++ text := List.prefix_append _ _
        rcases List.prefix_or_prefix_of_prefix begins also with shorter | longer
        · rw [legible.apart other among entry member shorter]
        · rw [legible.apart entry member other among longer]
  have size : entry.2.length - 1 = rest.length := by
    rw [← String.length_toList, spelled]
    simp
  rw [spelled, List.cons_append] at found ⊢
  rw [decode, decodeFrom, found]
  simp only [size, decodeFrom_append]

theorem decode_other (legible : Legible entities) {c : Char} (other : c ≠ '&') (text : List Char) :
    decode entities (c :: text) = c :: decode entities text := by
  have nothing : (entities.find? fun entry => entry.2.toList.isPrefixOf (c :: text)) = none := by
    rw [List.find?_eq_none]
    intro entry member begins
    obtain ⟨rest, spelled⟩ := legible.begins entry member
    rw [spelled] at begins
    simp [Ne.symm other] at begins
  rw [decode, decodeFrom, nothing]
  rfl

theorem decode_replacement (legible : Legible entities) (c : Char) (text : List Char) :
    decode entities (replacement entities c ++ text) = c :: decode entities text := by
  unfold replacement
  split
  · rename_i entry found
    have same : entry.1 = c := by simpa using List.find?_some found
    rw [decode_entity legible (List.mem_of_find?_eq_some found), same]
  · rename_i absent
    apply decode_other legible
    rintro rfl
    obtain ⟨entry, member, same⟩ := legible.ampersand
    have differs := List.find?_eq_none.mp absent entry member
    simp [same] at differs

theorem decode_replaceEach (legible : Legible entities) (text : List Char) :
    decode entities (replaceEach entities text) = text := by
  rw [replaceEach_eq legible.settled]
  induction text with
  | nil => rfl
  | cons c text induction => rw [List.flatMap_cons, decode_replacement legible, induction]

theorem ampersand_of_mem_replaceEach (legible : Legible entities) {text : List Char}
    {entry : Char × String} (member : entry ∈ entities)
    (inside : entry.1 ∈ replaceEach entities text) : entry.1 = '&' := by
  rw [replaceEach_eq legible.settled] at inside
  obtain ⟨c, _, here⟩ := List.mem_flatMap.mp inside
  unfold replacement at here
  split at here
  · rename_i other found
    exact legible.unmarked other (List.mem_of_find?_eq_some found) entry member here
  · rename_i absent
    have differs := List.find?_eq_none.mp absent entry member
    rw [List.mem_singleton.mp here] at differs
    simp at differs

end

theorem legible_attribute : Legible attributeEntities := by
  constructor
  · simp [attributeEntities]
  · exact ⟨('&', "&amp;"), by simp [attributeEntities], rfl⟩
  · simp [attributeEntities]
  · simp [attributeEntities]
  · simp [attributeEntities]

theorem legible_content : Legible contentEntities := by
  constructor
  · simp [contentEntities]
  · exact ⟨('&', "&amp;"), by simp [contentEntities], rfl⟩
  · simp [contentEntities]
  · simp [contentEntities]
  · simp [contentEntities]

/-- What is written with these entities is what comes of replacing all characters at once, for no
entity is replaced again; and it is read back in one pass. -/
structure Faithful (entities : List (Char × String)) (escape : List Char → List Char) : Prop where
  settled : entities.Pairwise fun earlier later => later.1 ∉ earlier.2.toList
  atOnce : ∀ text, escape text = text.flatMap (replacement entities)
  readBack : ∀ text, decode entities (escape text) = text

theorem Legible.faithful {entities : List (Char × String)} (legible : Legible entities) :
    Faithful entities (replaceEach entities) where
  settled := legible.settled.imp And.right
  atOnce := replaceEach_eq legible.settled
  readBack := decode_replaceEach legible

/-- Texts of a page and values of attributes are each written faithfully, with their own entities.
-/
theorem escaping_faithful :
    Faithful [('&', "&amp;"), ('<', "&lt;"), ('>', "&gt;"), ('"', "&#34;"), ('\'', "&#39;")]
        escapeContent ∧
      Faithful [('&', "&amp;"), ('"', "&quot;"), ('<', "&lt;"), ('>', "&gt;")] escapeAttribute :=
  ⟨legible_content.faithful, legible_attribute.faithful⟩

example : decode contentEntities (escapeContent "&amp;&&lt;#34;".toList) =
    "&amp;&&lt;#34;".toList := by
  decide

theorem decode_escapeAttribute (text : List Char) :
    decode attributeEntities (escapeAttribute text) = text :=
  decode_replaceEach legible_attribute text

/-- The value of an attribute cannot end the attribute or its tag. -/
theorem unmarked_escapeAttribute (text : List Char) :
    ∀ c ∈ escapeAttribute text, c ≠ '"' ∧ c ≠ '<' ∧ c ≠ '>' := by
  have only : ∀ entry ∈ attributeEntities, entry.1 ∈ escapeAttribute text → entry.1 = '&' :=
    fun entry member => ampersand_of_mem_replaceEach legible_attribute member
  intro c inside
  refine ⟨?_, ?_, ?_⟩
  · rintro rfl
    exact absurd (only ('"', "&quot;") (by simp [attributeEntities]) inside) (by decide)
  · rintro rfl
    exact absurd (only ('<', "&lt;") (by simp [attributeEntities]) inside) (by decide)
  · rintro rfl
    exact absurd (only ('>', "&gt;") (by simp [attributeEntities]) inside) (by decide)

end PageAssembly.Html
