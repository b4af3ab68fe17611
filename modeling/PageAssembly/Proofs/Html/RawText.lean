import PageAssembly.Text.Bytes

/-!
Elements of raw text, as they are read from a document. Behind its opening tag such an element goes
on to the first mark of its end tag, whatever the case of the letters. So a content that was put
between two tags is read back if it has no such mark, and else the element ends within it.
-/

namespace PageAssembly.Html

inductive RawTag where
  | style
  | script
deriving DecidableEq

namespace RawTag

def name : RawTag → Bytes
  | .style => [0x73, 0x74, 0x79, 0x6c, 0x65]
  | .script => [0x73, 0x63, 0x72, 0x69, 0x70, 0x74]

def opening (tag : RawTag) : Bytes :=
  0x3c :: tag.name ++ [0x3e]

/-- Where the content ends: the end tag as far as its name. -/
def endMark (tag : RawTag) : Bytes :=
  0x3c :: 0x2f :: tag.name

def element (tag : RawTag) (content : Bytes) : Bytes :=
  tag.opening ++ (content ++ (tag.endMark ++ [0x3e]))

end RawTag

def lowerByte (byte : UInt8) : UInt8 :=
  if 0x41 ≤ byte && byte ≤ 0x5a then byte + 0x20 else byte

def begins (mark text : Bytes) : Bool :=
  mark.isPrefixOf (text.map lowerByte)

def opened? (text : Bytes) : Option RawTag :=
  if begins RawTag.style.opening text then some .style
  else if begins RawTag.script.opening text then some .script
  else none

structure RawElement where
  tag : RawTag
  content : Bytes
deriving DecidableEq

/-- Where a reader is, with the content that it has read so far. -/
inductive RawPlace where
  | outside
  | opening (tag : RawTag)
  | inside (tag : RawTag) (content : Bytes)
  | closing

/-- An element that does not end before the document does ends with it. -/
def readRaw : RawPlace → Bytes → List RawElement
  | .inside tag content, [] => [⟨tag, content⟩]
  | .outside, [] => []
  | .opening _, [] => []
  | .closing, [] => []
  | .outside, byte :: text =>
      match opened? (byte :: text) with
      | some tag => readRaw (.opening tag) text
      | none => readRaw .outside text
  | .opening tag, byte :: text =>
      if byte = 0x3e then readRaw (.inside tag []) text else readRaw (.opening tag) text
  | .inside tag content, byte :: text =>
      if begins tag.endMark (byte :: text) then ⟨tag, content⟩ :: readRaw .closing text
      else readRaw (.inside tag (content ++ [byte])) text
  | .closing, byte :: text =>
      if byte = 0x3e then readRaw .outside text else readRaw .closing text

def rawElements (document : Bytes) : List RawElement :=
  readRaw .outside document

def RawTag.Clean (tag : RawTag) (content : Bytes) : Prop :=
  ¬ tag.endMark <:+: content.map lowerByte

theorem begins_iff {mark text : Bytes} : begins mark text = true ↔ mark <+: text.map lowerByte :=
  List.isPrefixOf_iff_prefix

theorem lowerByte_endMark (tag : RawTag) : tag.endMark.map lowerByte = tag.endMark := by
  cases tag <;> rfl

/-- A mark whose first sign occurs only there does not begin before another one and end in it. -/
theorem prefix_of_prefix_append {α : Type} {first : α} {mark before later : List α}
    (once : first ∉ mark) (nonempty : before ≠ [])
    (starts : first :: mark <+: before ++ (first :: mark ++ later)) : first :: mark <+: before := by
  rcases List.prefix_or_prefix_of_prefix starts (List.prefix_append before _) with whole | part
  · exact whole
  · obtain ⟨rest, split⟩ := part
    cases rest with
    | nil =>
        rw [List.append_nil] at split
        exact split ▸ List.prefix_rfl
    | cons next rest =>
        -- the later mark would begin within the earlier one
        rw [← split, List.prefix_append_right_inj, split] at starts
        obtain ⟨same, _⟩ := List.cons_prefix_cons.mp starts
        obtain ⟨head, before, rfl⟩ := List.exists_cons_of_ne_nil nonempty
        obtain ⟨_, inside⟩ := List.cons.inj split
        apply absurd _ once
        rw [← inside, same]
        exact List.mem_append_right before List.mem_cons_self

theorem begins_before_endMark {tag : RawTag} {content later : Bytes} (nonempty : content ≠ [])
    (found : begins tag.endMark (content ++ (tag.endMark ++ later)) = true) :
    tag.endMark <+: content.map lowerByte := by
  rw [begins_iff, List.map_append, List.map_append, lowerByte_endMark] at found
  apply prefix_of_prefix_append _ _ found
  · cases tag <;> decide
  · exact mt List.map_eq_nil_iff.mp nonempty

theorem RawTag.Clean.tail {tag : RawTag} {byte : UInt8} {content : Bytes}
    (clean : tag.Clean (byte :: content)) : tag.Clean content :=
  fun found => clean (found.trans (List.suffix_cons _ _).isInfix)

theorem readRaw_opening (tag : RawTag) (text : Bytes) :
    readRaw .outside (tag.opening ++ text) = readRaw (.inside tag []) text := by
  cases tag <;> rfl

theorem readRaw_endMark (tag : RawTag) (read text : Bytes) :
    readRaw (.inside tag read) (tag.endMark ++ 0x3e :: text) =
      ⟨tag, read⟩ :: readRaw .outside text := by
  cases tag <;> rfl

theorem readRaw_clean {tag : RawTag} {content : Bytes} (clean : tag.Clean content)
    (read text : Bytes) :
    readRaw (.inside tag read) (content ++ (tag.endMark ++ 0x3e :: text)) =
      ⟨tag, read ++ content⟩ :: readRaw .outside text := by
  induction content generalizing read with
  | nil =>
      rw [List.nil_append, readRaw_endMark, List.append_nil]
  | cons byte content induction =>
      have other : begins tag.endMark (byte :: content ++ (tag.endMark ++ 0x3e :: text)) = false := by
        rw [Bool.eq_false_iff]
        intro found
        exact clean (begins_before_endMark (List.cons_ne_nil _ _) found).isInfix
      rw [List.cons_append] at other
      rw [List.cons_append, readRaw, if_neg (by simp [other]), induction clean.tail]
      simp

theorem readRaw_not_clean {tag : RawTag} {content : Bytes} (marked : ¬ tag.Clean content)
    (read text : Bytes) : ∃ before rest,
      readRaw (.inside tag read) (content ++ text) = ⟨tag, read ++ before⟩ :: rest ∧
        before <+: content ∧ before ≠ content := by
  induction content generalizing read with
  | nil =>
      apply absurd _ marked
      intro found
      cases tag <;> cases List.eq_nil_of_infix_nil found
  | cons byte content induction =>
      rw [List.cons_append, readRaw]
      split
      · refine ⟨[], readRaw .closing (content ++ text), ?_, List.nil_prefix, ?_⟩
        · rw [List.append_nil]
        · exact (List.cons_ne_nil byte content).symm
      · rename_i goesOn
        have later : ¬ tag.Clean content := by
          intro clean
          apply marked
          intro found
          rcases List.infix_cons_iff.mp found with here | there
          · apply goesOn
            rw [begins_iff, ← List.cons_append, List.map_append]
            exact here.trans (List.prefix_append _ _)
          · exact clean there
        obtain ⟨before, rest, reads, part, other⟩ := induction later (read ++ [byte])
        refine ⟨byte :: before, rest, ?_, ?_, ?_⟩
        · rw [reads, List.append_assoc]
          rfl
        · exact (List.prefix_cons_inj byte).mpr part
        · exact fun same => other (List.cons.inj same).2

end PageAssembly.Html
