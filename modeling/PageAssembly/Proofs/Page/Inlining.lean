import Mathlib.Data.List.Chain
import PageAssembly.Proofs.Html.RawText
import PageAssembly.Proofs.Page.Permission

/-!
Assets that stand in the page, as a browser finds them there. What is read back is what the policy
has the digests of, unless an asset has the mark of its own end tag: nothing guards against that, as
the text of the values is guarded.
-/

namespace PageAssembly

/-- No `one` stands right before `next`. -/
def Apart {α : Type} (one next : α) (items : List α) : Prop :=
  items.IsChain fun before after => ¬ (before = one ∧ after = next)

theorem Apart.of_not_mem {α : Type} {one next : α} {items : List α} (absent : one ∉ items) :
    Apart one next items := by
  apply List.Pairwise.isChain
  apply List.pairwise_of_forall_mem_list
  intro before member _ _ both
  exact absent (both.1 ▸ member)

theorem Apart.append_of_not_mem {α : Type} {one next : α} {left right : List α}
    (absent : one ∉ left) (apart : Apart one next right) : Apart one next (left ++ right) := by
  apply List.IsChain.append (Apart.of_not_mem absent) apart
  intro before last _ _ both
  exact absent (both.1 ▸ List.mem_of_mem_getLast? last)

namespace Text

theorem utf8EncodeChar_apart {one : Char} (low : one.toNat < 0x80) (next : UInt8) (c : Char) :
    Apart one.toUInt8 next (String.utf8EncodeChar c) := by
  by_cases member : one.toUInt8 ∈ String.utf8EncodeChar c
  · obtain rfl := eq_of_mem_utf8EncodeChar low member
    have single : encode [c] = [c.toUInt8] := encode_ascii (by simpa using low)
    rw [encode, List.flatMap_singleton] at single
    rw [single]
    exact List.IsChain.singleton c.toUInt8
  · exact Apart.of_not_mem member

theorem encode_apart {one next : Char} (low : one.toNat < 0x80) (also : next.toNat < 0x80)
    {text : List Char} (apart : Apart one next text) :
    Apart one.toUInt8 next.toUInt8 (encode text) := by
  induction text with
  | nil => exact List.IsChain.nil
  | cons c text induction =>
      unfold Apart at apart
      obtain ⟨head, tail⟩ := List.isChain_cons.mp apart
      rw [encode, List.flatMap_cons]
      apply List.IsChain.append _ (induction tail)
      · intro before last after first both
        -- a byte of ASCII at the edge of a character is the whole of it
        have ends : c = one :=
          eq_of_mem_utf8EncodeChar low (both.1 ▸ List.mem_of_mem_getLast? last)
        cases text with
        | nil => cases first
        | cons d text =>
            rw [encode, List.flatMap_cons,
              List.head?_append_of_ne_nil _ String.utf8EncodeChar_ne_nil] at first
            have begins : d = next :=
              eq_of_mem_utf8EncodeChar also (both.2 ▸ List.mem_of_mem_head? first)
            exact head d rfl ⟨ends, begins⟩
      · exact utf8EncodeChar_apart low _ c

end Text

namespace Block

theorem head?_guardEndTags (text : List Char) : (guardEndTags text).head? = text.head? := by
  fun_cases guardEndTags text <;> rfl

theorem guardEndTags_apart (text : List Char) : Apart '<' '/' (guardEndTags text) := by
  fun_induction guardEndTags text with
  | case1 => exact List.IsChain.nil
  | case2 rest induction =>
      unfold Apart
      rw [List.isChain_cons_cons, List.isChain_cons_cons, List.isChain_cons]
      refine ⟨by decide, by decide, ?_, induction⟩
      intro next _ both
      exact absurd both.1 (by decide)
  | case3 c rest other induction =>
      apply List.isChain_cons.mpr
      refine ⟨?_, induction⟩
      intro next first both
      rw [head?_guardEndTags, Option.mem_def, both.2] at first
      -- a slash behind a less-than sign is the second case
      obtain ⟨later, starts⟩ := List.head?_eq_some_iff.mp first
      exact other later both.1 starts

theorem environmentScript_apart (environment : List (String × Json)) :
    Apart 0x3c 0x2f (environmentScript environment) := by
  unfold environmentScript Text.encodeString Text.encode
  rw [← List.flatMap_append, ← List.flatMap_append]
  apply Text.encode_apart (by decide : '<'.toNat < 0x80) (by decide : '/'.toNat < 0x80)
  rw [List.append_assoc]
  apply Apart.append_of_not_mem (by decide)
  apply List.IsChain.append (guardEndTags_apart _) (Apart.of_not_mem (by decide))
  intro _ _ next first both
  rw [both.2] at first
  exact absurd first (by decide)

end Block

namespace Html

theorem eq_of_lowerByte {byte sign : UInt8} (small : sign.toNat < 0x41)
    (same : lowerByte byte = sign) : byte = sign := by
  unfold lowerByte at same
  split at same
  · rename_i capital
    rw [Bool.and_eq_true, decide_eq_true_eq, decide_eq_true_eq, UInt8.le_iff_toNat_le,
      UInt8.le_iff_toNat_le] at capital
    have low : 0x41 ≤ byte.toNat ∧ byte.toNat ≤ 0x5a := capital
    have value : (byte + 0x20).toNat = (byte.toNat + 0x20) % 256 := UInt8.toNat_add byte 0x20
    rw [same] at value
    omega
  · exact same

/-- Where no slash follows a less-than sign, no element ends. -/
theorem clean_of_apart {tag : RawTag} {content : Bytes} (apart : Apart 0x3c 0x2f content) :
    tag.Clean content := by
  intro found
  have lowered : Apart 0x3c 0x2f (content.map lowerByte) := by
    unfold Apart at apart ⊢
    rw [List.isChain_map]
    apply apart.imp
    intro before after different both
    apply different
    exact ⟨eq_of_lowerByte (by decide) both.1, eq_of_lowerByte (by decide) both.2⟩
  have mark : Apart 0x3c 0x2f tag.endMark := List.IsChain.infix lowered found
  exact (List.isChain_cons_cons.mp mark).1 ⟨rfl, rfl⟩

theorem readRaw_element (tag : RawTag) (content text : Bytes) :
    readRaw .outside (tag.element content ++ text) =
      readRaw (.inside tag []) (content ++ (tag.endMark ++ 0x3e :: text)) := by
  unfold RawTag.element
  rw [List.append_assoc, readRaw_opening, List.append_assoc, List.append_assoc,
    List.singleton_append]

theorem lines_cons (element : Bytes) (elements : List Bytes) :
    ∃ text, Block.lines (element :: elements) = element ++ text ∧
      readRaw .outside text = rawElements (Block.lines elements) := by
  cases elements with
  | nil => exact ⟨[], (List.append_nil element).symm, rfl⟩
  | cons next elements => exact ⟨0x0a :: Block.lines (next :: elements), rfl, rfl⟩

/-- Lines of elements are read back as they were written exactly if no content ends its element. -/
theorem rawElements_lines (tag : RawTag) (contents : List Bytes) :
    rawElements (Block.lines (contents.map tag.element)) = contents.map (RawElement.mk tag) ↔
      ∀ content ∈ contents, tag.Clean content := by
  induction contents with
  | nil => simp [Block.lines, rawElements, readRaw]
  | cons content contents induction =>
      rw [List.map_cons, List.map_cons, List.forall_mem_cons]
      obtain ⟨text, written, later⟩ := lines_cons (tag.element content) (contents.map tag.element)
      rw [written, rawElements, readRaw_element]
      by_cases clean : tag.Clean content
      · rw [readRaw_clean clean, List.nil_append, later, List.cons.injEq, induction]
        simp [clean]
      · obtain ⟨before, rest, read, _, other⟩ := readRaw_not_clean clean []
          (tag.endMark ++ 0x3e :: text)
        rw [read]
        constructor
        · intro same
          exact absurd (RawElement.mk.inj (List.cons.inj same).1).2 other
        · intro all
          exact absurd all.1 clean

end Html

namespace Block

theorem styleElement_eq : styleElement = Html.RawTag.style.element := by
  funext content
  unfold styleElement wrap
  rw [List.append_assoc]
  rfl

theorem scriptElement_eq : scriptElement = Html.RawTag.script.element := by
  funext content
  unfold scriptElement wrap
  rw [List.append_assoc]
  rfl

/-- The elements of a block are read back as they were written, each with what its digest in the
policy was made of, exactly if no asset has the mark of its own end tag; the script with the values
never has it. -/
theorem inlined_read_back (assets : List Asset) (environment : List (String × Json))
    (policy : Policy) :
    (Html.rawElements (css assets .inline policy).1 =
        (styles assets .inline).map (Html.RawElement.mk .style) ↔
      ∀ asset ∈ assets, Html.RawTag.style.Clean asset.data) ∧
    (css assets .inline policy).2 = policy.append "style-src"
      ((styles assets .inline).map fun content => hashSource (sha256 content)) ∧
    (Html.rawElements (js assets environment .inline policy).1 =
        (scripts assets environment .inline).map (Html.RawElement.mk .script) ↔
      ∀ asset ∈ assets, Html.RawTag.script.Clean asset.data) ∧
    (js assets environment .inline policy).2 = policy.append "script-src"
      ((scripts assets environment .inline).map fun content => hashSource (sha256 content)) := by
  refine ⟨?_, ?_, ?_, ?_⟩
  · rw [css_elements, styleLinks, List.append_nil, styleElement_eq, Html.rawElements_lines, styles,
      List.forall_mem_map]
  · rw [css, map_source, styles]
  · rw [js_elements, scriptLinks, List.append_nil, scriptElement_eq, Html.rawElements_lines]
    unfold scripts
    rw [List.forall_mem_append, styles, List.forall_mem_map]
    have values : ∀ script ∈ if environment.isEmpty then [] else [environmentScript environment],
        Html.RawTag.script.Clean script := by
      intro script member
      split at member
      · cases member
      · rw [List.mem_singleton.mp member]
        exact Html.clean_of_apart (environmentScript_apart environment)
    exact and_iff_right values
  · rw [js, map_source, scripts, styles, List.map_append]

/-- A script that has the end tag of scripts in a text is read as a part of it. -/
theorem inlined_cut_short :
    Html.rawElements (js [.ofData "a.js" (Text.encodeString "x=\"</script>\"")] [] .inline .empty).1 =
        [⟨.script, Text.encodeString "x=\""⟩] ∧
      (js [.ofData "a.js" (Text.encodeString "x=\"</script>\"")] [] .inline .empty).2 =
        Policy.empty.append "script-src"
          [hashSource (sha256 (Text.encodeString "x=\"</script>\""))] := by
  constructor
  · decide
  · rfl

end Block

end PageAssembly
