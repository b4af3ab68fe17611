import PageAssembly.Proofs.Fragment.Values

/-!
Text that means nothing in markup. Replacing characters by entities makes such text of any text: no
character is left that begins or ends a tag or a value, and an ampersand stands only where an entity
begins.
-/

namespace PageAssembly

namespace Html

/-- The characters that begin and end tags and the values of attributes. -/
def marks : List Char := ['<', '>', '"', '\'']

def entities : List String := ["&amp;", "&lt;", "&gt;", "&#34;", "&#39;"]

/-- Text without marks, in which every ampersand begins an entity. -/
structure Inert (text : List Char) : Prop where
  unmarked : ∀ c ∈ text, c ∉ marks
  entity : ∀ before after, text = before ++ '&' :: after →
    ∃ entity ∈ entities, entity.toList <+: '&' :: after

theorem inert_nil : Inert [] := by
  refine ⟨by simp, ?_⟩
  intro before after split
  exact absurd split (by simp)

theorem Inert.append {left right : List Char} (inert : Inert left) (also : Inert right) :
    Inert (left ++ right) := by
  constructor
  · intro c member
    exact (List.mem_append.mp member).elim (inert.unmarked c) (also.unmarked c)
  · intro before after split
    rcases List.append_eq_append_iff.mp split with ⟨middle, rfl, rest⟩ | ⟨middle, rfl, rest⟩
    · exact also.entity middle after rest
    · cases middle with
      | nil => exact also.entity [] after rest.symm
      | cons c middle =>
          -- the ampersand stands on the left, and so does the entity that it begins
          obtain ⟨rfl, rfl⟩ := List.cons.inj rest
          obtain ⟨entity, known, begins⟩ := inert.entity before middle rfl
          exact ⟨entity, known, begins.trans (List.prefix_append ('&' :: middle) right)⟩

theorem inert_plain {c : Char} (plain : c ∉ '&' :: marks) : Inert [c] := by
  obtain ⟨different, unmarked⟩ := not_or.mp (mt List.mem_cons.mpr plain)
  constructor
  · intro other member
    rwa [List.mem_singleton.mp member]
  · intro before after split
    have member : '&' ∈ [c] := split ▸ List.mem_append_right before List.mem_cons_self
    exact absurd (List.mem_singleton.mp member).symm different

theorem entity_shape {entity : String} (known : entity ∈ entities) :
    ∃ rest, entity.toList = '&' :: rest ∧ '&' ∉ rest ∧ ∀ c ∈ '&' :: rest, c ∉ marks := by
  have shapes : entities.all (fun entity =>
      entity.toList.head? == some '&' && !entity.toList.tail.elem '&' &&
        entity.toList.all fun c => !marks.elem c) = true := by decide
  have shape := List.all_eq_true.mp shapes entity known
  simp only [Bool.and_eq_true, beq_iff_eq, Bool.not_eq_true', List.elem_eq_mem,
    decide_eq_false_iff_not, List.all_eq_true] at shape
  obtain ⟨⟨begins, single⟩, unmarked⟩ := shape
  obtain ⟨rest, spelled⟩ := List.head?_eq_some_iff.mp begins
  rw [spelled] at single unmarked
  exact ⟨rest, spelled, single, unmarked⟩

theorem inert_entity {entity : String} (known : entity ∈ entities) : Inert entity.toList := by
  obtain ⟨rest, spelled, single, unmarked⟩ := entity_shape known
  constructor
  · rwa [spelled]
  · intro before after split
    rw [spelled] at split
    cases before with
    | nil =>
        refine ⟨entity, known, ?_⟩
        rw [spelled, split]
        exact List.prefix_rfl
    | cons c before =>
        have later : rest = before ++ '&' :: after := (List.cons.inj split).2
        exact absurd (later ▸ List.mem_append_right before List.mem_cons_self) single

theorem inert_replaced (c : Char) : Inert (Semantics.entity c) := by
  by_cases special : c ∈ '&' :: marks
  · have known : String.ofList (Semantics.entity c) ∈ entities := by
      simp only [marks, List.mem_cons, List.not_mem_nil, or_false] at special
      rcases special with rfl | rfl | rfl | rfl | rfl <;> decide
    have inert := inert_entity known
    rwa [String.toList_ofList] at inert
  · have kept : Semantics.entity c = [c] := by
      simp only [marks, List.mem_cons, List.not_mem_nil, or_false, not_or] at special
      simp [Semantics.entity, special]
    rw [kept]
    exact inert_plain special

theorem inert_escapeContent (text : List Char) : Inert (escapeContent text) := by
  rw [Semantics.escapeContent_eq]
  induction text with
  | nil => exact inert_nil
  | cons c text induction => exact (inert_replaced c).append induction

end Html

end PageAssembly
