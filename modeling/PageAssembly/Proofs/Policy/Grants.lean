import PageAssembly.Policy.Basic

/-!
What a policy grants, and how adding to it widens that. A name counts up to case, and of several
directives with one name only the first counts; adding goes to the first as well, so a token that is
added is granted and nothing that was granted before is lost.
-/

namespace PageAssembly

namespace Text

theorem sameIgnoringCase_iff {left right : String} :
    sameIgnoringCase left right = true ↔ lowerAscii left = lowerAscii right :=
  beq_iff_eq

theorem sameIgnoringCase_left {left right : String} (same : sameIgnoringCase left right = true)
    (other : String) : sameIgnoringCase left other = sameIgnoringCase right other := by
  rw [sameIgnoringCase, sameIgnoringCase, sameIgnoringCase_iff.mp same]

end Text

namespace Directive

theorem mem_add {directive : Directive} {token other : String} :
    other ∈ (directive.add token).tokens ↔ other ∈ directive.tokens ∨ other = token := by
  rw [add]
  split
  · rename_i present
    constructor
    · exact Or.inl
    · rintro (earlier | rfl)
      · exact earlier
      · exact present
  · simp

theorem name_add (directive : Directive) (token : String) :
    (directive.add token).name = directive.name := by
  rw [add]
  split <;> rfl

theorem mem_addAll (directive : Directive) (tokens : List String) {other : String} :
    other ∈ (directive.addAll tokens).tokens ↔ other ∈ directive.tokens ∨ other ∈ tokens := by
  induction tokens generalizing directive with
  | nil => simp [addAll]
  | cons token tokens induction =>
      have later := induction (directive.add token)
      rw [addAll] at later ⊢
      rw [List.foldl_cons, later, mem_add, List.mem_cons, or_assoc]

theorem name_addAll (directive : Directive) (tokens : List String) :
    (directive.addAll tokens).name = directive.name := by
  induction tokens generalizing directive with
  | nil => rfl
  | cons token tokens induction =>
      have later := induction (directive.add token)
      rw [addAll] at later ⊢
      rw [List.foldl_cons, later, name_add]

theorem isNamed_addAll (directive : Directive) (tokens : List String) (name : String) :
    (directive.addAll tokens).isNamed name = directive.isNamed name := by
  rw [isNamed, name_addAll, isNamed]

end Directive

namespace Policy

theorem addToFirst_ne_nil (name : String) (tokens : List String) (directives : List Directive) :
    addToFirst name tokens directives ≠ [] := by
  cases directives with
  | nil => simp [addToFirst]
  | cons directive directives =>
      unfold addToFirst
      split <;> simp

theorem exists_mem_addToFirst (name : String) (tokens : List String) (directives : List Directive) :
    ∃ directive ∈ addToFirst name tokens directives, directive.isNamed name = true ∧
      ∀ token ∈ tokens, token ∈ directive.tokens := by
  induction directives with
  | nil =>
      refine ⟨_, List.mem_singleton_self _, ?_, ?_⟩
      · rw [Directive.isNamed_addAll, Directive.isNamed, Text.sameIgnoringCase_iff]
      · intro token member
        exact (Directive.mem_addAll _ tokens).mpr (Or.inr member)
  | cons first directives induction =>
      rw [addToFirst]
      split
      · rename_i named
        refine ⟨_, List.mem_cons_self, ?_, ?_⟩
        · rw [Directive.isNamed_addAll, named]
        · intro token member
          exact (Directive.mem_addAll first tokens).mpr (Or.inr member)
      · obtain ⟨directive, member, known⟩ := induction
        exact ⟨directive, List.mem_cons_of_mem _ member, known⟩

/-- What holds of the directives, of one without tokens, and of one that is added to if it did
before, holds of all directives after an addition. -/
theorem forall_append {Holds : Directive → Prop} {policy : Policy} {name : String}
    {tokens : List String} (all : ∀ directive ∈ policy.directives, Holds directive)
    (bare : Holds ⟨name, []⟩)
    (grown : ∀ directive, Holds directive → Holds (directive.addAll tokens)) :
    ∀ directive ∈ (policy.append name tokens).directives, Holds directive := by
  rw [append]
  split
  · exact all
  · obtain ⟨directives⟩ := policy
    change ∀ directive ∈ addToFirst name tokens directives, Holds directive
    induction directives with
    | nil => exact List.forall_mem_singleton.mpr (grown _ bare)
    | cons first directives induction =>
        obtain ⟨here, others⟩ := List.forall_mem_cons.mp all
        rw [addToFirst]
        split
        · exact List.forall_mem_cons.mpr ⟨grown first here, others⟩
        · exact List.forall_mem_cons.mpr ⟨here, induction others⟩

theorem contains_nil (name token : String) : contains ⟨[]⟩ name token = false := rfl

theorem contains_cons (directive : Directive) (directives : List Directive)
    (name token : String) :
    contains ⟨directive :: directives⟩ name token = true ↔
      if directive.isNamed name then token ∈ directive.tokens
      else contains ⟨directives⟩ name token = true := by
  cases named : directive.isNamed name with
  | true => simp [contains, tokens?, find?, named]
  | false => simp [contains, tokens?, find?, named]

theorem contains_addToFirst (name : String) (tokens : List String) (directives : List Directive)
    (asked token : String) :
    contains ⟨addToFirst name tokens directives⟩ asked token = true ↔
      contains ⟨directives⟩ asked token = true ∨
        (Text.sameIgnoringCase name asked = true ∧ token ∈ tokens) := by
  induction directives with
  | nil =>
      rw [addToFirst, contains_cons, contains_nil, Directive.isNamed_addAll, Directive.mem_addAll]
      cases same : Text.sameIgnoringCase name asked <;> simp [Directive.isNamed, same]
  | cons directive directives induction =>
      rw [addToFirst]
      cases named : directive.isNamed name with
      | true =>
          have same := Text.sameIgnoringCase_left named asked
          rw [if_pos rfl, contains_cons, contains_cons, Directive.isNamed_addAll, ← same,
            Directive.mem_addAll]
          change _ ↔ _ ∨ (directive.isNamed asked = true ∧ _)
          cases directive.isNamed asked <;> simp
      | false =>
          rw [if_neg Bool.false_ne_true, contains_cons, contains_cons, induction]
          cases alsoNamed : directive.isNamed asked with
          | true =>
              -- the name added is not that of the directive, so it is not the one asked for
              have different : Text.sameIgnoringCase name asked = false := by
                rw [Bool.eq_false_iff]
                intro same
                have both := (Text.sameIgnoringCase_iff.mp alsoNamed).trans
                  (Text.sameIgnoringCase_iff.mp same).symm
                rw [Directive.isNamed, Text.sameIgnoringCase_iff.mpr both] at named
                cases named
              simp [different]
          | false => simp

/-- Adding tokens to a name grants these under it, and nothing else. -/
theorem contains_append (policy : Policy) (name : String) (tokens : List String)
    (asked token : String) :
    (policy.append name tokens).contains asked token = true ↔
      policy.contains asked token = true ∨
        (Text.sameIgnoringCase name asked = true ∧ token ∈ tokens) := by
  rw [append]
  cases tokens with
  | nil => simp
  | cons first tokens =>
      exact contains_addToFirst name (first :: tokens) policy.directives asked token

theorem contains_snoc_of_empty {directives : List Directive} {directive : Directive}
    (empty : directive.tokens = []) (asked token : String) :
    contains ⟨directives ++ [directive]⟩ asked token = true ↔
      contains ⟨directives⟩ asked token = true := by
  induction directives with
  | nil => simp [contains_cons, contains_nil, empty]
  | cons first directives induction => rw [List.cons_append, contains_cons, contains_cons, induction]

theorem contains_mergeDirective (policy : Policy) (directive : Directive) (asked token : String) :
    (policy.mergeDirective directive).contains asked token = true ↔
      policy.contains asked token = true ∨
        (directive.isNamed asked = true ∧ token ∈ directive.tokens) := by
  rw [mergeDirective]
  split
  · rename_i lone
    rw [Bool.and_eq_true, List.isEmpty_iff] at lone
    rw [contains_snoc_of_empty lone.1]
    simp [lone.1]
  · exact contains_append policy directive.name directive.tokens asked token

/-- A merged policy grants what either of the two has, directives of the second that stand behind
another of their name included. -/
theorem contains_merge (policy other : Policy) (asked token : String) :
    (policy.merge other).contains asked token = true ↔
      policy.contains asked token = true ∨
        ∃ directive ∈ other.directives, directive.isNamed asked = true ∧
          token ∈ directive.tokens := by
  rw [merge]
  induction other.directives generalizing policy with
  | nil => simp
  | cons directive directives induction =>
      rw [List.foldl_cons, induction, contains_mergeDirective, or_assoc]
      simp only [List.mem_cons, exists_eq_or_imp]

end Policy

end PageAssembly
