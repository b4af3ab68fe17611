import Mathlib.Data.List.Nodup
import PageAssembly.Proofs.Policy.Merging

/-!
Building a policy only extends it. Directives keep their places and names, and their tokens stay
before those that are added. What stands once, a name among the names or a token in its directive,
stands once ever after, and what was added already changes nothing.
-/

namespace PageAssembly

namespace Directive

theorem prefix_add (directive : Directive) (token : String) :
    directive.tokens <+: (directive.add token).tokens := by
  rw [add]
  split
  · exact List.prefix_refl _
  · exact List.prefix_append _ _

theorem prefix_addAll (directive : Directive) (tokens : List String) :
    directive.tokens <+: (directive.addAll tokens).tokens := by
  unfold addAll
  induction tokens generalizing directive with
  | nil => exact List.prefix_refl _
  | cons token tokens induction =>
      rw [List.foldl_cons]
      exact (prefix_add directive token).trans (induction (directive.add token))

theorem nodup_add {directive : Directive} (once : directive.tokens.Nodup) (token : String) :
    (directive.add token).tokens.Nodup := by
  rw [add]
  split
  · exact once
  · rename_i absent
    rw [← List.concat_eq_append]
    exact once.concat absent

theorem nodup_addAll {directive : Directive} (once : directive.tokens.Nodup) (tokens : List String) :
    (directive.addAll tokens).tokens.Nodup := by
  unfold addAll
  induction tokens generalizing directive with
  | nil => exact once
  | cons token tokens induction =>
      rw [List.foldl_cons]
      exact induction (nodup_add once token)

theorem addAll_of_present {directive : Directive} {tokens : List String}
    (present : ∀ token ∈ tokens, token ∈ directive.tokens) : directive.addAll tokens = directive := by
  unfold addAll
  induction tokens with
  | nil => rfl
  | cons token tokens induction =>
      obtain ⟨first, others⟩ := List.forall_mem_cons.mp present
      rw [List.foldl_cons, add, if_pos first]
      exact induction others

end Directive

namespace Policy

/-- Each directive is at its place, under its name, and its tokens stand before any others. -/
def ExtendsTo (policy wider : Policy) : Prop :=
  ∀ (place : Nat) (directive : Directive), policy.directives[place]? = some directive →
    ∃ grown : Directive, wider.directives[place]? = some grown ∧ grown.name = directive.name ∧
      directive.tokens <+: grown.tokens

theorem ExtendsTo.refl (policy : Policy) : policy.ExtendsTo policy := by
  intro place directive stands
  exact ⟨directive, stands, rfl, List.prefix_refl _⟩

theorem ExtendsTo.trans {policy wider widest : Policy} (first : policy.ExtendsTo wider)
    (second : wider.ExtendsTo widest) : policy.ExtendsTo widest := by
  intro place directive stands
  obtain ⟨grown, there, sameName, earlier⟩ := first place directive stands
  obtain ⟨last, atEnd, lastName, later⟩ := second place grown there
  exact ⟨last, atEnd, lastName.trans sameName, earlier.trans later⟩

theorem extendsTo_snoc (policy : Policy) (directive : Directive) :
    policy.ExtendsTo ⟨policy.directives ++ [directive]⟩ := by
  intro place known stands
  obtain ⟨inside, _⟩ := List.getElem?_eq_some_iff.mp stands
  refine ⟨known, ?_, rfl, List.prefix_refl _⟩
  rw [List.getElem?_append_left inside]
  exact stands

theorem extendsTo_addToFirst (name : String) (tokens : List String) (directives : List Directive) :
    ExtendsTo ⟨directives⟩ ⟨addToFirst name tokens directives⟩ := by
  induction directives with
  | nil =>
      intro place directive stands
      cases stands
  | cons first directives induction =>
      intro place directive stands
      rw [addToFirst]
      cases place with
      | zero =>
          obtain rfl : first = directive := Option.some.inj stands
          split
          · exact ⟨_, rfl, Directive.name_addAll _ _, Directive.prefix_addAll _ _⟩
          · exact ⟨_, rfl, rfl, List.prefix_refl _⟩
      | succ place =>
          split
          · exact ⟨directive, stands, rfl, List.prefix_refl _⟩
          · exact induction place directive stands

theorem extendsTo_append (policy : Policy) (name : String) (tokens : List String) :
    policy.ExtendsTo (policy.append name tokens) := by
  rw [append]
  split
  · exact ExtendsTo.refl policy
  · exact extendsTo_addToFirst name tokens policy.directives

theorem names_addToFirst (name : String) (tokens : List String) (directives : List Directive) :
    (addToFirst name tokens directives).map Directive.name = directives.map Directive.name ++
      if directives.any fun directive => directive.isNamed name then [] else [name] := by
  induction directives with
  | nil => simp [addToFirst, Directive.name_addAll]
  | cons first directives induction =>
      rw [addToFirst, List.any_cons]
      cases named : first.isNamed name with
      | true => simp [Directive.name_addAll]
      | false => simp [induction]

theorem foldedNames_eq (policy : Policy) :
    policy.foldedNames = (policy.directives.map Directive.name).map Text.lowerAscii := by
  rw [foldedNames, List.map_map]
  rfl

theorem Unambiguous.concat {policy : Policy} (unambiguous : policy.Unambiguous) {name : String}
    (unknown : ∀ directive ∈ policy.directives, directive.isNamed name = false) :
    (policy.foldedNames ++ [Text.lowerAscii name]).Nodup := by
  rw [← List.concat_eq_append]
  apply List.Nodup.concat ?_ unambiguous
  intro member
  obtain ⟨directive, known, same⟩ := List.mem_map.mp member
  have named : directive.isNamed name = true := Text.sameIgnoringCase_iff.mpr same
  rw [unknown directive known] at named
  cases named

theorem Unambiguous.append {policy : Policy} (unambiguous : policy.Unambiguous) (name : String)
    (tokens : List String) : (policy.append name tokens).Unambiguous := by
  rw [Policy.append]
  split
  · exact unambiguous
  · rw [Unambiguous, foldedNames_eq, names_addToFirst, List.map_append, ← foldedNames_eq]
    split
    · rw [List.map_nil, List.append_nil]
      exact unambiguous
    · rename_i unknown
      apply unambiguous.concat
      simpa using unknown

def Unrepeated (policy : Policy) : Prop :=
  ∀ directive ∈ policy.directives, directive.tokens.Nodup

instance (policy : Policy) : Decidable policy.Unrepeated :=
  inferInstanceAs (Decidable (∀ directive ∈ policy.directives, directive.tokens.Nodup))

theorem Unrepeated.append {policy : Policy} (unrepeated : policy.Unrepeated) (name : String)
    (tokens : List String) : (policy.append name tokens).Unrepeated :=
  forall_append unrepeated List.nodup_nil fun _ once => Directive.nodup_addAll once tokens

theorem others_append (policy : Policy) (name : String) (tokens : List String) :
    (policy.append name tokens).directives.filter (fun directive => !directive.isNamed name) =
      policy.directives.filter fun directive => !directive.isNamed name := by
  rw [append]
  split
  · rfl
  · obtain ⟨directives⟩ := policy
    induction directives with
    | nil =>
        have named : (⟨name, []⟩ : Directive).isNamed name = true :=
          Text.sameIgnoringCase_iff.mpr rfl
        simp [addToFirst, Directive.isNamed_addAll, named]
    | cons first directives induction =>
        rw [addToFirst]
        cases named : first.isNamed name with
        | true => simp [Directive.isNamed_addAll, named]
        | false =>
            simp only [Bool.false_eq_true, ↓reduceIte, List.filter_cons, named, Bool.not_false]
            rw [induction]

theorem append_of_granted {policy : Policy} {name : String} {tokens : List String}
    (granted : ∀ token ∈ tokens, policy.contains name token = true) :
    policy.append name tokens = policy := by
  obtain ⟨directives⟩ := policy
  rw [append]
  split
  · rfl
  · rename_i some
    rw [mk.injEq]
    induction directives with
    | nil =>
        obtain ⟨token, member⟩ := List.exists_mem_of_ne_nil tokens (by simpa using some)
        cases granted token member
    | cons first directives induction =>
        simp only [contains_cons] at granted
        rw [addToFirst]
        cases named : first.isNamed name with
        | true =>
            simp only [named, if_true] at granted
            rw [if_pos rfl, Directive.addAll_of_present granted]
        | false =>
            simp only [named, Bool.false_eq_true, if_false] at granted
            rw [if_neg Bool.false_ne_true, induction granted]

section

variable {Keeps : Policy → Prop}
variable (appended : ∀ (policy : Policy) (name : String) (tokens : List String),
  Keeps policy → Keeps (policy.append name tokens))
variable (added : ∀ (policy : Policy) (directive : Directive), directive.tokens = [] →
  (∀ known ∈ policy.directives, known.isNamed directive.name = false) →
  Keeps policy → Keeps ⟨policy.directives ++ [directive]⟩)

include appended added

theorem mergeDirective_keeps {policy : Policy} (kept : Keeps policy) (directive : Directive) :
    Keeps (policy.mergeDirective directive) := by
  rw [mergeDirective]
  split
  · rename_i lone
    rw [Bool.and_eq_true, List.isEmpty_iff, Option.isNone_iff_eq_none] at lone
    obtain ⟨bare, unknown⟩ := lone
    apply added policy directive bare ?_ kept
    intro known member
    simpa using List.find?_eq_none.mp unknown known member
  · exact appended policy directive.name directive.tokens kept

/-- A merge is made of additions and of new directives without tokens: it keeps what these keep. -/
theorem merge_keeps {policy : Policy} (kept : Keeps policy) (other : Policy) :
    Keeps (policy.merge other) := by
  rw [merge]
  induction other.directives generalizing policy with
  | nil => exact kept
  | cons directive directives induction =>
      rw [List.foldl_cons]
      exact induction (mergeDirective_keeps appended added kept directive)

end

theorem extendsTo_merge (policy other : Policy) : policy.ExtendsTo (policy.merge other) := by
  apply merge_keeps ?_ ?_ (ExtendsTo.refl policy)
  · intro between name tokens extended
    exact extended.trans (extendsTo_append between name tokens)
  · intro between directive _ _ extended
    exact extended.trans (extendsTo_snoc between directive)

theorem Unambiguous.merge {policy : Policy} (unambiguous : policy.Unambiguous) (other : Policy) :
    (policy.merge other).Unambiguous := by
  apply merge_keeps ?_ ?_ unambiguous
  · intro between name tokens kept
    exact kept.append name tokens
  · intro between directive _ unknown kept
    rw [Unambiguous, foldedNames, List.map_append]
    exact kept.concat unknown

theorem Unrepeated.merge {policy : Policy} (unrepeated : policy.Unrepeated) (other : Policy) :
    (policy.merge other).Unrepeated := by
  apply merge_keeps ?_ ?_ unrepeated
  · intro between name tokens kept
    exact kept.append name tokens
  · intro between directive bare _ kept
    have alone : directive.tokens.Nodup := by
      rw [bare]
      exact List.nodup_nil
    exact List.forall_mem_append.mpr ⟨kept, List.forall_mem_singleton.mpr alone⟩

def Knows (policy : Policy) (name : String) : Prop :=
  ∃ directive ∈ policy.directives, directive.isNamed name = true

theorem Knows.extended {policy wider : Policy} {name : String} (known : policy.Knows name)
    (extended : policy.ExtendsTo wider) : wider.Knows name := by
  obtain ⟨directive, member, named⟩ := known
  obtain ⟨place, stands⟩ := List.getElem?_of_mem member
  obtain ⟨grown, there, sameName, _⟩ := extended place directive stands
  refine ⟨grown, List.mem_of_getElem? there, ?_⟩
  rw [Directive.isNamed, sameName]
  exact named

theorem knows_mergeDirective (policy : Policy) (directive : Directive) :
    (policy.mergeDirective directive).Knows directive.name := by
  have own : directive.isNamed directive.name = true := Text.sameIgnoringCase_iff.mpr rfl
  rw [mergeDirective]
  split
  · exact ⟨directive, List.mem_append_right _ List.mem_cons_self, own⟩
  · rename_i notLone
    by_cases bare : directive.tokens = []
    · have found : policy.find? directive.name ≠ none := by
        simpa [bare] using notLone
      obtain ⟨known, same⟩ := Option.ne_none_iff_exists'.mp found
      have named := List.find?_some same
      rw [append, if_pos (by simpa using bare)]
      exact ⟨known, List.mem_of_find?_eq_some same, named⟩
    · obtain ⟨grown, member, named, _⟩ :=
        exists_mem_addToFirst directive.name directive.tokens policy.directives
      refine ⟨grown, ?_, named⟩
      rw [append, if_neg (by simpa using bare)]
      exact member

theorem knows_merge {policy other : Policy} {directive : Directive}
    (member : directive ∈ other.directives) : (policy.merge other).Knows directive.name := by
  obtain ⟨directives⟩ := other
  change directive ∈ directives at member
  induction directives generalizing policy with
  | nil => cases member
  | cons first directives induction =>
      rw [merge, List.foldl_cons]
      rcases List.mem_cons.mp member with rfl | later
      · exact (knows_mergeDirective policy directive).extended (extendsTo_merge _ ⟨directives⟩)
      · exact induction later

theorem mergeDirective_of_granted {policy : Policy} {directive : Directive}
    (known : policy.Knows directive.name)
    (granted : ∀ token ∈ directive.tokens, policy.contains directive.name token = true) :
    policy.mergeDirective directive = policy := by
  obtain ⟨first, member, named⟩ := known
  have found : (policy.find? directive.name).isNone = false := by
    rw [Option.isNone_eq_false_iff]
    exact List.find?_isSome.mpr ⟨first, member, named⟩
  rw [mergeDirective, found, Bool.and_false, if_neg Bool.false_ne_true]
  exact append_of_granted granted

theorem merge_of_granted {policy other : Policy}
    (known : ∀ directive ∈ other.directives, policy.Knows directive.name)
    (granted : ∀ asked token, other.Carries asked token → policy.contains asked token = true) :
    policy.merge other = policy := by
  have unchanged : ∀ directive ∈ other.directives, policy.mergeDirective directive = policy := by
    intro directive member
    apply mergeDirective_of_granted (known directive member)
    intro token stored
    exact granted directive.name token
      ⟨directive, member, Text.sameIgnoringCase_iff.mpr rfl, stored⟩
  rw [merge]
  generalize other.directives = directives at unchanged
  induction directives with
  | nil => rfl
  | cons directive directives induction =>
      obtain ⟨first, others⟩ := List.forall_mem_cons.mp unchanged
      rw [List.foldl_cons, first]
      exact induction others

inductive Change where
  | append (name : String) (tokens : List String)
  | merge (other : Policy)

def changed (policy : Policy) : Change → Policy
  | .append name tokens => policy.append name tokens
  | .merge other => policy.merge other

def changedBy (policy : Policy) (changes : List Change) : Policy :=
  changes.foldl changed policy

theorem changedBy_keeps {Keeps : Policy → Prop}
    (step : ∀ policy change, Keeps policy → Keeps (policy.changed change)) {policy : Policy}
    (kept : Keeps policy) (changes : List Change) : Keeps (policy.changedBy changes) := by
  rw [changedBy]
  induction changes generalizing policy with
  | nil => exact kept
  | cons change changes induction =>
      rw [List.foldl_cons]
      exact induction (step policy change kept)

theorem extendsTo_changed (policy : Policy) (change : Change) :
    policy.ExtendsTo (policy.changed change) := by
  cases change with
  | append name tokens => exact extendsTo_append policy name tokens
  | merge other => exact extendsTo_merge policy other

theorem Unambiguous.changed {policy : Policy} (unambiguous : policy.Unambiguous)
    (change : Change) : (policy.changed change).Unambiguous := by
  cases change with
  | append name tokens => exact unambiguous.append name tokens
  | merge other => exact unambiguous.merge other

theorem Unrepeated.changed {policy : Policy} (unrepeated : policy.Unrepeated) (change : Change) :
    (policy.changed change).Unrepeated := by
  cases change with
  | append name tokens => exact unrepeated.append name tokens
  | merge other => exact unrepeated.merge other

def sparse : Policy := ⟨[⟨"Img-Src", ["a"]⟩, ⟨"sandbox", []⟩]⟩

/-- Names and tokens that are there already, in other letters and more than once. -/
def cluttering : List Change :=
  [.merge ⟨[⟨"img-src", ["b", "b"]⟩, ⟨"IMG-SRC", ["a", "c"]⟩, ⟨"Report-Uri", []⟩]⟩,
    .append "report-uri" ["/r", "/r"]]

/-- After any run of additions and merges each directive is at its place, with its name and its
tokens first. If no name stood twice none does, and if no directive repeated a token none does. An
addition leaves the directives of other names as they were. The same addition again changes nothing,
and neither does the same merge. -/
theorem changes_extend (policy : Policy) :
    (∀ changes, policy.ExtendsTo (policy.changedBy changes) ∧
      (policy.Unambiguous → (policy.changedBy changes).Unambiguous) ∧
      (policy.Unrepeated → (policy.changedBy changes).Unrepeated)) ∧
    (∀ name tokens,
      (policy.append name tokens).directives.filter (fun directive => !directive.isNamed name) =
        policy.directives.filter fun directive => !directive.isNamed name) ∧
    (∀ name tokens,
      (policy.append name tokens).append name tokens = policy.append name tokens) ∧
    ∀ other, (policy.merge other).merge other = policy.merge other := by
  refine ⟨?_, others_append policy, ?_, ?_⟩
  · intro changes
    refine ⟨?_, ?_, ?_⟩
    · apply changedBy_keeps ?_ (ExtendsTo.refl policy)
      intro between change extended
      exact extended.trans (extendsTo_changed between change)
    · intro unambiguous
      exact changedBy_keeps (fun _ change kept => kept.changed change) unambiguous changes
    · intro unrepeated
      exact changedBy_keeps (fun _ change kept => kept.changed change) unrepeated changes
  · intro name tokens
    apply append_of_granted
    intro token member
    apply (contains_append policy name tokens name token).mpr
    exact Or.inr ⟨Text.sameIgnoringCase_iff.mpr rfl, member⟩
  · intro other
    apply merge_of_granted
    · intro directive member
      exact knows_merge member
    · intro asked token carried
      exact (contains_merge policy other asked token).mpr (Or.inr carried)

example : sparse.changedBy cluttering =
    ⟨[⟨"Img-Src", ["a", "b", "c"]⟩, ⟨"sandbox", []⟩, ⟨"Report-Uri", ["/r"]⟩]⟩ := by
  decide

theorem sparse_extended :
    sparse.Unambiguous ∧ sparse.Unrepeated ∧ (sparse.changedBy cluttering).Unambiguous ∧
      (sparse.changedBy cluttering).Unrepeated ∧ sparse.ExtendsTo (sparse.changedBy cluttering) := by
  have unambiguous : sparse.Unambiguous := by decide
  have unrepeated : sparse.Unrepeated := by decide
  obtain ⟨extended, names, tokens⟩ := (changes_extend sparse).1 cluttering
  exact ⟨unambiguous, unrepeated, names unambiguous, tokens unrepeated, extended⟩

end Policy

end PageAssembly
