import PageAssembly.Proofs.Policy.Grants

/-!
What merged policies grant. All directives of the second policy are taken over, also those that had
no effect in it because they stand behind another of their name. So what either policy grants is
granted, and nothing else if no such directive has a token of its own.
-/

namespace PageAssembly.Policy

/-- Some directive of the name has the token, whether it is the first of that name or not. -/
def Carries (policy : Policy) (asked token : String) : Prop :=
  ∃ directive ∈ policy.directives, directive.isNamed asked = true ∧ token ∈ directive.tokens

def foldedNames (policy : Policy) : List String :=
  policy.directives.map fun directive => Text.lowerAscii directive.name

/-- No two directives have one name, up to case. -/
def Unambiguous (policy : Policy) : Prop :=
  policy.foldedNames.Nodup

instance (policy : Policy) : Decidable policy.Unambiguous :=
  inferInstanceAs (Decidable policy.foldedNames.Nodup)

theorem carries_of_contains {policy : Policy} {asked token : String}
    (granted : policy.contains asked token = true) : policy.Carries asked token := by
  obtain ⟨directives⟩ := policy
  induction directives with
  | nil => cases granted
  | cons directive directives induction =>
      rw [contains_cons] at granted
      split at granted
      · rename_i named
        exact ⟨directive, List.mem_cons_self, named, granted⟩
      · obtain ⟨carrier, member, known⟩ := induction granted
        exact ⟨carrier, List.mem_cons_of_mem _ member, known⟩

theorem Unambiguous.contains_of_carries {policy : Policy} (unambiguous : policy.Unambiguous)
    {asked token : String} (carried : policy.Carries asked token) :
    policy.contains asked token = true := by
  obtain ⟨directives⟩ := policy
  induction directives with
  | nil =>
      obtain ⟨_, member, _⟩ := carried
      cases member
  | cons directive directives induction =>
      obtain ⟨carrier, member, named, stored⟩ := carried
      obtain ⟨alone, apart⟩ := List.nodup_cons.mp unambiguous
      rw [contains_cons]
      rcases List.mem_cons.mp member with rfl | later
      · rw [if_pos named]
        exact stored
      · have different : directive.isNamed asked = false := by
          rw [Bool.eq_false_iff]
          intro same
          have folded : Text.lowerAscii carrier.name = Text.lowerAscii directive.name :=
            (Text.sameIgnoringCase_iff.mp named).trans (Text.sameIgnoringCase_iff.mp same).symm
          exact alone (List.mem_map.mpr ⟨carrier, later, folded⟩)
        rw [if_neg (Bool.eq_false_iff.mp different)]
        exact induction apart ⟨carrier, later, named, stored⟩

/-- A merged policy grants what the first policy grants and what any directive of the second has.
That is never less than what the two grant, and it is that, whatever the first policy is, exactly if
the second grants all that it carries; it does if its directives have different names. -/
theorem merge_grants (policy other : Policy) :
    (∀ asked token, (policy.merge other).contains asked token = true ↔
      policy.contains asked token = true ∨ other.Carries asked token) ∧
    (∀ asked token, policy.contains asked token = true ∨ other.contains asked token = true →
      (policy.merge other).contains asked token = true) ∧
    ((∀ (first : Policy) asked token, (first.merge other).contains asked token = true ↔
        first.contains asked token = true ∨ other.contains asked token = true) ↔
      ∀ asked token, other.Carries asked token → other.contains asked token = true) ∧
    (other.Unambiguous → ∀ asked token, (policy.merge other).contains asked token = true ↔
      policy.contains asked token = true ∨ other.contains asked token = true) := by
  have united (first : Policy)
      (all : ∀ asked token, other.Carries asked token → other.contains asked token = true)
      (asked token : String) : (first.merge other).contains asked token = true ↔
        first.contains asked token = true ∨ other.contains asked token = true := by
    rw [contains_merge]
    exact or_congr_right ⟨all asked token, carries_of_contains⟩
  refine ⟨contains_merge policy other, ?_, ⟨?_, ?_⟩, ?_⟩
  · intro asked token granted
    exact (contains_merge policy other asked token).mpr (granted.imp_right carries_of_contains)
  · intro union asked token carried
    -- an empty policy shows what the other one brings
    have brought := (contains_merge empty other asked token).mpr (Or.inr carried)
    exact ((union empty asked token).mp brought).resolve_left Bool.false_ne_true
  · intro all first
    exact united first all
  · intro unambiguous
    exact united policy fun asked token => unambiguous.contains_of_carries

def ownStyles : Policy := ⟨[⟨"Style-Src", ["'self'"]⟩]⟩

def addedStyles : Policy := ⟨[⟨"style-src", ["https:"]⟩, ⟨"sandbox", []⟩]⟩

theorem styles_united :
    addedStyles.Unambiguous ∧
      (ownStyles.merge addedStyles).contains "STYLE-SRC" "https:" = true ∧
      ∀ asked token, (ownStyles.merge addedStyles).contains asked token = true ↔
        ownStyles.contains asked token = true ∨ addedStyles.contains asked token = true := by
  have unambiguous : addedStyles.Unambiguous := by decide
  obtain ⟨_, all, _, union⟩ := merge_grants ownStyles addedStyles
  refine ⟨unambiguous, all _ _ (Or.inr ?_), union unambiguous⟩
  decide

/-- What stands behind a directive of its name has no effect, but is granted after a merge. -/
theorem repeated_directive_granted :
    (parse "img-src a; img-src b").contains "img-src" "b" = false ∧
      empty.contains "img-src" "b" = false ∧
      (empty.merge (parse "img-src a; img-src b")).contains "img-src" "b" = true := by
  decide

end PageAssembly.Policy
