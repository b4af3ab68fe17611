import PageAssembly.Policy.Header
import PageAssembly.Proofs.Policy.Words

/-!
Policies and texts stand for each other. What is parsed is of words, so printing loses nothing of
it, and the text of a policy is read back exactly if the policy is of words. Adding to a text and
adding to the policy that is read from it come to the same.
-/

namespace PageAssembly.Policy

theorem OfWords.append {policy : Policy} (ofWords : policy.OfWords) {name : String}
    {tokens : List String} (named : IsWord name) (areWords : ∀ token ∈ tokens, IsWord token) :
    (policy.append name tokens).OfWords :=
  forall_append ofWords (List.forall_mem_singleton.mpr named) fun _ kept => kept.addAll areWords

/-- What is parsed from a text stays the same when it is printed and parsed again. A policy is read
back from its text exactly if its names and tokens are words. Words that are added to a text are,
when it is parsed, those that are added to the policy of the text. -/
theorem conversion_faithful :
    (∀ text, parse (parse text).print = parse text) ∧
      (∀ policy : Policy, parse policy.print = policy ↔ policy.OfWords) ∧
      ∀ text name tokens, IsWord name → (∀ token ∈ tokens, IsWord token) →
        parse (appendToText text name tokens) = (parse text).append name tokens := by
  refine ⟨?_, ?_, ?_⟩
  · intro text
    exact parse_print (parse_ofWords text)
  · intro policy
    constructor
    · intro same
      rw [← same]
      exact parse_ofWords policy.print
    · exact parse_print
  · intro text name tokens named areWords
    rw [appendToText]
    exact parse_print ((parse_ofWords text).append named areWords)

theorem spaced_converted :
    IsWord "IMG-SRC" ∧ (∀ token ∈ ["é", "a"], IsWord token) ∧
      parse (appendToText " ;img-src\t a;; sandbox ;img-src b" "IMG-SRC" ["é", "a"]) =
        ⟨[⟨"img-src", ["a", "é"]⟩, ⟨"sandbox", []⟩, ⟨"img-src", ["b"]⟩]⟩ := by
  have named : IsWord "IMG-SRC" := by decide
  have areWords : ∀ token ∈ ["é", "a"], IsWord token := by decide
  refine ⟨named, areWords, ?_⟩
  rw [conversion_faithful.2.2 _ _ _ named areWords]
  decide

end PageAssembly.Policy
