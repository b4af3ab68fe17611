import PageAssembly.Proofs.Fragment.Execution
import PageAssembly.Proofs.Page.Assembling

/-!
A page that is served has all fragments that it can ask for. This needs nothing of the setup and
nothing of the stores, which may change between requests: a closure is complete over the fragments
that it was made from, the page takes all of them over, and a cache gives back only pages that were
made in this way.
-/

namespace PageAssembly

open PageAssembly.Closure (Discovered Invokes)

/-- All names that can be reached from where the page starts are defined on the page. -/
def Page.Complete (page : Page) : Prop :=
  ∀ name, Relation.ReflTransGen (Invokes page.fragments.find?) page.main name →
    ∃ fragment, page.fragments.find? name = some fragment

theorem Setup.pageOf_complete {setup : Setup} {main : String} {set : FragmentSet}
    {fragments : List Fragment} (css js : List Asset)
    (closed : closure [set, setup.components] main = .ok fragments) :
    (setup.pageOf main set fragments css js).Complete := by
  have named : Closure.Named (Closure.find? [set, setup.components]) := Closure.find?_named _
  cases Closure.closure_eq_iff.mp closed with
  | complete discovered finished =>
      have onPage := find?_pageOf css js closed
      -- the page knows no other fragments than the search, so nothing more can be reached on it
      have invoked : ∀ name target,
          Invokes (setup.pageOf main set fragments css js).fragments.find? name target →
            Invokes (Closure.find? [set, setup.components]) name target := by
        rintro name target ⟨fragment, found, member⟩
        rw [onPage] at found
        split at found
        · exact ⟨fragment, found, member⟩
        · cases found
      intro name reached
      have listed := discovered.mem_of_reached named finished
        (Relation.ReflTransGen.mono invoked _ _ reached)
      obtain ⟨fragment, _, found⟩ := discovered.look_of_mem named listed
      exact ⟨fragment, by rw [onPage, if_pos (Or.inr listed), found]⟩

/-- The engines that a site has been at one time or another: requests have filled its cache,
renderings have changed its buffers, and its stores may have come to answer differently. -/
inductive Engine.Serving (setup : Setup) : Engine → Prop where
  | start : Serving setup setup.engine
  | lookup {engine : Engine} (earlier : Serving setup engine) (main : String)
      (includes : List String) : Serving setup (engine.lookup main includes).2
  | render {engine : Engine} (earlier : Serving setup engine) (pool : Pool) :
      Serving setup { engine with pool }
  | restock {engine : Engine} (earlier : Serving setup engine) (store : MountedStore) :
      Serving setup { engine with setup := { engine.setup with store } }

namespace Cache

def HoldsComplete (cache : Cache) : Prop :=
  ∀ key page, cache.page? key = some page → page.Complete

theorem holdsComplete_empty (enabled : Bool) : (empty enabled).HoldsComplete := by
  intro key page stored
  cases enabled <;> cases stored

theorem HoldsComplete.insertPage {cache : Cache} (holds : cache.HoldsComplete) {key : String}
    {page : Page} (complete : page.Complete) : (cache.insertPage key page).HoldsComplete := by
  intro other found stored
  rw [page?_insertPage] at stored
  split at stored
  · cases stored
    exact complete
  · exact holds other found stored

end Cache

namespace Engine

/-- One request: what is answered is complete, and so is all that the cache holds afterwards. -/
theorem lookup_complete {engine : Engine} (holds : engine.cache.HoldsComplete) (main : String)
    (includes : List String) :
    (∀ page, (engine.lookup main includes).1 = .ok page → page.Complete) ∧
      (engine.lookup main includes).2.cache.HoldsComplete := by
  rw [lookup]
  cases stored : engine.cache.page? (Cache.pageKey main includes) with
  | some page =>
      refine ⟨?_, holds⟩
      intro other answered
      cases answered
      exact holds _ _ stored
  | none =>
      have assembled := engine.setup.assemble_pageOf
        (fun cache name file (holds : cache.HoldsComplete) key page => by simpa using holds key page)
        (fun cache name asset (holds : cache.HoldsComplete) key page => by simpa using holds key page)
        main includes engine.cache holds
      rcases ended : (engine.setup.assemble main includes).run.run engine.cache with
        ⟨error | page, cache⟩ <;> rw [ended] at assembled
      · refine ⟨?_, assembled.2⟩
        intro page answered
        cases answered
      · obtain ⟨set, fragments, css, js, closed, same⟩ := assembled.1 page rfl
        have complete : page.Complete := same ▸ Setup.pageOf_complete css js closed
        refine ⟨?_, assembled.2.insertPage complete⟩
        intro other answered
        cases answered
        exact complete

theorem Serving.holdsComplete {setup : Setup} {engine : Engine} (serving : Serving setup engine) :
    engine.cache.HoldsComplete := by
  induction serving with
  | start => exact Cache.holdsComplete_empty setup.settings.cache
  | lookup _ main includes induction => exact (lookup_complete induction main includes).2
  | render _ _ induction => exact induction
  | restock _ _ induction => exact induction

/-- Whatever requests came before, a page that is answered defines every name that can be reached
from where it starts, and no execution of it is in want of a fragment. -/
theorem served_page_nothing_missing {setup : Setup} {engine : Engine}
    (serving : Serving setup engine) {main : String} {includes : List String} {page : Page}
    (answered : (engine.lookup main includes).1 = .ok page) :
    (∀ name, Relation.ReflTransGen (Invokes page.fragments.find?) page.main name →
      ∃ fragment, page.fragments.find? name = some fragment) ∧
    ∀ data slots name,
      (execute page.fragments page.main data slots).failure ≠ some (.missingFragment name) := by
  have complete := (lookup_complete serving.holdsComplete main includes).1 page answered
  refine ⟨complete, ?_⟩
  intro data slots
  exact Execution.invocation_nothing_missing slots data maxDepth page.main data complete

def looping : Setup :=
  let files := MemoryStore.ofList [("main", Text.encodeString "a\x7b\x7b template \"part\" \x7d\x7d")]
  let part : Fragment := ⟨"part", [.invoke ⟨0, 0⟩ "main" none]⟩
  { Setup.start files.toStore Settings.standard with components := FragmentSet.empty.insert part }

theorem looping_page_nothing_missing :
    ∃ page, (looping.engine.lookup "main" []).1 = .ok page ∧
      (∀ name, Relation.ReflTransGen (Invokes page.fragments.find?) page.main name →
        ∃ fragment, page.fragments.find? name = some fragment) ∧
      ∀ data slots name,
        (execute page.fragments page.main data slots).failure ≠ some (.missingFragment name) := by
  obtain ⟨page, answered⟩ := exists_ok_of_toBool
    (by decide +kernel : (looping.engine.lookup "main" []).1.toBool = true)
  exact ⟨page, answered, served_page_nothing_missing .start answered⟩

end Engine

end PageAssembly
