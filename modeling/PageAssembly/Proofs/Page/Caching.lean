import PageAssembly.Proofs.Page.Assembling
import PageAssembly.Proofs.Setup.Building

/-!
Requests cannot tell whether there is a cache. A cache mirrors a site when its files and assets are
what the store gives and each of its pages is what assembling gives for a request of that key; every
request, also one that fails half-way, leaves such a cache behind.
-/

namespace PageAssembly

/-- What is asked for: a main file and what goes with it. -/
structure PageRequest where
  main : String
  includes : List String
deriving DecidableEq

def PageRequest.key (request : PageRequest) : String :=
  Cache.pageKey request.main request.includes

/-- No two different requests have one key. -/
def DistinctKeys (requests : List PageRequest) : Prop :=
  ∀ one ∈ requests, ∀ other ∈ requests, one.key = other.key → one = other

/-- The answers to requests that come one after the other. -/
def Engine.answers (engine : Engine) : List PageRequest → List (Except LookupError Page)
  | [] => []
  | request :: requests =>
      let answered := engine.lookup request.main request.includes
      answered.1 :: answered.2.answers requests

def Setup.fresh (setup : Setup) (request : PageRequest) : Except LookupError Page :=
  setup.freshPage request.main request.includes

/-- What the cache has of files and assets is what the store gives; what it has of pages is what
assembling gives for one of the requests. -/
structure Cache.Mirrors (setup : Setup) (requests : List PageRequest) (cache : Cache) : Prop where
  faithful : cache.Faithful setup
  pages : ∀ key page, cache.page? key = some page →
    ∃ request ∈ requests, request.key = key ∧ setup.fresh request = .ok page

namespace Cache

theorem file?_insertPage (cache : Cache) (key name : String) (page : Page) :
    (cache.insertPage key page).file? name = cache.file? name := by
  rw [insertPage]
  split <;> rfl

theorem asset?_insertPage (cache : Cache) (key name : String) (page : Page) :
    (cache.insertPage key page).asset? name = cache.asset? name := by
  rw [insertPage]
  split <;> rfl

section

variable {setup : Setup} {requests : List PageRequest} {cache : Cache}

theorem Faithful.insertPage (faithful : cache.Faithful setup) (key : String) (page : Page) :
    (cache.insertPage key page).Faithful setup := by
  constructor
  · intro name file stored
    rw [file?_insertPage] at stored
    exact faithful.files stored
  · intro name asset stored
    rw [asset?_insertPage] at stored
    exact faithful.assets stored

theorem mirrors_empty (setup : Setup) (requests : List PageRequest) (enabled : Bool) :
    (empty enabled).Mirrors setup requests := by
  refine ⟨faithful_empty setup enabled, ?_⟩
  intro key page stored
  cases enabled <;> cases stored

theorem Mirrors.insertPage (mirrors : cache.Mirrors setup requests) {request : PageRequest}
    (member : request ∈ requests) {page : Page} (fresh : setup.fresh request = .ok page) :
    (cache.insertPage request.key page).Mirrors setup requests := by
  refine ⟨mirrors.faithful.insertPage request.key page, ?_⟩
  intro key other stored
  rw [page?_insertPage] at stored
  split at stored
  · rename_i same
    cases stored
    exact ⟨request, member, same.2, fresh⟩
  · exact mirrors.pages key other stored

end

end Cache

namespace Setup

theorem assemble_page? (setup : Setup) (main : String) (includes : List String) (cache : Cache) :
    ((setup.assemble main includes).run.run cache).2.page? = cache.page? := by
  have fileKept : ∀ (other : Cache) (name : String) (file : SourceFile),
      other.page? = cache.page? → (other.insertFile name file).page? = cache.page? := by
    intro other name file same
    funext key
    rw [Cache.page?_insertFile, same]
  have assetKept : ∀ (other : Cache) (name : String) (asset : Asset),
      other.page? = cache.page? → (other.insertAsset name asset).page? = cache.page? := by
    intro other name asset same
    funext key
    rw [Cache.page?_insertAsset, same]
  exact (setup.assemble_pageOf fileKept assetKept main includes cache rfl).2

/-- Assembling from a cache that mirrors the site gives what the site gives, and leaves a cache that
mirrors it also when it fails. -/
theorem assemble_mirrors {setup : Setup} {requests : List PageRequest} {cache : Cache}
    (mirrors : cache.Mirrors setup requests) (request : PageRequest) :
    let assembled := (setup.assemble request.main request.includes).run.run cache
    assembled.1 = setup.fresh request ∧ assembled.2.Mirrors setup requests := by
  have faithful := setup.assemble_faithful request.main request.includes cache mirrors.faithful
  refine ⟨faithful.1, faithful.2, ?_⟩
  rw [setup.assemble_page?]
  exact mirrors.pages

end Setup

namespace Engine

section

variable {engine : Engine} {requests : List PageRequest}

theorem lookup_mirrors (distinct : DistinctKeys requests)
    (mirrors : engine.cache.Mirrors engine.setup requests) {request : PageRequest}
    (member : request ∈ requests) :
    (engine.lookup request.main request.includes).1 = engine.setup.fresh request ∧
      (engine.lookup request.main request.includes).2.setup = engine.setup ∧
      (engine.lookup request.main request.includes).2.cache.Mirrors engine.setup requests := by
  rw [lookup]
  cases stored : engine.cache.page? (Cache.pageKey request.main request.includes) with
  | some page =>
      obtain ⟨other, also, same, fresh⟩ := mirrors.pages _ page stored
      obtain rfl := distinct other also request member same
      exact ⟨fresh.symm, rfl, mirrors⟩
  | none =>
      obtain ⟨answer, left⟩ := Setup.assemble_mirrors mirrors request
      rcases ended : (engine.setup.assemble request.main request.includes).run.run engine.cache with
        ⟨error | page, cache⟩ <;> rw [ended] at answer left
      · exact ⟨answer, rfl, left⟩
      · exact ⟨answer, rfl, left.insertPage member answer.symm⟩

theorem answers_eq (distinct : DistinctKeys requests) {asked : List PageRequest}
    (among : ∀ request ∈ asked, request ∈ requests) {engine : Engine}
    (mirrors : engine.cache.Mirrors engine.setup requests) :
    engine.answers asked = asked.map engine.setup.fresh := by
  induction asked generalizing engine with
  | nil => rfl
  | cons request asked induction =>
      obtain ⟨answer, site, left⟩ := lookup_mirrors distinct mirrors (among request (by simp))
      rw [← site] at left
      have later := induction (fun other member => among other (List.mem_cons_of_mem _ member)) left
      rw [answers, List.map_cons, answer, later, site]

end

end Engine

namespace Setup

/-- A site answers requests as if it assembled each page afresh, cache or not. -/
theorem answers_fresh (setup : Setup) {requests : List PageRequest}
    (distinct : DistinctKeys requests) :
    setup.engine.answers requests = requests.map setup.fresh :=
  Engine.answers_eq distinct (fun _ member => member) (Cache.mirrors_empty setup requests _)

/-- Calls that set up a site set it up with a cache as well as without one, and the two sites answer
each request of a list with the same page or the same error. -/
theorem caching_unobservable {main : Store} {settings : Settings} {calls : List SetupStep}
    {setup : Setup} (built : (start main settings).build calls = .ok setup) :
    ∃ cached plain,
      (start main { settings with cache := true }).build calls = .ok cached ∧
      (start main { settings with cache := false }).build calls = .ok plain ∧
      ∀ requests, DistinctKeys requests →
        cached.engine.answers requests = plain.engine.answers requests := by
  have either : ∀ enabled, (start main { settings with cache := enabled }).build calls =
      .ok (setup.withCache enabled) := by
    intro enabled
    have same := build_withCache (start main settings) calls enabled
    rw [built] at same
    exact same
  refine ⟨setup.withCache true, setup.withCache false, either true, either false, ?_⟩
  intro requests distinct
  rw [answers_fresh _ distinct, answers_fresh _ distinct]
  rfl

def overlapping : List PageRequest :=
  [⟨"main", ["style.css", "absent.js"]⟩, ⟨"main", ["style.css"]⟩, ⟨"main", ["style.css"]⟩]

theorem overlapping_unobservable :
    let files := MemoryStore.ofList
      [("main", Text.encodeString "a\x7b\x7b css \x7d\x7d"), ("style.css", [0x62]), ("all.js", [0x63])]
    let calls := [SetupStep.everyPageJs ["all.js"]]
    ∃ cached plain,
      (start files.toStore { Settings.standard with cache := true }).build calls = .ok cached ∧
      (start files.toStore { Settings.standard with cache := false }).build calls = .ok plain ∧
      DistinctKeys overlapping ∧
      cached.engine.answers overlapping = plain.engine.answers overlapping := by
  intro files calls
  have distinct : DistinctKeys overlapping := by
    rw [DistinctKeys]
    decide
  obtain ⟨cached, plain, builtCached, builtPlain, same⟩ := caching_unobservable
    (rfl : (start files.toStore Settings.standard).build calls = .ok _)
  exact ⟨cached, plain, builtCached, builtPlain, distinct, same overlapping distinct⟩

end Setup

end PageAssembly
