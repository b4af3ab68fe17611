import PageAssembly.Page.Engine
import PageAssembly.Proofs.Fragment.Discovery
import PageAssembly.Proofs.Setup.Contribution

/-!
Steps that go through a cache. What a site knows under a name is what its cache has or else what the
store gives; no step changes that, so a page is assembled from what was known before. A cache is
faithful to a site when it holds only what a fresh read would give; such a cache changes no result,
so that assembling a page comes to what it would come to without any cache.
-/

namespace PageAssembly

namespace Assembling

variable {α β : Type} {wanted : Cache → Prop}

/-- From every cache that is as wanted the steps come to a result that is as stated, and the cache
that they leave is as wanted again. -/
def Ensures (wanted : Cache → Prop) (steps : Assembling α)
    (stated : Except LookupError α → Prop) : Prop :=
  ∀ cache, wanted cache →
    stated (steps.run.run cache).1 ∧ wanted (steps.run.run cache).2

theorem run_bind (steps : Assembling α) (next : α → Assembling β) (cache : Cache) :
    (steps >>= next).run.run cache =
      match steps.run.run cache with
      | (.ok value, cache) => (next value).run.run cache
      | (.error error, cache) => (.error error, cache) := by
  simp only [ExceptT.run_bind, StateT.run_bind]
  rcases steps.run.run cache with ⟨_ | _, _⟩ <;> rfl

theorem ensures_pure {value : α} {stated : Except LookupError α → Prop}
    (holds : stated (.ok value)) : Ensures wanted (pure value) stated :=
  fun _ good => ⟨holds, good⟩

theorem ensures_throw {error : LookupError} {stated : Except LookupError α → Prop}
    (holds : stated (.error error)) : Ensures wanted (throw error) stated :=
  fun _ good => ⟨holds, good⟩

theorem Ensures.bind {steps : Assembling α} {next : α → Assembling β}
    {between : Except LookupError α → Prop} {stated : Except LookupError β → Prop}
    (first : Ensures wanted steps between)
    (stopped : ∀ error, between (.error error) → stated (.error error))
    (later : ∀ value, between (.ok value) → Ensures wanted (next value) stated) :
    Ensures wanted (steps >>= next) stated := by
  intro cache good
  have reached := first cache good
  rw [run_bind]
  rcases ended : steps.run.run cache with ⟨error | value, left⟩ <;> rw [ended] at reached
  · exact ⟨stopped error reached.1, reached.2⟩
  · exact later value reached.1 left reached.2

theorem ensures_mapM {steps : α → Assembling β} {each : α → Except LookupError β → Prop}
    (stated : List α → Except LookupError (List β) → Prop)
    (one : ∀ item, Ensures wanted (steps item) (each item))
    (nothing : stated [] (.ok []))
    (stop : ∀ item items error, each item (.error error) → stated (item :: items) (.error error))
    (more : ∀ item items value result, each item (.ok value) → stated items result →
      stated (item :: items) (result.map (value :: ·)))
    (items : List α) : Ensures wanted (items.mapM steps) (stated items) := by
  induction items with
  | nil =>
      rw [List.mapM_nil]
      exact ensures_pure nothing
  | cons item items induction =>
      rw [List.mapM_cons]
      apply (one item).bind (stop item items)
      intro value first
      apply induction.bind
      · intro error rest
        exact more item items value (.error error) first rest
      · intro values rest
        exact ensures_pure (more item items value (.ok values) first rest)

theorem ensures_mapM_eq {steps : α → Assembling β} {plain : α → Except LookupError β}
    (one : ∀ item, Ensures wanted (steps item) (· = plain item)) (items : List α) :
    Ensures wanted (items.mapM steps) (· = items.mapM plain) := by
  refine ensures_mapM (fun items result => result = items.mapM plain) one rfl ?_ ?_ items
  · intro item items error first
    rw [List.mapM_cons, ← first]
    rfl
  · intro item items value result first rest
    rw [List.mapM_cons, ← first, rest]
    cases items.mapM plain <;> rfl

theorem ensures_mapM_any {steps : α → Assembling β}
    (one : ∀ item, Ensures wanted (steps item) fun _ => True) (items : List α) :
    Ensures wanted (items.mapM steps) fun _ => True :=
  ensures_mapM (fun _ _ => True) one trivial (fun _ _ _ _ => trivial)
    (fun _ _ _ _ _ _ => trivial) items

end Assembling

namespace Setup

/-- What a source file is when the store is asked for it. -/
def freshFile (setup : Setup) (name : String) : Except LookupError SourceFile :=
  match setup.store.read name with
  | .error error => .error (.store error)
  | .ok data =>
      match SourceFile.parseBytes name data with
      | .error error => .error (.fragment error)
      | .ok file => .ok file

def freshAsset (setup : Setup) (name : String) : Except LookupError Asset :=
  match setup.store.read name with
  | .error error => .error (.store error)
  | .ok data => .ok (Asset.ofData name data)

/-- The page that comes of the fragments of its files, its closure and its included assets. -/
def pageOf (setup : Setup) (main : String) (set : FragmentSet) (fragments : List Fragment)
    (css js : List Asset) : Page :=
  let collected := (setup.collect fragments).addNew { Contributions.none with css, js }
  { main
    fragments := fragments.foldl graft set
    css := collected.css
    js := collected.js
    hooks := collected.hooks
    environment := collected.environment
    inline := setup.settings.inline
    place := setup.settings.place }

/-- Assembling from the files and assets that the names stand for. -/
def pageFrom (setup : Setup) (readFile : String → Except LookupError SourceFile)
    (readAsset : String → Except LookupError Asset) (main : String) (includes : List String) :
    Except LookupError Page := do
  let names := Includes.of main includes
  let files ← names.sources.mapM readFile
  let set := files.foldl FragmentSet.merge setup.base
  match closure [set, setup.components] main with
  | .error error => .error (.closure error)
  | .ok fragments =>
      let css ← names.css.mapM readAsset
      let js ← names.js.mapM readAsset
      .ok (setup.pageOf main set fragments css js)

/-- Assembling without a cache. -/
def freshPage (setup : Setup) : String → List String → Except LookupError Page :=
  setup.pageFrom setup.freshFile setup.freshAsset

/-- What a source file is to a site with a cache: what the cache has, or else what the store gives.
-/
def knownFile (setup : Setup) (cache : Cache) (name : String) : Except LookupError SourceFile :=
  match cache.file? name with
  | some file => .ok file
  | none => setup.freshFile name

def knownAsset (setup : Setup) (cache : Cache) (name : String) : Except LookupError Asset :=
  match cache.asset? name with
  | some asset => .ok asset
  | none => setup.freshAsset name

theorem pageFrom_eq_ok_iff {setup : Setup} {readFile : String → Except LookupError SourceFile}
    {readAsset : String → Except LookupError Asset} {main : String} {includes : List String}
    {page : Page} :
    setup.pageFrom readFile readAsset main includes = .ok page ↔ ∃ files fragments css js,
      (Includes.of main includes).sources.mapM readFile = .ok files ∧
      closure [files.foldl FragmentSet.merge setup.base, setup.components] main = .ok fragments ∧
      (Includes.of main includes).css.mapM readAsset = .ok css ∧
      (Includes.of main includes).js.mapM readAsset = .ok js ∧
      page = setup.pageOf main (files.foldl FragmentSet.merge setup.base) fragments css js := by
  constructor
  · intro assembled
    obtain ⟨files, sources, rest⟩ := bind_ok assembled
    dsimp only at rest
    split at rest
    · cases rest
    · rename_i fragments closed
      obtain ⟨css, styles, rest⟩ := bind_ok rest
      obtain ⟨js, scripts, same⟩ := bind_ok rest
      cases same
      exact ⟨files, fragments, css, js, sources, closed, styles, scripts, rfl⟩
  · rintro ⟨files, fragments, css, js, sources, closed, styles, scripts, rfl⟩
    simp only [pageFrom, sources, styles, scripts, Bind.bind, Except.bind, closed]

theorem run_loadFile (setup : Setup) (name : String) (cache : Cache) :
    (setup.loadFile name).run.run cache =
      match cache.file? name with
      | some file => (.ok file, cache)
      | none =>
          match setup.freshFile name with
          | .ok file => (.ok file, cache.insertFile name file)
          | .error error => (.error error, cache) := by
  rw [loadFile, Assembling.run_bind]
  change (match cache.file? name with
    | some file => pure file
    | none => _ : Assembling SourceFile).run.run cache = _
  cases cache.file? name with
  | some file => rfl
  | none =>
      simp only [freshFile]
      cases setup.store.read name with
      | error error => rfl
      | ok data =>
          simp only
          cases SourceFile.parseBytes name data <;> rfl

theorem run_loadAsset (setup : Setup) (name : String) (cache : Cache) :
    (setup.loadAsset name).run.run cache =
      match cache.asset? name with
      | some asset => (.ok asset, cache)
      | none =>
          match setup.freshAsset name with
          | .ok asset => (.ok asset, cache.insertAsset name asset)
          | .error error => (.error error, cache) := by
  rw [loadAsset, Assembling.run_bind]
  change (match cache.asset? name with
    | some asset => pure asset
    | none => _ : Assembling Asset).run.run cache = _
  cases cache.asset? name with
  | some asset => rfl
  | none =>
      simp only [freshAsset]
      cases setup.store.read name <;> rfl

end Setup

namespace Cache

theorem file?_insertFile (cache : Cache) (name other : String) (file : SourceFile) :
    (cache.insertFile name file).file? other =
      if cache.enabled ∧ name = other then some file else cache.file? other := by
  cases enabled : cache.enabled with
  | false => simp [insertFile, file?, enabled]
  | true => simp [insertFile, file?, enabled, Table.get?_put]

theorem asset?_insertAsset (cache : Cache) (name other : String) (asset : Asset) :
    (cache.insertAsset name asset).asset? other =
      if cache.enabled ∧ name = other then some asset else cache.asset? other := by
  cases enabled : cache.enabled with
  | false => simp [insertAsset, asset?, enabled]
  | true => simp [insertAsset, asset?, enabled, Table.get?_put]

@[simp]
theorem asset?_insertFile (cache : Cache) (name other : String) (file : SourceFile) :
    (cache.insertFile name file).asset? other = cache.asset? other := by
  rw [insertFile]
  split <;> rfl

@[simp]
theorem file?_insertAsset (cache : Cache) (name other : String) (asset : Asset) :
    (cache.insertAsset name asset).file? other = cache.file? other := by
  rw [insertAsset]
  split <;> rfl

@[simp]
theorem page?_insertFile (cache : Cache) (name key : String) (file : SourceFile) :
    (cache.insertFile name file).page? key = cache.page? key := by
  rw [insertFile]
  split <;> rfl

@[simp]
theorem page?_insertAsset (cache : Cache) (name key : String) (asset : Asset) :
    (cache.insertAsset name asset).page? key = cache.page? key := by
  rw [insertAsset]
  split <;> rfl

theorem page?_insertPage (cache : Cache) (key other : String) (page : Page) :
    (cache.insertPage key page).page? other =
      if cache.enabled ∧ key = other then some page else cache.page? other := by
  cases enabled : cache.enabled with
  | false => simp [insertPage, page?, enabled]
  | true => simp [insertPage, page?, enabled, Table.get?_put]

/-- What the cache has of files and assets is what a fresh read gives. -/
structure Faithful (setup : Setup) (cache : Cache) : Prop where
  files : ∀ {name file}, cache.file? name = some file → setup.freshFile name = .ok file
  assets : ∀ {name asset}, cache.asset? name = some asset → setup.freshAsset name = .ok asset

theorem faithful_of_disabled {setup : Setup} {cache : Cache} (disabled : cache.enabled = false) :
    cache.Faithful setup := by
  constructor
  · intro name file stored
    simp [file?, disabled] at stored
  · intro name asset stored
    simp [asset?, disabled] at stored

theorem faithful_empty (setup : Setup) (enabled : Bool) : (empty enabled).Faithful setup := by
  constructor
  · intro name file stored
    cases enabled <;> cases stored
  · intro name asset stored
    cases enabled <;> cases stored

structure Reads (setup : Setup) (readFile : String → Except LookupError SourceFile)
    (readAsset : String → Except LookupError Asset) (cache : Cache) : Prop where
  files : ∀ name, setup.knownFile cache name = readFile name
  assets : ∀ name, setup.knownAsset cache name = readAsset name

theorem faithful_iff {setup : Setup} {cache : Cache} :
    cache.Faithful setup ↔ cache.Reads setup setup.freshFile setup.freshAsset := by
  constructor
  · intro faithful
    constructor
    · intro name
      rw [Setup.knownFile]
      cases stored : cache.file? name with
      | none => rfl
      | some file => exact (faithful.files stored).symm
    · intro name
      rw [Setup.knownAsset]
      cases stored : cache.asset? name with
      | none => rfl
      | some asset => exact (faithful.assets stored).symm
  · intro reads
    constructor
    · intro name file stored
      rw [← reads.files, Setup.knownFile, stored]
    · intro name asset stored
      rw [← reads.assets, Setup.knownAsset, stored]

section

variable {setup : Setup} {cache : Cache} {name : String}

theorem knownFile_insertFile {file : SourceFile} (known : setup.knownFile cache name = .ok file) :
    setup.knownFile (cache.insertFile name file) = setup.knownFile cache := by
  funext other
  rw [Setup.knownFile, file?_insertFile]
  by_cases same : cache.enabled = true ∧ name = other
  · rw [if_pos same, ← same.2, known]
  · rw [if_neg same, Setup.knownFile]

theorem knownAsset_insertAsset {asset : Asset} (known : setup.knownAsset cache name = .ok asset) :
    setup.knownAsset (cache.insertAsset name asset) = setup.knownAsset cache := by
  funext other
  rw [Setup.knownAsset, asset?_insertAsset]
  by_cases same : cache.enabled = true ∧ name = other
  · rw [if_pos same, ← same.2, known]
  · rw [if_neg same, Setup.knownAsset]

theorem knownAsset_insertFile (file : SourceFile) :
    setup.knownAsset (cache.insertFile name file) = setup.knownAsset cache := by
  funext other
  rw [Setup.knownAsset, asset?_insertFile, Setup.knownAsset]

theorem knownFile_insertAsset (asset : Asset) :
    setup.knownFile (cache.insertAsset name asset) = setup.knownFile cache := by
  funext other
  rw [Setup.knownFile, file?_insertAsset, Setup.knownFile]

end

end Cache

namespace Setup

open Assembling

section

variable (setup : Setup) {readFile : String → Except LookupError SourceFile}
  {readAsset : String → Except LookupError Asset}

theorem loadFile_reads (name : String) :
    Ensures (Cache.Reads setup readFile readAsset) (setup.loadFile name) (· = readFile name) := by
  intro cache reads
  have known := reads.files name
  rw [run_loadFile]
  rw [knownFile] at known
  cases stored : cache.file? name with
  | some file =>
      rw [stored] at known
      exact ⟨known, reads⟩
  | none =>
      simp only [stored] at known ⊢
      cases fresh : setup.freshFile name with
      | error error => exact ⟨fresh.symm.trans known, reads⟩
      | ok file =>
          have kept : setup.knownFile cache name = .ok file := by
            rw [knownFile, stored, fresh]
          refine ⟨fresh.symm.trans known, ?_, ?_⟩
          · rw [Cache.knownFile_insertFile kept]
            exact reads.files
          · rw [Cache.knownAsset_insertFile]
            exact reads.assets

theorem loadAsset_reads (name : String) :
    Ensures (Cache.Reads setup readFile readAsset) (setup.loadAsset name) (· = readAsset name) := by
  intro cache reads
  have known := reads.assets name
  rw [run_loadAsset]
  rw [knownAsset] at known
  cases stored : cache.asset? name with
  | some asset =>
      rw [stored] at known
      exact ⟨known, reads⟩
  | none =>
      simp only [stored] at known ⊢
      cases fresh : setup.freshAsset name with
      | error error => exact ⟨fresh.symm.trans known, reads⟩
      | ok asset =>
          have kept : setup.knownAsset cache name = .ok asset := by
            rw [knownAsset, stored, fresh]
          refine ⟨fresh.symm.trans known, ?_, ?_⟩
          · rw [Cache.knownFile_insertAsset]
            exact reads.files
          · rw [Cache.knownAsset_insertAsset kept]
            exact reads.assets

/-- A page is assembled from what the site knows, and the site knows the same afterwards. -/
theorem assemble_reads (main : String) (includes : List String) :
    Ensures (Cache.Reads setup readFile readAsset) (setup.assemble main includes)
      (· = setup.pageFrom readFile readAsset main includes) := by
  rw [assemble, pageFrom]
  apply (ensures_mapM_eq setup.loadFile_reads _).bind
  · intro error failed
    rw [← failed]
    rfl
  · intro files read
    rw [← read]
    dsimp only [Bind.bind, Except.bind]
    cases closure [files.foldl FragmentSet.merge setup.base, setup.components] main with
    | error error => exact ensures_throw rfl
    | ok fragments =>
        apply (ensures_mapM_eq setup.loadAsset_reads _).bind
        · intro error failed
          rw [← failed]
        · intro css readCss
          rw [← readCss]
          apply (ensures_mapM_eq setup.loadAsset_reads _).bind
          · intro error failed
            rw [← failed]
          · intro js readJs
            rw [← readJs]
            exact ensures_pure rfl

end

theorem assemble_faithful (setup : Setup) (main : String) (includes : List String) :
    Ensures (Cache.Faithful setup) (setup.assemble main includes)
      (· = setup.freshPage main includes) := by
  intro cache faithful
  obtain ⟨page, reads⟩ :=
    setup.assemble_reads main includes cache (Cache.faithful_iff.mp faithful)
  exact ⟨page, Cache.faithful_iff.mpr reads⟩

theorem find?_graft (set : FragmentSet) (fragment : Fragment) (name : String) :
    (graft set fragment).find? name =
      (set.find? name).or (if fragment.name = name then some fragment else none) := by
  rw [graft]
  split
  · rename_i present
    obtain ⟨own, found⟩ := FragmentSet.contains_iff.mp present
    by_cases same : fragment.name = name
    · rw [← same, found, Option.some_or]
    · rw [if_neg same, Option.or_none]
  · rename_i absent
    rw [FragmentSet.find?_insert]
    by_cases same : fragment.name = name
    · have unknown : set.find? fragment.name = none := by
        simpa [FragmentSet.contains] using absent
      rw [if_pos same, if_pos same, ← same, unknown, Option.none_or]
    · rw [if_neg same, if_neg same, Option.or_none]

theorem find?_graft_all (set : FragmentSet) (fragments : List Fragment) (name : String) :
    (fragments.foldl graft set).find? name =
      (set.find? name).or (fragments.find? fun fragment => fragment.name = name) := by
  induction fragments generalizing set with
  | nil => rw [List.foldl_nil, List.find?_nil, Option.or_none]
  | cons fragment fragments induction =>
      rw [List.foldl_cons, induction, find?_graft, Option.or_assoc, List.find?_cons]
      by_cases same : fragment.name = name <;> simp [same]

/-- A page has the names of its files, of the base and of the closure, and each name means on the
page what it means to the search for the closure. -/
theorem find?_pageOf {setup : Setup} {main : String} {set : FragmentSet}
    {fragments : List Fragment} (css js : List Asset)
    (closed : closure [set, setup.components] main = .ok fragments) (name : String) :
    (setup.pageOf main set fragments css js).fragments.find? name =
      if set.contains name ∨ name ∈ fragments.map Fragment.name then
        Closure.find? [set, setup.components] name
      else none := by
  have named : Closure.Named (Closure.find? [set, setup.components]) := Closure.find?_named _
  have discovered : Closure.Discovered (Closure.find? [set, setup.components]) main fragments := by
    cases Closure.closure_eq_iff.mp closed with
    | complete discovered _ => exact discovered
  change (fragments.foldl graft set).find? name = _
  rw [find?_graft_all]
  -- what is listed comes either from the set, which goes first in both, or from the components
  cases own : set.find? name with
  | some fragment =>
      have present : set.contains name = true := FragmentSet.contains_iff.mpr ⟨fragment, own⟩
      simp [present, Closure.find?, own]
  | none =>
      have absent : set.contains name = false := by simp [FragmentSet.contains, own]
      by_cases listed : name ∈ fragments.map Fragment.name
      · obtain ⟨fragment, member, same⟩ := List.mem_map.mp listed
        cases found : fragments.find? fun fragment => fragment.name = name with
        | none =>
            have differs := List.find?_eq_none.mp found fragment member
            simp [same] at differs
        | some other =>
            have otherName : other.name = name := by simpa using List.find?_some found
            have look := discovered.look_eq named (List.mem_of_find?_eq_some found)
            rw [otherName] at look
            simp [listed, look]
      · have nothing : (fragments.find? fun fragment => fragment.name = name) = none := by
          rw [List.find?_eq_none]
          intro fragment member same
          exact listed (List.mem_map.mpr ⟨fragment, member, of_decide_eq_true same⟩)
        simp [absent, listed, nothing]

section

variable {wanted : Cache → Prop} (setup : Setup)
  (fileKept : ∀ cache name file, wanted cache → wanted (cache.insertFile name file))
  (assetKept : ∀ cache name asset, wanted cache → wanted (cache.insertAsset name asset))

include fileKept in
theorem loadFile_keeps (name : String) :
    Ensures wanted (setup.loadFile name) fun _ => True := by
  intro cache good
  rw [run_loadFile]
  cases cache.file? name with
  | some file => exact ⟨trivial, good⟩
  | none =>
      cases setup.freshFile name with
      | ok file => exact ⟨trivial, fileKept cache name file good⟩
      | error error => exact ⟨trivial, good⟩

include assetKept in
theorem loadAsset_keeps (name : String) :
    Ensures wanted (setup.loadAsset name) fun _ => True := by
  intro cache good
  rw [run_loadAsset]
  cases cache.asset? name with
  | some asset => exact ⟨trivial, good⟩
  | none =>
      cases setup.freshAsset name with
      | ok asset => exact ⟨trivial, assetKept cache name asset good⟩
      | error error => exact ⟨trivial, good⟩

include fileKept assetKept in
theorem assemble_pageOf (main : String) (includes : List String) :
    Ensures wanted (setup.assemble main includes) fun result =>
      ∀ page, result = .ok page → ∃ set fragments css js,
        closure [set, setup.components] main = .ok fragments ∧
          page = setup.pageOf main set fragments css js := by
  rw [assemble]
  apply (ensures_mapM_any (setup.loadFile_keeps fileKept) _).bind
  · intro error _ page succeeded
    cases succeeded
  · intro files _
    dsimp only
    cases closed : closure [files.foldl FragmentSet.merge setup.base, setup.components] main with
    | error error =>
        apply ensures_throw
        intro page succeeded
        cases succeeded
    | ok fragments =>
        apply (ensures_mapM_any (setup.loadAsset_keeps assetKept) _).bind
        · intro error _ page succeeded
          cases succeeded
        · intro css _
          apply (ensures_mapM_any (setup.loadAsset_keeps assetKept) _).bind
          · intro error _ page succeeded
            cases succeeded
          · intro js _
            apply ensures_pure
            intro page succeeded
            cases succeeded
            exact ⟨_, fragments, css, js, closed, rfl⟩

end

end Setup

namespace Engine

/-- A request that no page is kept for is answered from what the site knows of its names. -/
theorem lookup_known {engine : Engine} {main : String} {includes : List String}
    (unkept : engine.cache.page? (Cache.pageKey main includes) = none) :
    (engine.lookup main includes).1 = engine.setup.pageFrom (engine.setup.knownFile engine.cache)
      (engine.setup.knownAsset engine.cache) main includes := by
  have known : engine.cache.Reads engine.setup (engine.setup.knownFile engine.cache)
    (engine.setup.knownAsset engine.cache) := ⟨fun _ => rfl, fun _ => rfl⟩
  rw [lookup, unkept, ← (engine.setup.assemble_reads main includes engine.cache known).1]
  rcases (engine.setup.assemble main includes).run.run engine.cache with ⟨error | page, cache⟩ <;> rfl

end Engine

end PageAssembly
