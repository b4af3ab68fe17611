import PageAssembly.Proofs.Page.Assembling

/-!
Includes in another order. Files that have no fragment name in common are merged to the same set in
any order, and all the rest of a page is made of that set and of the style sheets and scripts, each
in their order.
-/

namespace PageAssembly

/-- The same includes, the style sheets and the scripts each in the same order. -/
structure Includes.Reorders (includes reordered : List String) : Prop where
  perm : includes.Perm reordered
  css : includes.filter (IncludeKind.ofName · = .css) = reordered.filter (IncludeKind.ofName · = .css)
  js : includes.filter (IncludeKind.ofName · = .js) = reordered.filter (IncludeKind.ofName · = .js)

theorem Includes.Reorders.symm {includes reordered : List String}
    (reorders : Reorders includes reordered) : Reorders reordered includes :=
  ⟨reorders.perm.symm, reorders.css.symm, reorders.js.symm⟩

/-- Two files have no fragment name in common. -/
def SourceFile.Apart (file other : SourceFile) : Prop :=
  ∀ name ∈ file.fragments.map Fragment.name, name ∉ other.fragments.map Fragment.name

/-- Different template includes are read as files that have no fragment name in common. -/
def Includes.Independent (readFile : String → Except LookupError SourceFile)
    (includes : List String) : Prop :=
  ∀ name ∈ includes.filter (IncludeKind.ofName · = .template),
    ∀ also ∈ includes.filter (IncludeKind.ofName · = .template), name ≠ also →
      ∀ file other, readFile name = .ok file → readFile also = .ok other → file.Apart other

theorem Includes.Independent.perm {readFile : String → Except LookupError SourceFile}
    {includes reordered : List String} (independent : Independent readFile includes)
    (perm : includes.Perm reordered) : Independent readFile reordered := by
  intro name member also memberAlso
  have same := perm.filter (IncludeKind.ofName · = .template)
  exact independent name (same.mem_iff.mpr member) also (same.mem_iff.mpr memberAlso)

theorem FragmentSet.merge_comm {file other : SourceFile} (apart : file.Apart other)
    (set : FragmentSet) : (set.merge file).merge other = (set.merge other).merge file :=
  insertAll_comm apart set

namespace Setup

variable {readFile : String → Except LookupError SourceFile}
  {readAsset : String → Except LookupError Asset} {includes reordered : List String}

theorem merge_perm (independent : Includes.Independent readFile includes)
    (perm : includes.Perm reordered) {files : List SourceFile}
    (read : (includes.filter (IncludeKind.ofName · = .template)).mapM readFile = .ok files) :
    ∃ permuted,
      (reordered.filter (IncludeKind.ofName · = .template)).mapM readFile = .ok permuted ∧
      ∀ set : FragmentSet,
        files.foldl FragmentSet.merge set = permuted.foldl FragmentSet.merge set := by
  obtain ⟨permuted, readOther, same⟩ := mapM_perm (perm.filter _) read
  refine ⟨permuted, readOther, same.foldl_eq' ?_⟩
  intro file member other memberOther set
  obtain ⟨name, listed, gave⟩ := exists_of_mem_mapM read member
  obtain ⟨also, listedAlso, gaveOther⟩ := exists_of_mem_mapM read memberOther
  -- an include that is listed twice is the same file both times
  by_cases twice : name = also
  · subst twice
    rw [gave] at gaveOther
    cases gaveOther
    rfl
  · have apart := independent name listed also listedAlso twice file other gave gaveOther
    exact FragmentSet.merge_comm apart set

theorem pageFrom_reordered {setup : Setup} {main : String} {page : Page}
    (reorders : Includes.Reorders includes reordered)
    (independent : Includes.Independent readFile includes)
    (assembled : setup.pageFrom readFile readAsset main includes = .ok page) :
    setup.pageFrom readFile readAsset main reordered = .ok page := by
  obtain ⟨files, fragments, css, js, sources, closed, styles, scripts, made⟩ :=
    pageFrom_eq_ok_iff.mp assembled
  obtain ⟨first, included, given, read, rfl⟩ := mapM_cons_eq_ok_iff.mp sources
  obtain ⟨permuted, readOther, merged⟩ := merge_perm independent reorders.perm read
  have sourcesOther : (Includes.of main reordered).sources.mapM readFile = .ok (first :: permuted) :=
    mapM_cons_eq_ok_iff.mpr ⟨first, permuted, given, readOther, rfl⟩
  have stylesOther : (Includes.of main reordered).css.mapM readAsset = .ok css := by
    rw [← styles]
    exact congrArg (List.mapM readAsset) reorders.css.symm
  have scriptsOther : (Includes.of main reordered).js.mapM readAsset = .ok js := by
    rw [← scripts]
    exact congrArg (List.mapM readAsset) reorders.js.symm
  rw [List.foldl_cons, merged] at closed made
  exact pageFrom_eq_ok_iff.mpr ⟨first :: permuted, fragments, css, js, sourcesOther, closed,
    stylesOther, scriptsOther, made⟩

end Setup

namespace Engine

/-- The order of independent template includes does not matter: where one list of includes is
answered with a page, so is the other, and the page is the same in all its parts. -/
theorem lookup_reordered {engine : Engine} {main : String} {includes reordered : List String}
    (unkept : engine.cache.page? (Cache.pageKey main includes) = none)
    (unkeptOther : engine.cache.page? (Cache.pageKey main reordered) = none)
    (reorders : Includes.Reorders includes reordered)
    (independent : Includes.Independent (engine.setup.knownFile engine.cache) includes) (page : Page) :
    (engine.lookup main includes).1 = .ok page ↔ (engine.lookup main reordered).1 = .ok page := by
  rw [lookup_known unkept, lookup_known unkeptOther]
  constructor
  · exact Setup.pageFrom_reordered reorders independent
  · exact Setup.pageFrom_reordered reorders.symm (independent.perm reorders.perm)

def shelvedFiles : List SourceFile :=
  [⟨⟨"main", [.invoke default "part" none, .invoke default "board" none]⟩, []⟩,
   ⟨⟨"parts", []⟩, [⟨"part", []⟩]⟩,
   ⟨⟨"boards", []⟩, [⟨"board", [.invoke default "part" none]⟩]⟩]

/-- A site that has these files in its cache, and the assets in its store. -/
def shelved : Engine :=
  let assets := MemoryStore.ofList [("first.css", [0x61]), ("second.css", [0x62]), ("all.js", [0x63])]
  let engine := (Setup.start assets.toStore Settings.standard).engine
  { engine with cache := { engine.cache with files := shelvedFiles.map fun file => (file.name, file) } }

def shelvedIncludes : List String :=
  ["parts", "first.css", "boards", "all.js", "second.css"]

theorem shelved_independent :
    Includes.Independent (shelved.setup.knownFile shelved.cache) shelvedIncludes := by
  have templates : shelvedIncludes.filter (IncludeKind.ofName · = .template) =
      ["parts", "boards"] := by decide
  intro name member also memberAlso twice file other gave gaveOther
  rw [templates, List.mem_cons, List.mem_singleton] at member memberAlso
  rcases member with rfl | rfl <;> rcases memberAlso with rfl | rfl
  · exact absurd rfl twice
  · cases gave
    cases gaveOther
    simp [SourceFile.Apart, SourceFile.fragments]
  · cases gave
    cases gaveOther
    simp [SourceFile.Apart, SourceFile.fragments]
  · exact absurd rfl twice

theorem shelved_reordered : ∃ page, (shelved.lookup "main" shelvedIncludes).1 = .ok page ∧
    (shelved.lookup "main" ["first.css", "boards", "second.css", "parts", "all.js"]).1 =
      .ok page := by
  obtain ⟨page, answered⟩ := exists_ok_of_toBool
    (by decide +kernel : (shelved.lookup "main" shelvedIncludes).1.toBool = true)
  have reorders : Includes.Reorders shelvedIncludes
      ["first.css", "boards", "second.css", "parts", "all.js"] :=
    ⟨by decide, by decide, by decide⟩
  exact ⟨page, answered,
    (lookup_reordered rfl rfl reorders shelved_independent page).mp answered⟩

end Engine

end PageAssembly
