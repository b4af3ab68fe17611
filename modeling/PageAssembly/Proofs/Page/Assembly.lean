import Mathlib.Data.List.Forall2
import PageAssembly.Proofs.Page.Assembling

/-!
What an assembled page is, and at which step a request fails, said without the steps themselves: the
files are read in order, the closure is that of the fragments in layers, and each list of the page
keeps the first occurrences in one long list of contributions.
-/

namespace PageAssembly

section

variable {α : Type} {read : String → Except LookupError α} {names : List String}

/-- All names can be read, and these are their contents. -/
def ReadAll (read : String → Except LookupError α) (names : List String) (items : List α) : Prop :=
  List.Forall₂ (fun name item => read name = .ok item) names items

/-- The first name that cannot be read gives this error. -/
def FirstFailure (read : String → Except LookupError α) (names : List String)
    (error : LookupError) : Prop :=
  ∃ before name after, names = before ++ name :: after ∧
    (∀ earlier ∈ before, ∃ item, read earlier = .ok item) ∧ read name = .error error

theorem mapM_cons_eq (name : String) (names : List String) :
    (name :: names).mapM read =
      match read name with
      | .error error => .error error
      | .ok item => (names.mapM read).map (item :: ·) := by
  rw [List.mapM_cons]
  cases read name with
  | error error => rfl
  | ok item => cases names.mapM read <;> rfl

theorem mapM_eq_ok_iff {items : List α} : names.mapM read = .ok items ↔ ReadAll read names items := by
  induction names generalizing items with
  | nil =>
      rw [ReadAll, List.forall₂_nil_left_iff]
      exact ⟨fun same => (Except.ok.inj same).symm, fun same => same ▸ rfl⟩
  | cons name names induction =>
      rw [mapM_cons_eq_ok_iff, ReadAll, List.forall₂_cons_left_iff]
      constructor
      · rintro ⟨item, later, first, rest, rfl⟩
        exact ⟨item, later, first, induction.mp rest, rfl⟩
      · rintro ⟨item, later, first, rest, rfl⟩
        exact ⟨item, later, first, induction.mpr rest, rfl⟩

theorem mapM_eq_error_iff {error : LookupError} :
    names.mapM read = .error error ↔ FirstFailure read names error := by
  induction names with
  | nil =>
      constructor
      · intro failed
        cases failed
      · rintro ⟨before, name, after, split, _, _⟩
        exact absurd split.symm (by simp)
  | cons name names induction =>
      rw [mapM_cons_eq]
      constructor
      · intro whole
        cases first : read name with
        | error other =>
            rw [first] at whole
            cases whole
            exact ⟨[], name, names, rfl, by simp, first⟩
        | ok item =>
            rw [first] at whole
            cases rest : names.mapM read with
            | ok later =>
                rw [rest] at whole
                cases whole
            | error other =>
                rw [rest] at whole
                cases whole
                obtain ⟨before, failing, after, rfl, readable, failed⟩ := induction.mp rest
                refine ⟨name :: before, failing, after, rfl, ?_, failed⟩
                intro earlier member
                rcases List.mem_cons.mp member with rfl | later
                · exact ⟨item, first⟩
                · exact readable earlier later
      · rintro ⟨before, failing, after, split, readable, failed⟩
        rcases List.cons_eq_append_iff.mp split with ⟨rfl, same⟩ | ⟨before, rfl, rfl⟩
        · cases same
          rw [failed]
        · obtain ⟨item, first⟩ := readable name List.mem_cons_self
          have rest := induction.mpr ⟨before, failing, after, rfl,
            fun earlier member => readable earlier (List.mem_cons_of_mem _ member), failed⟩
          rw [first, rest]
          rfl

end

section

variable {α : Type} (same : α → α → Bool)

theorem addNew_append (kept items more : List α) :
    addNew same kept (items ++ more) = addNew same (addNew same kept items) more :=
  List.foldl_append

theorem addNew_eq_loop (kept items : List α) :
    addNew same kept items = List.eraseDupsBy.loop same items kept.reverse := by
  -- the loop of the library keeps the items in reverse
  induction items generalizing kept with
  | nil => exact (List.reverse_reverse kept).symm
  | cons item items induction =>
      rw [List.eraseDupsBy.loop, List.any_reverse]
      change addNew same (if kept.any (same item) then kept else kept ++ [item]) items = _
      rw [induction]
      cases kept.any (same item) with
      | true => rfl
      | false => simp

theorem addNew_nil (items : List α) : addNew same [] items = items.eraseDupsBy same :=
  addNew_eq_loop same [] items

end

namespace Contributions

theorem addNew_append (kept items more : Contributions) :
    kept.addNew (items.append more) = (kept.addNew items).addNew more := by
  simp only [addNew, append, PageAssembly.addNew_append]

theorem part_foldl_append {α : Type} (part : Contributions → List α)
    (appends : ∀ earlier later, part (earlier.append later) = part earlier ++ part later)
    (first : Contributions) (items : List Contributions) :
    part (items.foldl append first) = part first ++ items.flatMap part := by
  induction items generalizing first with
  | nil => simp
  | cons item items induction =>
      rw [List.foldl_cons, induction, appends, List.flatMap_cons, List.append_assoc]

end Contributions

namespace Setup

/-- All that goes with a page: what goes with every page, then with each fragment, and last what the
request includes. -/
def contributed (setup : Setup) (fragments : List Fragment) (css js : List Asset) :
    Contributions :=
  ((fragments.map fun fragment => setup.registry.find (.fragment fragment.name)).foldl
    Contributions.append (setup.registry.find .everyPage)).append
      { Contributions.none with css, js }

theorem collect_eq (setup : Setup) (fragments : List Fragment) :
    setup.collect fragments = Contributions.none.addNew
      ((fragments.map fun fragment => setup.registry.find (.fragment fragment.name)).foldl
        Contributions.append (setup.registry.find .everyPage)) := by
  rw [collect]
  generalize setup.registry.find .everyPage = first
  induction fragments generalizing first with
  | nil => rfl
  | cons fragment fragments induction =>
      rw [List.foldl_cons, ← Contributions.addNew_append, induction]
      rfl

theorem collect_addNew (setup : Setup) (fragments : List Fragment) (css js : List Asset) :
    (setup.collect fragments).addNew { Contributions.none with css, js } =
      Contributions.none.addNew (setup.contributed fragments css js) := by
  rw [collect_eq, contributed, Contributions.addNew_append]

theorem part_contributed {α : Type} (part : Contributions → List α)
    (appends : ∀ earlier later, part (earlier.append later) = part earlier ++ part later)
    (setup : Setup) (fragments : List Fragment) (css js : List Asset) :
    part (setup.contributed fragments css js) =
      part (setup.registry.find .everyPage) ++
        fragments.flatMap (fun fragment => part (setup.registry.find (.fragment fragment.name))) ++
        part { Contributions.none with css, js } := by
  rw [contributed, appends, Contributions.part_foldl_append part appends, List.flatMap_map]

/-- The fragment of a name among the page's own: the last of the files, or else that of the base. -/
def ownFragment? (setup : Setup) (files : List SourceFile) (name : String) : Option Fragment :=
  (lastNamed? (files.flatMap SourceFile.fragments) name).or (setup.base.find? name)

/-- A component has a say where the page has no fragment of its own. -/
def layeredFragment? (setup : Setup) (files : List SourceFile) (name : String) : Option Fragment :=
  (setup.ownFragment? files name).or (setup.components.find? name)

def includesOf (kind : IncludeKind) (includes : List String) : List String :=
  includes.filter (IncludeKind.ofName · = kind)

/-- The error of the first step that fails: reading the main file and the included ones, finding the
closure, reading style sheets, reading scripts. -/
inductive Fails (setup : Setup) (main : String) (includes : List String) : LookupError → Prop where
  | source {error : LookupError}
      (unread : FirstFailure setup.freshFile (main :: includesOf .template includes) error) :
      Fails setup main includes error
  | closure {files : List SourceFile} {error : ClosureError}
      (sources : ReadAll setup.freshFile (main :: includesOf .template includes) files)
      (unclosed : Closure.Concludes (setup.layeredFragment? files) main (.error error)) :
      Fails setup main includes (.closure error)
  | css {files : List SourceFile} {fragments : List Fragment} {error : LookupError}
      (sources : ReadAll setup.freshFile (main :: includesOf .template includes) files)
      (closed : Closure.Concludes (setup.layeredFragment? files) main (.ok fragments))
      (unread : FirstFailure setup.freshAsset (includesOf .css includes) error) :
      Fails setup main includes error
  | js {files : List SourceFile} {fragments : List Fragment} {css : List Asset}
      {error : LookupError}
      (sources : ReadAll setup.freshFile (main :: includesOf .template includes) files)
      (closed : Closure.Concludes (setup.layeredFragment? files) main (.ok fragments))
      (styles : ReadAll setup.freshAsset (includesOf .css includes) css)
      (unread : FirstFailure setup.freshAsset (includesOf .js includes) error) :
      Fails setup main includes error

/-- The page of these files, of the fragments of their closure and of these included assets. -/
structure Describes (setup : Setup) (main : String) (files : List SourceFile)
    (fragments : List Fragment) (css js : List Asset) (page : Page) : Prop where
  main_eq : page.main = main
  fragments_eq : ∀ name, page.fragments.find? name =
    if (setup.ownFragment? files name).isSome ∨ name ∈ fragments.map Fragment.name then
      setup.layeredFragment? files name
    else none
  css_eq : page.css = ((setup.registry.find .everyPage).css ++
    fragments.flatMap (fun fragment => (setup.registry.find (.fragment fragment.name)).css) ++
    css).eraseDupsBy fun one other => one.digest = other.digest
  js_eq : page.js = ((setup.registry.find .everyPage).js ++
    fragments.flatMap (fun fragment => (setup.registry.find (.fragment fragment.name)).js) ++
    js).eraseDupsBy fun one other => one.digest = other.digest
  hooks_eq : page.hooks = ((setup.registry.find .everyPage).hooks ++
    fragments.flatMap (fun fragment =>
      (setup.registry.find (.fragment fragment.name)).hooks)).eraseDupsBy
        fun one other => one.identity == other.identity
  environment_eq : page.environment = ((setup.registry.find .everyPage).environment ++
    fragments.flatMap (fun fragment =>
      (setup.registry.find (.fragment fragment.name)).environment)).eraseDupsBy
        fun one other => one.identity == other.identity
  inline_eq : page.inline = setup.settings.inline
  place_eq : page.place = setup.settings.place

/-- A page that a request can be answered with: every step succeeds and the page is what they come
to. -/
def Assembles (setup : Setup) (main : String) (includes : List String) (page : Page) : Prop :=
  ∃ files fragments css js,
    ReadAll setup.freshFile (main :: includesOf .template includes) files ∧
    Closure.Concludes (setup.layeredFragment? files) main (.ok fragments) ∧
    ReadAll setup.freshAsset (includesOf .css includes) css ∧
    ReadAll setup.freshAsset (includesOf .js includes) js ∧
    setup.Describes main files fragments css js page

theorem includes_of (main : String) (includes : List String) :
    Includes.of main includes =
      ⟨main :: includesOf .template includes, includesOf .css includes, includesOf .js includes⟩ :=
  rfl

theorem layers_eq (setup : Setup) (files : List SourceFile) :
    Closure.find? [files.foldl FragmentSet.merge setup.base, setup.components] =
      setup.layeredFragment? files := by
  funext name
  rw [layeredFragment?, ownFragment?, ← FragmentSet.find?_insertAll, ← FragmentSet.merge_all]
  simp only [Closure.find?, List.findSome?_cons, List.findSome?_nil]
  cases (files.foldl FragmentSet.merge setup.base).find? name with
  | some fragment => rfl
  | none =>
      rw [Option.none_or]
      cases setup.components.find? name <;> rfl

theorem closure_layers_iff {setup : Setup} {files : List SourceFile} {main : String}
    {result : Except ClosureError (List Fragment)} :
    closure [files.foldl FragmentSet.merge setup.base, setup.components] main = result ↔
      Closure.Concludes (setup.layeredFragment? files) main result := by
  rw [← layers_eq]
  exact Closure.closure_eq_iff

theorem pageOf_describes {setup : Setup} {main : String} {files : List SourceFile}
    {fragments : List Fragment} (css js : List Asset)
    (closed : Closure.Concludes (setup.layeredFragment? files) main (.ok fragments)) :
    setup.Describes main files fragments css js
      (setup.pageOf main (files.foldl FragmentSet.merge setup.base) fragments css js) := by
  have parts := collect_addNew setup fragments css js
  constructor
  · rfl
  · intro name
    rw [find?_pageOf css js (closure_layers_iff.mpr closed), layers_eq, FragmentSet.contains,
      FragmentSet.merge_all, FragmentSet.find?_insertAll]
    rfl
  · rw [pageOf, parts, ← part_contributed Contributions.css (fun _ _ => rfl) setup fragments css js]
    exact addNew_nil Asset.same _
  · rw [pageOf, parts, ← part_contributed Contributions.js (fun _ _ => rfl) setup fragments css js]
    exact addNew_nil Asset.same _
  · have hooks := part_contributed Contributions.hooks (fun _ _ => rfl) setup fragments css js
    rw [Contributions.none, List.append_nil] at hooks
    rw [pageOf, parts, ← hooks]
    exact addNew_nil _ _
  · have functions :=
      part_contributed Contributions.environment (fun _ _ => rfl) setup fragments css js
    rw [Contributions.none, List.append_nil] at functions
    rw [pageOf, parts, ← functions]
    exact addNew_nil _ _
  · rfl
  · rfl

/-- How assembling ends: with the error of the first step that fails, or with the page that the
steps come to. -/
theorem freshPage_spec (setup : Setup) (main : String) (includes : List String) :
    match setup.freshPage main includes with
    | .error error => setup.Fails main includes error
    | .ok page => setup.Assembles main includes page := by
  simp only [freshPage, pageFrom, includes_of, Bind.bind, Except.bind]
  cases sources : (main :: includesOf .template includes).mapM setup.freshFile with
  | error error => exact .source (mapM_eq_error_iff.mp sources)
  | ok files =>
      have read := mapM_eq_ok_iff.mp sources
      dsimp only
      cases closed : closure [files.foldl FragmentSet.merge setup.base, setup.components] main with
      | error error => exact .closure read (closure_layers_iff.mp closed)
      | ok fragments =>
          have concluded := closure_layers_iff.mp closed
          dsimp only
          cases styles : (includesOf .css includes).mapM setup.freshAsset with
          | error error => exact .css read concluded (mapM_eq_error_iff.mp styles)
          | ok css =>
              have readCss := mapM_eq_ok_iff.mp styles
              dsimp only
              cases scripts : (includesOf .js includes).mapM setup.freshAsset with
              | error error => exact .js read concluded readCss (mapM_eq_error_iff.mp scripts)
              | ok js =>
                  exact ⟨files, fragments, css, js, read, concluded, readCss,
                    mapM_eq_ok_iff.mp scripts, pageOf_describes css js concluded⟩

theorem Fails.freshPage_eq {setup : Setup} {main : String} {includes : List String}
    {error : LookupError} (fails : setup.Fails main includes error) :
    setup.freshPage main includes = .error error := by
  simp only [freshPage, pageFrom, includes_of, Bind.bind, Except.bind]
  cases fails with
  | source unread => rw [mapM_eq_error_iff.mpr unread]
  | closure sources unclosed =>
      rw [mapM_eq_ok_iff.mpr sources]
      simp only [closure_layers_iff.mpr unclosed]
  | css sources closed unread =>
      rw [mapM_eq_ok_iff.mpr sources]
      simp only [closure_layers_iff.mpr closed, mapM_eq_error_iff.mpr unread]
  | js sources closed styles unread =>
      rw [mapM_eq_ok_iff.mpr sources]
      simp only [closure_layers_iff.mpr closed, mapM_eq_ok_iff.mpr styles,
        mapM_eq_error_iff.mpr unread]

end Setup

namespace Engine

theorem lookup_fresh {engine : Engine} {main : String} {includes : List String}
    (faithful : engine.cache.Faithful engine.setup)
    (unkept : engine.cache.page? (Cache.pageKey main includes) = none) :
    (engine.lookup main includes).1 = engine.setup.freshPage main includes := by
  have reads := Cache.faithful_iff.mp faithful
  rw [lookup_known unkept, funext reads.files, funext reads.assets]
  rfl

/-- With a cache that is empty or turned off, a request fails with the error of the first step that
fails, and a request of which no step fails is answered with the page that is specified. -/
theorem lookup_assembles {engine : Engine}
    (uncached : engine.cache.enabled = false ∨ engine.cache = .empty true) (main : String)
    (includes : List String) :
    (∀ error, (engine.lookup main includes).1 = .error error ↔
      engine.setup.Fails main includes error) ∧
    ((∀ error, ¬ engine.setup.Fails main includes error) →
      ∃ page, (engine.lookup main includes).1 = .ok page ∧
        engine.setup.Assembles main includes page) := by
  have fresh : (engine.lookup main includes).1 = engine.setup.freshPage main includes := by
    rcases uncached with disabled | empty
    · exact lookup_fresh (Cache.faithful_of_disabled disabled) (by simp [Cache.page?, disabled])
    · apply lookup_fresh
      · rw [empty]
        exact Cache.faithful_empty engine.setup true
      · rw [empty]
        rfl
  have ends := engine.setup.freshPage_spec main includes
  rw [fresh]
  constructor
  · intro error
    constructor
    · intro failed
      rw [failed] at ends
      exact ends
    · exact Setup.Fails.freshPage_eq
  · intro nothing
    cases assembled : engine.setup.freshPage main includes with
    | error error =>
        rw [assembled] at ends
        exact absurd ends (nothing error)
    | ok page =>
        rw [assembled] at ends
        exact ⟨page, rfl, ends⟩

/-- A site where an included file can take the place of the only component. -/
def overriding : Setup :=
  let files := MemoryStore.ofList
    [("main", Text.encodeString "a\x7b\x7b template \"part\" \x7d\x7d"),
      ("extra", Text.encodeString "\x7b\x7b define \"part\" \x7d\x7db\x7b\x7b end \x7d\x7d")]
  let part : Fragment := ⟨"part", [.text ⟨0, 0⟩ "c"]⟩
  { Setup.start files.toStore Settings.standard with components := FragmentSet.empty.insert part }

theorem overriding_assembles :
    ∃ page, (overriding.engine.lookup "main" ["extra"]).1 = .ok page ∧
      overriding.Assembles "main" ["extra"] page := by
  have specified := lookup_assembles (Or.inr (rfl : overriding.engine.cache = .empty true)) "main"
    ["extra"]
  obtain ⟨page, answered⟩ := exists_ok_of_toBool
    (by decide +kernel : (overriding.engine.lookup "main" ["extra"]).1.toBool = true)
  apply specified.2
  intro error fails
  rw [(specified.1 error).mpr fails] at answered
  cases answered

end Engine

end PageAssembly
