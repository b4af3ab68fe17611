import PageAssembly.Proofs.Fragment.Reaching
import PageAssembly.Proofs.Page.Assembly
import PageAssembly.Proofs.Page.Caching
import PageAssembly.Proofs.Page.Completeness
import PageAssembly.Proofs.Page.Rendering
import PageAssembly.Proofs.Setup.Registration

/-!
A plugin that a page does not refer to cannot be noticed on it. What the plugin has beside what it
brings with its own fragments is nothing; so a page that reaches none of these fragments is made of
the same files, the same closure and the same contributions as without the plugin.
-/

namespace PageAssembly

/-- The name can be reached by invocations from where the page starts. -/
def Page.Reaches (page : Page) (name : String) : Prop :=
  Closure.Reachable page.fragments.find? page.main name

/-- No name of the request leads into the store of this id. -/
def PageRequest.Avoids (request : PageRequest) (marker : Marker) (id : String) : Prop :=
  ∀ name ∈ request.main :: request.includes, ¬ marker.Addresses id name

namespace Setup

theorem reaches_pageOf {setup : Setup} {main : String} {set : FragmentSet}
    {fragments : List Fragment} (css js : List Asset)
    (closed : closure [set, setup.components] main = .ok fragments) (name : String) :
    (setup.pageOf main set fragments css js).Reaches name ↔
      name ∈ fragments.map Fragment.name := by
  have named : Closure.Named (Closure.find? [set, setup.components]) := Closure.find?_named _
  have lists : Closure.Lists (Closure.find? [set, setup.components]) main fragments :=
    (Closure.closure_eq_iff.mp closed).lists named
  have onPage := find?_pageOf css js closed
  rw [lists.names, Page.Reaches]
  constructor
  · apply Relation.ReflTransGen.mono
    rintro one target ⟨fragment, found, invoked⟩
    rw [onPage] at found
    split at found
    · exact ⟨fragment, found, invoked⟩
    · cases found
  · intro reachable
    induction reachable with
    | refl => exact .refl
    | tail earlier invokes induction =>
        obtain ⟨fragment, found, invoked⟩ := invokes
        refine induction.tail ⟨fragment, ?_, invoked⟩
        rw [onPage, if_pos (Or.inr ((lists.names _).mpr earlier)), found]

theorem freshPage_eq_ok_iff {setup : Setup} {main : String} {includes : List String} {page : Page} :
    setup.freshPage main includes = .ok page ↔ ∃ files fragments css js,
      (Includes.of main includes).sources.mapM setup.freshFile = .ok files ∧
      closure [files.foldl FragmentSet.merge setup.base, setup.components] main = .ok fragments ∧
      (Includes.of main includes).css.mapM setup.freshAsset = .ok css ∧
      (Includes.of main includes).js.mapM setup.freshAsset = .ok js ∧
      page = setup.pageOf main (files.foldl FragmentSet.merge setup.base) fragments css js :=
  pageFrom_eq_ok_iff

section

variable {plugin : Plugin} {id : String} {setup other : Setup}

theorem Agrees.freshFile (agrees : setup.Agrees plugin id other) {name : String}
    (elsewhere : ¬ setup.store.marker.Addresses id name) :
    other.freshFile name = setup.freshFile name := by
  simp only [Setup.freshFile, agrees.read elsewhere]

theorem Agrees.freshAsset (agrees : setup.Agrees plugin id other) {name : String}
    (elsewhere : ¬ setup.store.marker.Addresses id name) :
    other.freshAsset name = setup.freshAsset name := by
  simp only [Setup.freshAsset, agrees.read elsewhere]

/-- The components are asked only for names that the set does not have, so the closure is the same
if the plugin has none of them. -/
theorem Agrees.closure (agrees : setup.Agrees plugin id other) {set : FragmentSet} {main : String}
    {fragments : List Fragment}
    (closed : PageAssembly.closure [set, setup.components] main = .ok fragments)
    (apart : ∀ name ∈ fragments.map Fragment.name, ¬ plugin.Declares name) :
    PageAssembly.closure [set, other.components] main = .ok fragments := by
  have named : Closure.Named (Closure.find? [set, setup.components]) := Closure.find?_named _
  have same : ∀ name, ∀ fragment ∈ fragments,
      Closure.find? [set, setup.components] name = some fragment →
        Closure.find? [set, other.components] name = some fragment := by
    intro name fragment member found
    have listed : name ∈ fragments.map Fragment.name :=
      named found ▸ List.mem_map_of_mem member
    rw [← found]
    simp only [Closure.find?, List.findSome?_cons, agrees.components name (apart name listed)]
  cases Closure.closure_eq_iff.mp closed with
  | complete discovered finished =>
      exact Closure.closure_eq_iff.mpr (.complete (discovered.mono same) finished)

theorem Agrees.pageOf (agrees : setup.Agrees plugin id other) {fragments : List Fragment}
    (apart : ∀ name ∈ fragments.map Fragment.name, ¬ plugin.Declares name) (main : String)
    (set : FragmentSet) (css js : List Asset) :
    other.pageOf main set fragments css js = setup.pageOf main set fragments css js := by
  have everyPage := agrees.contributions .everyPage trivial
  have parts : fragments.map (fun fragment => other.registry.find (.fragment fragment.name)) =
      fragments.map (fun fragment => setup.registry.find (.fragment fragment.name)) := by
    apply List.map_congr_left
    intro fragment member
    exact agrees.contributions _ (apart _ (List.mem_map_of_mem member))
  have collected : other.collect fragments = setup.collect fragments := by
    rw [collect_eq, collect_eq, everyPage, parts]
  rw [Setup.pageOf, Setup.pageOf, collected, agrees.settings]

theorem Agrees.freshPage (agrees : setup.Agrees plugin id other) {main : String}
    {includes : List String} {page : Page}
    (avoids : PageRequest.Avoids ⟨main, includes⟩ setup.store.marker id)
    (answered : setup.freshPage main includes = .ok page)
    (apart : ∀ name, page.Reaches name → ¬ plugin.Declares name) :
    other.freshPage main includes = .ok page := by
  obtain ⟨files, fragments, css, js, sources, closed, styles, scripts, rfl⟩ :=
    freshPage_eq_ok_iff.mp answered
  have unlisted : ∀ name ∈ fragments.map Fragment.name, ¬ plugin.Declares name :=
    fun name listed => apart name ((reaches_pageOf css js closed name).mpr listed)
  have included : ∀ {kind : String → Bool}, ∀ name ∈ includes.filter kind,
      ¬ setup.store.marker.Addresses id name := fun name member =>
    avoids name (List.mem_cons_of_mem _ (List.mem_of_mem_filter member))
  rw [freshPage_eq_ok_iff]
  refine ⟨files, fragments, css, js, ?_, ?_, ?_, ?_, ?_⟩
  · rw [← sources]
    apply mapM_congr
    intro name member
    rcases List.mem_cons.mp member with rfl | among
    · exact agrees.freshFile (avoids _ List.mem_cons_self)
    · exact agrees.freshFile (included name among)
  · rw [agrees.base]
    exact agrees.closure closed unlisted
  · rw [← styles]
    exact mapM_congr fun name member => agrees.freshAsset (included name member)
  · rw [← scripts]
    exact mapM_congr fun name member => agrees.freshAsset (included name member)
  · rw [agrees.base, agrees.pageOf unlisted]

end

end Setup

namespace Engine

def after (engine : Engine) (requests : List PageRequest) : Engine :=
  requests.foldl (fun engine request => (engine.lookup request.main request.includes).2) engine

theorem after_mirrors {engine : Engine} {requests : List PageRequest}
    (distinct : DistinctKeys requests) {asked : List PageRequest}
    (among : ∀ request ∈ asked, request ∈ requests)
    (mirrors : engine.cache.Mirrors engine.setup requests) :
    (engine.after asked).setup = engine.setup ∧
      (engine.after asked).cache.Mirrors engine.setup requests := by
  induction asked generalizing engine with
  | nil => exact ⟨rfl, mirrors⟩
  | cons request asked induction =>
      obtain ⟨_, site, left⟩ := lookup_mirrors distinct mirrors (among request List.mem_cons_self)
      rw [← site] at left ⊢
      exact induction (fun other member => among other (List.mem_cons_of_mem _ member)) left

end Engine

namespace Setup

/-- Whatever a site has answered before, a request is answered as if it were the first. -/
theorem lookup_after (setup : Setup) {asked : List PageRequest} {request : PageRequest}
    (distinct : DistinctKeys (request :: asked)) :
    ((setup.engine.after asked).lookup request.main request.includes).1 = setup.fresh request := by
  have empty : setup.engine.cache.Mirrors setup.engine.setup (request :: asked) :=
    Cache.mirrors_empty setup _ _
  obtain ⟨site, mirrors⟩ :=
    Engine.after_mirrors distinct (fun _ member => List.mem_cons_of_mem _ member) empty
  rw [← site] at mirrors
  obtain ⟨answer, _⟩ := Engine.lookup_mirrors distinct mirrors List.mem_cons_self
  rw [answer, site]
  rfl

/-- A plugin that has something only for its own fragments can be registered at any place beside the
others of a site. A page that reaches none of its fragments is then the same page, whatever the two
sites have answered before, and nothing that can be seen of its renderings differs. -/
theorem unreferenced_plugin_invisible {main : Store} {settings : Settings}
    {calls more : List SetupStep} {setup : Setup} {id : String} {plugin : Plugin}
    {checked : CheckedPlugin} (built : (start main settings).build calls = .ok setup)
    (valid : plugin.check settings.marker id = .ok checked) (confined : plugin.Confined)
    (adds : Adds (id, plugin) calls more)
    (unread : ∀ call ∈ calls, call.Avoids settings.marker id) :
    ∃ other, (start main settings).build more = .ok other ∧
      ∀ asked askedOther request page,
        DistinctKeys (request :: asked) → DistinctKeys (request :: askedOther) →
        request.Avoids settings.marker id →
        ((setup.engine.after asked).lookup request.main request.includes).1 = .ok page →
        (∀ name, page.Reaches name → ¬ plugin.Declares name) →
        ((other.engine.after askedOther).lookup request.main request.includes).1 = .ok page ∧
        ∀ pool poolOther writer sent data options,
          (page.render pool writer sent data options).Same
            (page.render poolOther writer sent data options) := by
  obtain ⟨other, builtOther, agrees⟩ := adds.build confined valid unread built
  have marker : setup.store.marker = settings.marker := build_marker built
  refine ⟨other, builtOther, ?_⟩
  intro asked askedOther request page distinct distinctOther avoids answered apart
  rw [lookup_after setup distinct] at answered
  rw [lookup_after other distinctOther]
  exact ⟨agrees.freshPage (marker ▸ avoids) answered apart,
    fun pool poolOther => page.render_same pool poolOther⟩

def lamp : Plugin where
  name := "lamp"
  sources := [("lamp", "\x7b\x7b define \"part\" \x7d\x7db\x7b\x7b end \x7d\x7d")]
  assets := []
  hooks := []
  components := [⟨"part", [], [], [], [⟨"place", 0, fun sent => .ok (.string sent.path)⟩]⟩]
  everyPageCss := []
  everyPageJs := []
  everyPageHooks := []
  environment := []
  everyPageFragments := []

def shelf : Plugin :=
  { lamp with
    name := "shelf"
    sources := [("shelf", "\x7b\x7b define \"board\" \x7d\x7dc\x7b\x7b end \x7d\x7d")]
    assets := [("shelf.css", [0x63])]
    components := [⟨"board", ["shelf.css"], [], [], []⟩] }

theorem shelf_confined : shelf.Confined :=
  ⟨rfl, rfl, rfl, rfl, rfl⟩

theorem shelf_declares {name : String} (declares : shelf.Declares name) :
    name = "shelf" ∨ name = "board" := by
  obtain ⟨fragments, parsed, declared⟩ := declares
  have names : (shelf.fragments.map fun fragments => fragments.map Fragment.name).toOption =
      some ["shelf", "board"] := by decide +kernel
  rw [parsed] at names
  have listed : fragments.map Fragment.name = ["shelf", "board"] := Option.some.inj names
  rw [listed] at declared
  simpa using declared

def lit : Setup :=
  let files := MemoryStore.ofList
    [("main", Text.encodeString "a\x7b\x7b template \"part\" \x7d\x7d")]
  start files.toStore Settings.standard

theorem lit_served : ∃ setup page, lit.build [.plugins [("a", lamp)]] = .ok setup ∧
    (setup.engine.lookup "main" []).1 = .ok page ∧ page.fragments.names = ["main", "part"] := by
  have served : ((lit.build [.plugins [("a", lamp)]]).toOption.bind fun setup =>
      (setup.engine.lookup "main" []).1.toOption).map (fun page => page.fragments.names) =
        some ["main", "part"] := by decide +kernel
  obtain ⟨page, found, names⟩ := Option.map_eq_some_iff.mp served
  obtain ⟨setup, built, answered⟩ := Option.bind_eq_some_iff.mp found
  exact ⟨setup, page, eq_ok_of_toOption built, eq_ok_of_toOption answered, names⟩

theorem shelf_invisible : ∃ setup other page,
    lit.build [.plugins [("a", lamp)]] = .ok setup ∧
    lit.build [.plugins [("b", shelf), ("a", lamp)]] = .ok other ∧
    (setup.engine.lookup "main" []).1 = .ok page ∧
    (∀ name, page.Reaches name → ¬ shelf.Declares name) ∧
    (other.engine.lookup "main" []).1 = .ok page ∧
    ∀ pool poolOther writer sent data options,
      (page.render pool writer sent data options).Same
        (page.render poolOther writer sent data options) := by
  obtain ⟨setup, page, built, answered, names⟩ := lit_served
  have accepted : (shelf.check Settings.standard.marker "b").toOption.isSome = true := by
    decide +kernel
  obtain ⟨checked, valid⟩ := Option.isSome_iff_exists.mp accepted
  have adds : Adds ("b", shelf) [.plugins ([] ++ [("a", lamp)])]
      [.plugins ([] ++ ("b", shelf) :: [("a", lamp)])] := .among
  have unread : ∀ call ∈ [SetupStep.plugins [("a", lamp)]],
      call.Avoids Settings.standard.marker "b" := by
    intro call member name reads
    rw [List.mem_singleton.mp member] at reads
    cases reads
  have complete := (Engine.lookup_complete (Cache.holdsComplete_empty _) "main" []).1 page answered
  have apart : ∀ name, page.Reaches name → ¬ shelf.Declares name := by
    intro name reached declares
    obtain ⟨fragment, found⟩ := complete name reached
    have listed : name ∈ ["main", "part"] := names ▸ Closure.mem_names_of_get? found
    rcases shelf_declares declares with rfl | rfl <;> simp at listed
  have distinct : DistinctKeys [⟨"main", []⟩] := by
    rw [DistinctKeys]
    decide
  have avoids : PageRequest.Avoids ⟨"main", []⟩ Settings.standard.marker "b" := by
    simp only [PageRequest.Avoids, Marker.Addresses]
    decide
  obtain ⟨other, builtOther, same⟩ := unreferenced_plugin_invisible built
    (eq_ok_of_toOption valid) shelf_confined adds unread
  obtain ⟨answeredOther, rendered⟩ :=
    same [] [] ⟨"main", []⟩ page distinct distinct avoids answered apart
  exact ⟨setup, other, page, built, builtOther, answered, apart, answeredOther, rendered⟩

end Setup

end PageAssembly
