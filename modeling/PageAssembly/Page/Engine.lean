import PageAssembly.Fragment.Closure
import PageAssembly.Page.Cache
import PageAssembly.Page.Pool
import PageAssembly.Setup.Builder

/-!
Assembling pages. A page has a main source and includes; sources are merged, the closure of the main
fragment brings in what plugins have, and contributions are collected in the order of the closure.
-/

namespace PageAssembly

inductive LookupError where
  | store (error : StoreError)
  | fragment (error : FragmentError)
  | closure (error : ClosureError)

def LookupError.message : LookupError → String
  | .store error => error.message
  | .fragment error => error.message
  | .closure error => error.message

structure Engine where
  setup : Setup
  cache : Cache
  pool : Pool

def addNew {α : Type} (same : α → α → Bool) (kept items : List α) : List α :=
  items.foldl (fun kept item => if kept.any (same item) then kept else kept ++ [item]) kept

/-- Assets are the same by content, functions by identity. -/
def Contributions.addNew (kept more : Contributions) : Contributions :=
  ⟨PageAssembly.addNew Asset.same kept.css more.css,
   PageAssembly.addNew Asset.same kept.js more.js,
   PageAssembly.addNew (fun one other => one.identity == other.identity) kept.hooks more.hooks,
   PageAssembly.addNew (fun one other => one.identity == other.identity) kept.environment
     more.environment⟩

def Setup.engine (setup : Setup) : Engine :=
  ⟨setup, .empty setup.settings.cache, .ofSize setup.settings.poolSize⟩

/-- The names of a request by kind, each kind in order. The main name is always a source. -/
structure Includes where
  sources : List String
  css : List String
  js : List String
deriving DecidableEq

def Includes.of (main : String) (includes : List String) : Includes :=
  ⟨main :: includes.filter (IncludeKind.ofName · = .template),
   includes.filter (IncludeKind.ofName · = .css),
   includes.filter (IncludeKind.ofName · = .js)⟩

/-- Steps that can use and fill the cache; what they put there stays when they fail. -/
abbrev Assembling := ExceptT LookupError (StateM Cache)

namespace Setup

def loadFile (setup : Setup) (name : String) : Assembling SourceFile := do
  match (← get).file? name with
  | some file => pure file
  | none =>
      match setup.store.read name with
      | .error error => throw (.store error)
      | .ok data =>
          match SourceFile.parseBytes name data with
          | .error error => throw (.fragment error)
          | .ok file =>
              modify fun cache => cache.insertFile name file
              pure file

def loadAsset (setup : Setup) (name : String) : Assembling Asset := do
  match (← get).asset? name with
  | some asset => pure asset
  | none =>
      match setup.store.read name with
      | .error error => throw (.store error)
      | .ok data =>
          let asset := Asset.ofData name data
          modify fun cache => cache.insertAsset name asset
          pure asset

/-- Fragments of the closure that the page lacks are added to it. -/
def graft (set : FragmentSet) (fragment : Fragment) : FragmentSet :=
  if set.contains fragment.name then set else set.insert fragment

/-- What goes to every page comes first, then what comes with each fragment. -/
def collect (setup : Setup) (fragments : List Fragment) : Contributions :=
  fragments.foldl (fun kept fragment =>
      kept.addNew (setup.registry.find (.fragment fragment.name)))
    (Contributions.none.addNew (setup.registry.find .everyPage))

def assemble (setup : Setup) (main : String) (includes : List String) : Assembling Page := do
  let names := Includes.of main includes
  let files ← names.sources.mapM setup.loadFile
  let set := files.foldl FragmentSet.merge setup.base
  match closure [set, setup.components] main with
  | .error error => throw (.closure error)
  | .ok fragments =>
      let css ← names.css.mapM setup.loadAsset
      let js ← names.js.mapM setup.loadAsset
      let collected := (setup.collect fragments).addNew { Contributions.none with css, js }
      pure {
        main
        fragments := fragments.foldl graft set
        css := collected.css
        js := collected.js
        hooks := collected.hooks
        environment := collected.environment
        inline := setup.settings.inline
        place := setup.settings.place
      }

end Setup

namespace Engine

def settings (engine : Engine) : Settings :=
  engine.setup.settings

def read (engine : Engine) (name : String) : Except StoreError Bytes :=
  engine.setup.store.read name

def lookup (engine : Engine) (main : String) (includes : List String) :
    Except LookupError Page × Engine :=
  let key := Cache.pageKey main includes
  match engine.cache.page? key with
  | some page => (.ok page, engine)
  | none =>
      match (engine.setup.assemble main includes).run.run engine.cache with
      | (.ok page, cache) => (.ok page, { engine with cache := cache.insertPage key page })
      | (.error error, cache) => (.error error, { engine with cache := cache })

end Engine

end PageAssembly
