import PageAssembly.Config.Settings
import PageAssembly.Setup.Plugin
import PageAssembly.Store.Mounted

/-!
Setting up a site. A step that fails leaves nothing behind.
-/

namespace PageAssembly

inductive SetupError where
  | plugin (error : PluginError)
  | fragment (error : FragmentError)
  | store (error : StoreError)

def SetupError.message : SetupError → String
  | .plugin error => error.message
  | .fragment error => error.message
  | .store error => error.message

/-- The fragments of the base are on every page, those of components where they are needed. -/
structure Setup where
  settings : Settings
  store : MountedStore
  base : FragmentSet
  components : FragmentSet
  registry : Registry

namespace Setup

def start (main : Store) (settings : Settings) : Setup :=
  ⟨settings, MountedStore.ofMain main settings.marker, .empty, .empty, .empty⟩

def mount (setup : Setup) (name : String) (store : Store) : Setup :=
  { setup with store := setup.store.mount name store }

def read (setup : Setup) (name : String) : Except SetupError Bytes :=
  match setup.store.read name with
  | .ok data => .ok data
  | .error error => .error (.store error)

def readAsset (setup : Setup) (name : String) : Except SetupError Asset := do
  let data ← setup.read name
  .ok (Asset.ofData name data)

def readSource (setup : Setup) (name : String) : Except SetupError SourceFile := do
  let data ← setup.read name
  match SourceFile.parseBytes name data with
  | .ok file => .ok file
  | .error error => .error (.fragment error)

def contribute (setup : Setup) (contributions : List Contributions) : Setup :=
  { setup with
    registry := contributions.foldl (fun registry one => registry.add .everyPage one)
      setup.registry }

def everyPageCss (setup : Setup) (names : List String) : Except SetupError Setup := do
  let assets ← names.mapM setup.readAsset
  .ok (setup.contribute (assets.map .ofCss))

def everyPageJs (setup : Setup) (names : List String) : Except SetupError Setup := do
  let assets ← names.mapM setup.readAsset
  .ok (setup.contribute (assets.map .ofJs))

def everyPageSources (setup : Setup) (names : List String) : Except SetupError Setup := do
  let files ← names.mapM setup.readSource
  .ok { setup with base := files.foldl FragmentSet.merge setup.base }

def everyPageHooks (setup : Setup) (hooks : List Hook) : Setup :=
  setup.contribute (hooks.map .ofHook)

def everyPageEnvironment (setup : Setup) (functions : List EnvironmentFunction) : Setup :=
  setup.contribute (functions.map .ofEnvironment)

def install (setup : Setup) (plugin : CheckedPlugin) : Setup :=
  { setup with
    store := setup.store.mount plugin.id plugin.store.toStore
    components := setup.components.insertAll plugin.fragments
    base := setup.base.insertAll plugin.everyPageFragments
    registry := setup.registry.extend plugin.registry }

/-- Registers plugins, each under an id of its own. All are checked before one is installed. -/
def plugins (setup : Setup) (plugins : List (String × Plugin)) : Except SetupError Setup := do
  let checked ← plugins.mapM fun (id, plugin) =>
    match plugin.check setup.store.marker id with
    | .ok checked => .ok checked
    | .error error => .error (.plugin error)
  .ok (checked.foldl install setup)

end Setup

end PageAssembly
