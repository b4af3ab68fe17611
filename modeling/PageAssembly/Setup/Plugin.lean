import PageAssembly.Fragment.Collection
import PageAssembly.Setup.Contribution
import PageAssembly.Store.Marker
import PageAssembly.Store.Memory

/-!
A plugin brings fragments, assets, hooks and environment functions. Names in a plugin mean its own
parts; a plugin that names a part it does not have cannot be registered.
-/

namespace PageAssembly

/-- What comes with a fragment of a plugin, by the names that the plugin gives them. -/
structure Component where
  fragment : String
  css : List String
  js : List String
  hooks : List String
  environment : List EnvironmentFunction

structure Plugin where
  name : String
  sources : List (String × String)
  assets : List (String × Bytes)
  hooks : List (String × Hook)
  components : List Component
  everyPageCss : List String
  everyPageJs : List String
  everyPageHooks : List String
  environment : List EnvironmentFunction
  everyPageFragments : List String

inductive PluginError where
  | source (plugin : String) (error : FragmentError)
  | unknownFragment (plugin name : String)
  | unknownAsset (plugin name : String)
  | unknownHook (plugin name : String)

def PluginError.message : PluginError → String
  | .source plugin error => "plugin \"" ++ plugin ++ "\": " ++ error.message
  | .unknownFragment plugin name =>
      "plugin \"" ++ plugin ++ "\" has no fragment named \"" ++ name ++ "\""
  | .unknownAsset plugin name =>
      "plugin \"" ++ plugin ++ "\" has no asset named \"" ++ name ++ "\""
  | .unknownHook plugin name =>
      "plugin \"" ++ plugin ++ "\" has no hook named \"" ++ name ++ "\""

/-- A plugin whose names all mean something, under the id that makes them unique. -/
structure CheckedPlugin where
  id : String
  store : MemoryStore
  fragments : List Fragment
  everyPageFragments : List Fragment
  registry : Registry

namespace Plugin

/-- Of several parts of one name the last counts. -/
def last? {α : Type} (parts : List (String × α)) (name : String) : Option α :=
  (parts.reverse.find? fun (key, _) => key = name).map Prod.snd

def fragments (plugin : Plugin) : Except PluginError (List Fragment) := do
  let files ← plugin.sources.mapM fun (name, source) =>
    match SourceFile.parse name source with
    | .ok file => .ok file
    | .error error => .error (.source plugin.name error)
  .ok (files.flatMap SourceFile.fragments)

def fragment (plugin : Plugin) (fragments : List Fragment) (name : String) :
    Except PluginError Fragment :=
  match fragments.reverse.find? fun fragment => fragment.name = name with
  | some fragment => .ok fragment
  | none => .error (.unknownFragment plugin.name name)

def asset (plugin : Plugin) (marker : Marker) (id name : String) : Except PluginError Asset :=
  match last? plugin.assets name with
  | some data => .ok (Asset.ofData (marker.qualify id name) data)
  | none => .error (.unknownAsset plugin.name name)

def hook (plugin : Plugin) (id name : String) : Except PluginError Hook :=
  match last? plugin.hooks name with
  | some hook => .ok (hook.renamed (id ++ "::" ++ name))
  | none => .error (.unknownHook plugin.name name)

def contributions (plugin : Plugin) (marker : Marker) (id : String)
    (css js hooks : List String) (environment : List EnvironmentFunction) :
    Except PluginError Contributions := do
  let css ← css.mapM (plugin.asset marker id)
  let js ← js.mapM (plugin.asset marker id)
  let hooks ← hooks.mapM (plugin.hook id)
  .ok ⟨css, js, hooks, environment⟩

def component (plugin : Plugin) (marker : Marker) (id : String) (fragments : List Fragment)
    (component : Component) : Except PluginError (Scope × Contributions) := do
  let _ ← plugin.fragment fragments component.fragment
  let contributions ← plugin.contributions marker id component.css component.js component.hooks
    component.environment
  .ok (.fragment component.fragment, contributions)

/-- The first part that is missing is reported: sources are looked at first, then what goes to every
page, the components in order, and the fragments for every page. -/
def check (plugin : Plugin) (marker : Marker) (id : String) : Except PluginError CheckedPlugin := do
  let fragments ← plugin.fragments
  let everyPage ← plugin.contributions marker id plugin.everyPageCss plugin.everyPageJs
    plugin.everyPageHooks plugin.environment
  let perFragment ← plugin.components.mapM (plugin.component marker id fragments)
  let everyPageFragments ← plugin.everyPageFragments.mapM (plugin.fragment fragments)
  let registry := perFragment.foldl (fun registry (scope, contributions) =>
    registry.add scope contributions) (Registry.empty.add .everyPage everyPage)
  .ok ⟨id, MemoryStore.ofList plugin.assets, fragments, everyPageFragments, registry⟩

end Plugin

end PageAssembly
