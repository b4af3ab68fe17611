import Mathlib.Data.List.Nodup
import PageAssembly.Proofs.Setup.Building
import PageAssembly.Proofs.Setup.Contribution
import PageAssembly.Proofs.Store.Marking

/-!
What a site reads from is its main store with the stores that the calls mounted, in the order of the
calls. A plugin mounts its assets under its id. Where no other store is mounted under that id, each
asset that the plugin contributes is read under the name that it was given for its page.
-/

namespace PageAssembly

namespace Plugin

variable {α : Type}

theorem last?_cons (name : String) (value : α) (parts : List (String × α)) (asked : String) :
    last? ((name, value) :: parts) asked =
      (last? parts asked).or (if name = asked then some value else none) := by
  unfold last?
  rw [List.reverse_cons, List.find?_append, Option.map_or]
  by_cases same : name = asked <;> simp [same]

theorem last?_eq_some {parts : List (String × α)} {name : String} {value : α}
    (listed : (name, value) ∈ parts) (only : ∀ other, (name, other) ∈ parts → other = value) :
    last? parts name = some value := by
  have found : (parts.reverse.find? fun part => part.1 = name).isSome := by
    rw [List.find?_isSome]
    exact ⟨(name, value), List.mem_reverse.mpr listed, decide_eq_true rfl⟩
  obtain ⟨⟨key, other⟩, first⟩ := Option.isSome_iff_exists.mp found
  obtain rfl : key = name := by simpa using List.find?_some first
  have member : (key, other) ∈ parts :=
    List.mem_reverse.mp (List.mem_of_find?_eq_some first)
  unfold last?
  rw [first, Option.map_some, only other member]

end Plugin

theorem Table.get?_putAll {α : Type} (table entries : List (String × α)) (name : String) :
    get? (entries.foldl (fun table entry => put table entry.1 entry.2) table) name =
      (Plugin.last? entries name).or (get? table name) := by
  induction entries generalizing table with
  | nil => rfl
  | cons entry entries induction =>
      rw [List.foldl_cons, induction, get?_put, Plugin.last?_cons, Option.or_assoc]
      by_cases same : entry.1 = name <;> simp [same]

theorem MemoryStore.read_ofList {files : List (String × Bytes)} {name : String} {data : Bytes}
    (last : Plugin.last? files name = some data) : (ofList files).read name = .ok data := by
  have stored : Table.get? (Table.ofList files) name = some data := by
    unfold Table.ofList
    rw [Table.get?_putAll, last, Option.some_or]
  unfold ofList read
  rw [stored]

namespace MountedStore

def mountAll (store : MountedStore) (others : List (String × Store)) : MountedStore :=
  others.foldl (fun store other => store.mount other.1 other.2) store

theorem mountAll_append (store : MountedStore) (others more : List (String × Store)) :
    store.mountAll (others ++ more) = (store.mountAll others).mountAll more :=
  List.foldl_append

theorem marker_mountAll (store : MountedStore) (others : List (String × Store)) :
    (store.mountAll others).marker = store.marker := by
  induction others generalizing store with
  | nil => rfl
  | cons other others induction => exact induction (store.mount other.1 other.2)

theorem get?_mountAll (store : MountedStore) (others : List (String × Store)) (name : String) :
    Table.get? (store.mountAll others).others name =
      (Plugin.last? others name).or (Table.get? store.others name) := by
  have table : (store.mountAll others).others =
      others.foldl (fun table other => Table.put table other.1 other.2) store.others := by
    induction others generalizing store with
    | nil => rfl
    | cons other others induction => exact induction (store.mount other.1 other.2)
  rw [table, Table.get?_putAll]

end MountedStore

/-- The store of a plugin: its assets, under the names that the plugin gives them. -/
def Plugin.ownStore (plugin : Plugin) : Store :=
  (MemoryStore.ofList plugin.assets).toStore

namespace SetupStep

/-- The plugins that a call registers, each with its id. -/
def registered : SetupStep → List (String × Plugin)
  | .plugins entries => entries
  | _ => []

/-- The names of the stores beside the main one that a call mounts and that are no plugin's. -/
def alternates : SetupStep → List String
  | .mount name _ => [name]
  | _ => []

def mounts : SetupStep → List (String × Store)
  | .mount name store => [(name, store)]
  | .plugins entries => entries.map fun entry => (entry.1, entry.2.ownStore)
  | _ => []

theorem of_mem_mounts {call : SetupStep} {name : String} {store : Store}
    (mounted : (name, store) ∈ call.mounts) :
    name ∈ call.alternates ∨
      ∃ plugin, (name, plugin) ∈ call.registered ∧ store = plugin.ownStore := by
  cases call with
  | mount other alternate =>
      cases List.mem_singleton.mp mounted
      exact Or.inl List.mem_cons_self
  | plugins entries =>
      obtain ⟨⟨id, plugin⟩, listed, same⟩ := List.mem_map.mp mounted
      cases same
      exact Or.inr ⟨plugin, listed, rfl⟩
  | _ => cases mounted

theorem own_mounted {call : SetupStep} {id : String} {plugin : Plugin}
    (listed : (id, plugin) ∈ call.registered) : (id, plugin.ownStore) ∈ call.mounts := by
  cases call with
  | plugins plugins => exact List.mem_map.mpr ⟨(id, plugin), listed, rfl⟩
  | _ => cases listed

end SetupStep

namespace Plugin

theorem check_store {plugin : Plugin} {marker : Marker} {id : String} {checked : CheckedPlugin}
    (valid : plugin.check marker id = .ok checked) :
    (checked.id, checked.store.toStore) = (id, plugin.ownStore) := by
  obtain ⟨_, _, checks⟩ := check_ok valid
  rw [checks.id_eq, checks.store_eq, ownStore]

end Plugin

namespace Setup

section

variable {setup : Setup}

theorem store_installAll (setup : Setup) (checked : List CheckedPlugin) :
    (checked.foldl install setup).store =
      setup.store.mountAll (checked.map fun one => (one.id, one.store.toStore)) := by
  induction checked generalizing setup with
  | nil => rfl
  | cons one checked induction => exact induction (setup.install one)

theorem plugins_store {plugins : List (String × Plugin)} {next : Setup}
    (registered : setup.plugins plugins = .ok next) :
    next.store = setup.store.mountAll (plugins.map fun entry => (entry.1, entry.2.ownStore)) := by
  obtain ⟨checked, checks, same⟩ := bind_ok registered
  cases same
  rw [store_installAll]
  congr 1
  apply map_of_mapM checks
  rintro ⟨id, plugin⟩ one accepted
  cases valid : plugin.check setup.store.marker id with
  | error error =>
      simp only [valid] at accepted
      cases accepted
  | ok checked =>
      simp only [valid] at accepted
      cases accepted
      exact Plugin.check_store valid

/-- A call leaves the store as it was but for what it mounts. -/
theorem step_store {call : SetupStep} {next : Setup} (stepped : setup.step call = .ok next) :
    next.store = setup.store.mountAll call.mounts := by
  cases call with
  | mount name store =>
      cases stepped
      rfl
  | everyPageCss names =>
      obtain ⟨_, _, same⟩ := bind_ok stepped
      cases same
      rfl
  | everyPageJs names =>
      obtain ⟨_, _, same⟩ := bind_ok stepped
      cases same
      rfl
  | everyPageSources names =>
      obtain ⟨_, _, same⟩ := bind_ok stepped
      cases same
      rfl
  | everyPageHooks hooks =>
      cases stepped
      rfl
  | everyPageEnvironment functions =>
      cases stepped
      rfl
  | plugins plugins => exact plugins_store stepped

theorem build_store {calls : List SetupStep} {built : Setup}
    (succeeded : setup.build calls = .ok built) :
    built.store = setup.store.mountAll (calls.flatMap SetupStep.mounts) := by
  induction calls generalizing setup with
  | nil =>
      cases succeeded
      rfl
  | cons call calls induction =>
      obtain ⟨next, stepped, later⟩ := build_cons succeeded
      rw [induction later, step_store stepped, List.flatMap_cons, MountedStore.mountAll_append]

theorem step_marker {call : SetupStep} {next : Setup} (stepped : setup.step call = .ok next) :
    next.store.marker = setup.store.marker := by
  rw [step_store stepped, MountedStore.marker_mountAll]

theorem build_marker {calls : List SetupStep} {built : Setup}
    (succeeded : setup.build calls = .ok built) : built.store.marker = setup.store.marker := by
  rw [build_store succeeded, MountedStore.marker_mountAll]

end

end Setup

def Contributions.assets (contributions : Contributions) : List Asset :=
  contributions.css ++ contributions.js

theorem Contributions.mem_assets_append {earlier later : Contributions} {asset : Asset} :
    asset ∈ (earlier.append later).assets ↔ asset ∈ earlier.assets ∨ asset ∈ later.assets := by
  unfold assets append
  simp only [List.mem_append]
  exact or_or_or_comm

theorem Registry.mem_assets_addAll {registry : Registry} {parts : List (Scope × Contributions)}
    {scope : Scope} {asset : Asset} (member : asset ∈ ((registry.addAll parts).find scope).assets) :
    asset ∈ (registry.find scope).assets ∨ ∃ part ∈ parts, asset ∈ part.2.assets := by
  induction parts generalizing registry with
  | nil => exact Or.inl member
  | cons part parts induction =>
      rcases induction member with earlier | ⟨one, listed, inside⟩
      · rw [find_add] at earlier
        split at earlier
        · apply (Contributions.mem_assets_append.mp earlier).imp_right
          exact fun own => ⟨part, List.mem_cons_self, own⟩
        · exact Or.inl earlier
      · exact Or.inr ⟨one, List.mem_cons_of_mem _ listed, inside⟩

namespace Plugin

/-- The asset is one that the plugin has under this id: some path of the plugin's, marked, and what
the plugin has under that path. -/
def Owns (plugin : Plugin) (marker : Marker) (id : String) (asset : Asset) : Prop :=
  ∃ path data, last? plugin.assets path = some data ∧
    asset = Asset.ofData (marker.qualify id path) data

/-- The plugin, registered under this id, contributes the asset to every page or with a fragment. -/
def Contributes (plugin : Plugin) (marker : Marker) (id : String) (asset : Asset) : Prop :=
  ∃ checked scope, plugin.check marker id = .ok checked ∧
    asset ∈ (checked.registry.find scope).assets

section

variable {plugin : Plugin} {marker : Marker} {id : String}

theorem owns_of_asset {name : String} {asset : Asset}
    (found : plugin.asset marker id name = .ok asset) : plugin.Owns marker id asset := by
  unfold Plugin.asset at found
  split at found
  · rename_i data last
    cases found
    exact ⟨name, data, last, rfl⟩
  · cases found

theorem owns_of_contributions {css js hooks : List String}
    {environment : List EnvironmentFunction} {contributions : Contributions}
    (found : plugin.contributions marker id css js hooks environment = .ok contributions)
    {asset : Asset} (member : asset ∈ contributions.assets) : plugin.Owns marker id asset := by
  obtain ⟨styles, readStyles, rest⟩ := bind_ok found
  obtain ⟨scripts, readScripts, rest⟩ := bind_ok rest
  obtain ⟨_, _, same⟩ := bind_ok rest
  cases same
  rcases List.mem_append.mp member with style | script
  · obtain ⟨_, _, gave⟩ := exists_of_mem_mapM readStyles style
    exact owns_of_asset gave
  · obtain ⟨_, _, gave⟩ := exists_of_mem_mapM readScripts script
    exact owns_of_asset gave

theorem Contributes.owns {asset : Asset} (contributes : plugin.Contributes marker id asset) :
    plugin.Owns marker id asset := by
  obtain ⟨checked, scope, valid, member⟩ := contributes
  obtain ⟨everyPage, perFragment, checks⟩ := check_ok valid
  rw [checks.registry_eq] at member
  rcases Registry.mem_assets_addAll member with first | ⟨part, listed, inside⟩
  · -- before the components the registry has only what goes to every page
    rw [Registry.find_add] at first
    split at first
    · rcases Contributions.mem_assets_append.mp first with nothing | own
      · cases scope <;> cases nothing
      · exact owns_of_contributions checks.contributed own
    · cases scope <;> cases first
  · obtain ⟨one, _, gave⟩ := exists_of_mem_mapM checks.components listed
    obtain ⟨_, _, found⟩ := component_ok gave
    exact owns_of_contributions found inside

end

end Plugin

namespace SetupStep

/-- The plugins of these calls have ids that names can be marked with, and no two stores are mounted
under one of them. -/
structure OwnIds (calls : List SetupStep) : Prop where
  usable : ∀ entry ∈ calls.flatMap registered, Marker.Usable entry.1
  distinct : ((calls.flatMap registered).map Prod.fst).Nodup
  apart : ∀ entry ∈ calls.flatMap registered, entry.1 ∉ calls.flatMap alternates

/-- A plugin that is registered by these calls contributes the asset. -/
def Contributed (calls : List SetupStep) (marker : Marker) (asset : Asset) : Prop :=
  ∃ id plugin, (id, plugin) ∈ calls.flatMap registered ∧ plugin.Contributes marker id asset

section

variable {calls : List SetupStep} {id : String} {plugin : Plugin}

theorem OwnIds.plugin_eq (ids : OwnIds calls) {other : Plugin}
    (listed : (id, plugin) ∈ calls.flatMap registered)
    (also : (id, other) ∈ calls.flatMap registered) : other = plugin :=
  congrArg Prod.snd (List.inj_on_of_nodup_map ids.distinct also listed rfl)

/-- The store that is mounted under the id of a plugin in the end is the plugin's. -/
theorem OwnIds.last_mounted (ids : OwnIds calls)
    (listed : (id, plugin) ∈ calls.flatMap registered) :
    Plugin.last? (calls.flatMap mounts) id = some plugin.ownStore := by
  apply Plugin.last?_eq_some
  · obtain ⟨call, among, here⟩ := List.mem_flatMap.mp listed
    exact List.mem_flatMap.mpr ⟨call, among, own_mounted here⟩
  · intro other mounted
    obtain ⟨call, among, here⟩ := List.mem_flatMap.mp mounted
    rcases of_mem_mounts here with alternate | ⟨another, registered, same⟩
    · exact absurd (List.mem_flatMap.mpr ⟨call, among, alternate⟩) (ids.apart _ listed)
    · rw [same, ids.plugin_eq listed (List.mem_flatMap.mpr ⟨call, among, registered⟩)]

end

end SetupStep

theorem Setup.read_contributed {main : Store} {settings : Settings} {calls : List SetupStep}
    {setup : Setup} (built : (start main settings).build calls = .ok setup)
    (ids : SetupStep.OwnIds calls) {asset : Asset}
    (contributed : SetupStep.Contributed calls settings.marker asset) :
    setup.store.read asset.name = .ok asset.data := by
  obtain ⟨id, plugin, listed, contributes⟩ := contributed
  obtain ⟨path, data, last, rfl⟩ := contributes.owns
  have marker : setup.store.marker = settings.marker := build_marker built
  have mounted : Table.get? setup.store.others id = some plugin.ownStore := by
    rw [build_store built, MountedStore.get?_mountAll, ids.last_mounted listed, Option.some_or]
  have stored : plugin.ownStore.read path = .ok data := MemoryStore.read_ofList last
  rw [← marker]
  exact MountedStore.read_qualify (ids.usable _ listed) mounted stored

end PageAssembly
