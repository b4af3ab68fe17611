import PageAssembly.Proofs.Setup.Mounting

/-!
A site with one more plugin on it. If the plugin has something only for its own fragments, then the
two sites agree on everything else: on what goes to every page, on the names that do not lead into
the store of the plugin, and on what there is for each fragment that the plugin does not have. Every
call on the two sites that reads none of the plugin's names keeps them so.
-/

namespace PageAssembly

/-- The name leads into the store of this id. -/
def Marker.Addresses (marker : Marker) (id name : String) : Prop :=
  (marker.split name).1 = some id

namespace SetupStep

def reads : SetupStep → List String
  | .everyPageCss names => names
  | .everyPageJs names => names
  | .everyPageSources names => names
  | _ => []

/-- No name that the call reads leads into the store of this id. -/
def Avoids (call : SetupStep) (marker : Marker) (id : String) : Prop :=
  ∀ name ∈ call.reads, ¬ marker.Addresses id name

end SetupStep

def Plugin.Leaves (plugin : Plugin) : Scope → Prop
  | .everyPage => True
  | .fragment name => ¬ plugin.Declares name

namespace Setup

/-- The other site differs at most in what stands in the store of an id and in what there is for the
fragments of a plugin. -/
structure Agrees (plugin : Plugin) (id : String) (setup other : Setup) : Prop where
  settings : other.settings = setup.settings
  main : other.store.main = setup.store.main
  marker : other.store.marker = setup.store.marker
  mounted : ∀ name, name ≠ id →
    Table.get? other.store.others name = Table.get? setup.store.others name
  base : other.base = setup.base
  components : ∀ name, ¬ plugin.Declares name →
    other.components.find? name = setup.components.find? name
  contributions : ∀ scope, plugin.Leaves scope →
    other.registry.find scope = setup.registry.find scope

section

variable {plugin : Plugin} {id : String} {setup other : Setup}

theorem Agrees.refl (plugin : Plugin) (id : String) (setup : Setup) :
    setup.Agrees plugin id setup :=
  ⟨rfl, rfl, rfl, fun _ _ => rfl, rfl, fun _ _ => rfl, fun _ _ => rfl⟩

theorem Agrees.route (agrees : setup.Agrees plugin id other) {name : String}
    (elsewhere : ¬ setup.store.marker.Addresses id name) :
    other.store.route name = setup.store.route name := by
  rw [MountedStore.route, MountedStore.route, agrees.marker]
  rcases marked : setup.store.marker.split name with ⟨_ | store, path⟩
  · rfl
  · have different : store ≠ id := by
      rintro rfl
      exact elsewhere (congrArg Prod.fst marked)
    have same : Table.has other.store.others store = Table.has setup.store.others store := by
      rw [Table.has, Table.has, agrees.mounted store different]
    simp only [same]

theorem addresses_of_route {store : MountedStore} {name : String}
    (leads : (store.route name).mounted = some id) : store.marker.Addresses id name := by
  rw [Marker.Addresses]
  rw [MountedStore.route] at leads
  rcases marked : store.marker.split name with ⟨_ | other, path⟩ <;> rw [marked] at leads
  · cases leads
  · dsimp only at leads
    split at leads
    · exact leads
    · cases leads

theorem Agrees.target (agrees : setup.Agrees plugin id other) {route : Route}
    (elsewhere : route.mounted ≠ some id) :
    other.store.target route = setup.store.target route := by
  rw [MountedStore.target, MountedStore.target, agrees.main]
  cases mounted : route.mounted with
  | none => rfl
  | some store =>
      have different : store ≠ id := fun same => elsewhere (mounted.trans (congrArg some same))
      simp only [agrees.mounted store different]

theorem Agrees.read (agrees : setup.Agrees plugin id other) {name : String}
    (elsewhere : ¬ setup.store.marker.Addresses id name) :
    other.store.read name = setup.store.read name := by
  have target := agrees.target fun leads => elsewhere (addresses_of_route leads)
  simp only [MountedStore.read, agrees.route elsewhere, target]

theorem Agrees.readAsset (agrees : setup.Agrees plugin id other) {name : String}
    (elsewhere : ¬ setup.store.marker.Addresses id name) :
    other.readAsset name = setup.readAsset name := by
  simp only [Setup.readAsset, Setup.read, agrees.read elsewhere]

theorem Agrees.readSource (agrees : setup.Agrees plugin id other) {name : String}
    (elsewhere : ¬ setup.store.marker.Addresses id name) :
    other.readSource name = setup.readSource name := by
  simp only [Setup.readSource, Setup.read, agrees.read elsewhere]

theorem Agrees.mount (agrees : setup.Agrees plugin id other) (name : String) (store : Store) :
    (setup.mount name store).Agrees plugin id (other.mount name store) where
  settings := agrees.settings
  main := agrees.main
  marker := agrees.marker
  mounted := by
    intro asked different
    simp only [Setup.mount, MountedStore.mount, Table.get?_put, agrees.mounted asked different]
  base := agrees.base
  components := agrees.components
  contributions := agrees.contributions

theorem contribute_eq (setup : Setup) (contributions : List Contributions) :
    setup.contribute contributions =
      { setup with
        registry := setup.registry.addAll (contributions.map fun one => (.everyPage, one)) } := by
  rw [contribute, Registry.addAll, List.foldl_map]

theorem Agrees.contribute (agrees : setup.Agrees plugin id other)
    (contributions : List Contributions) :
    (setup.contribute contributions).Agrees plugin id (other.contribute contributions) := by
  rw [contribute_eq, contribute_eq]
  exact { agrees with
    contributions := fun scope left =>
      Registry.find_addAll_congr (agrees.contributions scope left) _ }

theorem Agrees.addAssets (agrees : setup.Agrees plugin id other) {make : Asset → Contributions}
    {names : List String} {next : Setup}
    (avoids : ∀ name ∈ names, ¬ setup.store.marker.Addresses id name)
    (added : (do
      let assets ← names.mapM setup.readAsset
      .ok (setup.contribute (assets.map make))) = .ok next) :
    ∃ also, (do
      let assets ← names.mapM other.readAsset
      .ok (other.contribute (assets.map make))) = .ok also ∧ next.Agrees plugin id also := by
  obtain ⟨assets, read, same⟩ := bind_ok added
  cases same
  have again : names.mapM other.readAsset = .ok assets := by
    rw [← read]
    exact mapM_congr fun name member => agrees.readAsset (avoids name member)
  refine ⟨_, ?_, agrees.contribute (assets.map make)⟩
  rw [again]
  rfl

/-- Any plugin that is installed on both sites, also one with fragments of the same names. -/
theorem Agrees.install (agrees : setup.Agrees plugin id other) (checked : CheckedPlugin) :
    (setup.install checked).Agrees plugin id (other.install checked) where
  settings := agrees.settings
  main := agrees.main
  marker := agrees.marker
  mounted := (agrees.mount checked.id checked.store.toStore).mounted
  base := by simp only [Setup.install, agrees.base]
  components := by
    intro name undeclared
    simp only [Setup.install, FragmentSet.find?_insertAll, agrees.components name undeclared]
  contributions := by
    intro scope left
    simp only [Setup.install, Registry.extend_eq]
    exact Registry.find_addAll_congr (agrees.contributions scope left) _

theorem Agrees.installAll (agrees : setup.Agrees plugin id other) (checked : List CheckedPlugin) :
    (checked.foldl Setup.install setup).Agrees plugin id
      (checked.foldl Setup.install other) := by
  induction checked generalizing setup other with
  | nil => exact agrees
  | cons one checked induction => exact induction (agrees.install one)

/-- The plugin itself, installed on one of the sites. -/
theorem Agrees.install_own (agrees : setup.Agrees plugin id other) {checked : CheckedPlugin}
    (own : checked.Confined plugin id) : setup.Agrees plugin id (other.install checked) where
  settings := agrees.settings
  main := agrees.main
  marker := agrees.marker
  mounted := by
    intro name different
    simp only [Setup.install, MountedStore.mount, Table.get?_put, own.id_eq,
      if_neg (Ne.symm different), agrees.mounted name different]
  base := by
    rw [Setup.install, own.everyPageFragments]
    exact agrees.base
  components := by
    intro name undeclared
    have absent : lastNamed? checked.fragments name = none := by
      rw [lastNamed?, List.find?_eq_none]
      intro fragment member same
      exact undeclared ⟨_, own.fragments, List.mem_map.mpr
        ⟨fragment, List.mem_reverse.mp member, of_decide_eq_true same⟩⟩
    simp only [Setup.install, FragmentSet.find?_insertAll, absent, Option.none_or,
      agrees.components name undeclared]
  contributions := by
    intro scope left
    have others : ∀ entry ∈ checked.registry.byFragment, .fragment entry.1 ≠ scope := by
      rintro entry listed rfl
      exact left (own.byFragment entry listed)
    simp only [Setup.install, Registry.find_extend own.everyPage others]
    exact agrees.contributions scope left

theorem Agrees.step (agrees : setup.Agrees plugin id other) {call : SetupStep} {next : Setup}
    (avoids : call.Avoids setup.store.marker id) (stepped : setup.step call = .ok next) :
    ∃ also, other.step call = .ok also ∧ next.Agrees plugin id also := by
  cases call with
  | mount name store =>
      cases stepped
      exact ⟨_, rfl, agrees.mount name store⟩
  | everyPageCss names => exact agrees.addAssets avoids stepped
  | everyPageJs names => exact agrees.addAssets avoids stepped
  | everyPageSources names =>
      obtain ⟨files, read, same⟩ := bind_ok stepped
      cases same
      have again : names.mapM other.readSource = .ok files := by
        rw [← read]
        exact mapM_congr fun name member => agrees.readSource (avoids name member)
      refine ⟨{ other with base := files.foldl FragmentSet.merge other.base }, ?_, ?_⟩
      · rw [Setup.step, Setup.everyPageSources, again]
        rfl
      · exact { agrees with base := by rw [agrees.base] }
  | everyPageHooks hooks =>
      cases stepped
      exact ⟨_, rfl, agrees.contribute (hooks.map .ofHook)⟩
  | everyPageEnvironment functions =>
      cases stepped
      exact ⟨_, rfl, agrees.contribute (functions.map .ofEnvironment)⟩
  | plugins plugins =>
      obtain ⟨checked, valid, same⟩ := bind_ok stepped
      cases same
      refine ⟨_, ?_, agrees.installAll checked⟩
      rw [Setup.step, Setup.plugins, agrees.marker, valid]
      rfl

theorem avoids_later {call : SetupStep} {calls : List SetupStep} {next : Setup}
    (avoid : ∀ one ∈ call :: calls, one.Avoids setup.store.marker id)
    (stepped : setup.step call = .ok next) : ∀ one ∈ calls, one.Avoids next.store.marker id := by
  intro one member
  rw [step_marker stepped]
  exact avoid one (List.mem_cons_of_mem _ member)

theorem Agrees.build (agrees : setup.Agrees plugin id other) {calls : List SetupStep}
    {built : Setup} (avoid : ∀ call ∈ calls, call.Avoids setup.store.marker id)
    (succeeded : setup.build calls = .ok built) :
    ∃ also, other.build calls = .ok also ∧ built.Agrees plugin id also := by
  induction calls generalizing setup other with
  | nil =>
      cases succeeded
      exact ⟨other, rfl, agrees⟩
  | cons call calls induction =>
      obtain ⟨next, stepped, later⟩ := build_cons succeeded
      obtain ⟨also, steppedAlso, agreesNext⟩ :=
        agrees.step (avoid call List.mem_cons_self) stepped
      rw [Setup.build, steppedAlso]
      exact induction agreesNext (avoids_later avoid stepped) later

/-- A plugin that is valid can stand at any place among those that are registered. -/
theorem plugins_insert {first last : List (String × Plugin)} {checked : CheckedPlugin}
    {next : Setup} (valid : plugin.check setup.store.marker id = .ok checked)
    (registered : setup.plugins (first ++ last) = .ok next) :
    ∃ before after, next = (before ++ after).foldl install setup ∧
      setup.plugins (first ++ (id, plugin) :: last) =
        .ok ((before ++ checked :: after).foldl install setup) := by
  obtain ⟨all, checks, same⟩ := bind_ok registered
  cases same
  rw [List.mapM_append] at checks
  obtain ⟨before, validBefore, rest⟩ := bind_ok checks
  obtain ⟨after, validAfter, same⟩ := bind_ok rest
  cases same
  refine ⟨before, after, rfl, ?_⟩
  rw [plugins, List.mapM_append, validBefore, List.mapM_cons, validAfter]
  simp only [valid]
  rfl

/-- Calls with one more registration among them, by a call of its own or in one that is there. -/
inductive Adds (entry : String × Plugin) : List SetupStep → List SetupStep → Prop where
  | alone {calls : List SetupStep} : Adds entry calls (.plugins [entry] :: calls)
  | among {first last : List (String × Plugin)} {calls : List SetupStep} :
      Adds entry (.plugins (first ++ last) :: calls) (.plugins (first ++ entry :: last) :: calls)
  | later {call : SetupStep} {calls more : List SetupStep} (adds : Adds entry calls more) :
      Adds entry (call :: calls) (call :: more)

theorem agrees_of_insert {first last : List (String × Plugin)} {checked : CheckedPlugin}
    {next : Setup} (confined : plugin.Confined)
    (valid : plugin.check setup.store.marker id = .ok checked)
    (registered : setup.plugins (first ++ last) = .ok next) :
    ∃ also, setup.plugins (first ++ (id, plugin) :: last) = .ok also ∧
      next.Agrees plugin id also := by
  obtain ⟨before, after, rfl, also⟩ := plugins_insert valid registered
  refine ⟨_, also, ?_⟩
  rw [List.foldl_append, List.foldl_append, List.foldl_cons]
  exact ((Agrees.refl plugin id _).install_own (confined.check valid)).installAll after

/-- The calls with the plugin succeed if those without it do, and the two sites agree. -/
theorem Adds.build {calls more : List SetupStep} (adds : Adds (id, plugin) calls more)
    (confined : plugin.Confined) {checked : CheckedPlugin} {built : Setup}
    (valid : plugin.check setup.store.marker id = .ok checked)
    (avoid : ∀ call ∈ calls, call.Avoids setup.store.marker id)
    (succeeded : setup.build calls = .ok built) :
    ∃ also, setup.build more = .ok also ∧ built.Agrees plugin id also := by
  induction adds generalizing setup with
  | alone =>
      have nothing : setup.plugins ([] ++ []) = .ok setup := rfl
      obtain ⟨next, registered, agrees⟩ := agrees_of_insert confined valid nothing
      rw [List.nil_append] at registered
      rw [Setup.build, Setup.step, registered]
      exact agrees.build avoid succeeded
  | among =>
      obtain ⟨next, stepped, later⟩ := build_cons succeeded
      obtain ⟨also, registered, agrees⟩ := agrees_of_insert confined valid stepped
      rw [Setup.build, Setup.step, registered]
      exact agrees.build (avoids_later avoid stepped) later
  | later adds induction =>
      obtain ⟨next, stepped, later⟩ := build_cons succeeded
      rw [Setup.build, stepped]
      rw [← step_marker stepped] at valid
      exact induction valid (avoids_later avoid stepped) later

end

end Setup

end PageAssembly
