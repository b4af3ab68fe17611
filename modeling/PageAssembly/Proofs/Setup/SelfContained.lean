import PageAssembly.Proofs.Fragment.Splitting
import PageAssembly.Proofs.Setup.Demands
import PageAssembly.Proofs.Setup.Registration

/-!
Which plugins can be registered. A plugin needs that its sources can be read and that every name it
uses is one of its own parts. These needs are looked at in one order, so the first that is not met
says how the plugin is refused; of several plugins the first that is refused counts. Plugins that
are registered together are on the site as if each had been registered by a call of its own.
-/

namespace PageAssembly

inductive Need where
  | source (name text : String)
  | asset (name : String)
  | hook (name : String)
  | fragment (name : String)

/-- Style sheets come before scripts, and hooks last. -/
def Need.ofParts (css js hooks : List String) : List Need :=
  css.map .asset ++ (js.map .asset ++ hooks.map .hook)

def Component.needs (component : Component) : List Need :=
  .fragment component.fragment :: Need.ofParts component.css component.js component.hooks

namespace Plugin

def needs (plugin : Plugin) : List Need :=
  plugin.sources.map (fun source => .source source.1 source.2) ++
    (Need.ofParts plugin.everyPageCss plugin.everyPageJs plugin.everyPageHooks ++
      (plugin.components.flatMap Component.needs ++ plugin.everyPageFragments.map .fragment))

/-- A source declares a fragment under its own name, and one for each definition and each block in
it, at any depth. -/
def SourceDeclares (source : String × String) (name : String) : Prop :=
  ∃ body, Language.parse source.2 = .ok body ∧ (name = source.1 ∨ name ∈ Fragment.definedIn body)

/-- The plugin has what is needed: the text is one of the language, or a part of that name is the
plugin's own. -/
def Has (plugin : Plugin) : Need → Prop
  | .source _ text => ∃ body, Language.parse text = .ok body
  | .asset name => name ∈ plugin.assets.map Prod.fst
  | .hook name => name ∈ plugin.hooks.map Prod.fst
  | .fragment name => ∃ source ∈ plugin.sources, SourceDeclares source name

/-- How a plugin that does not have what is needed is refused. -/
def Lacks (plugin : Plugin) : Need → PluginError → Prop
  | .source name text, error => ∃ malformed, Language.parse text = .error malformed ∧
      error = .source plugin.name (.malformed name malformed)
  | .asset name, error => ¬ plugin.Has (.asset name) ∧ error = .unknownAsset plugin.name name
  | .hook name, error => ¬ plugin.Has (.hook name) ∧ error = .unknownHook plugin.name name
  | .fragment name, error =>
      ¬ plugin.Has (.fragment name) ∧ error = .unknownFragment plugin.name name

/-- The sources can be read, and every name means a part of the plugin's own. -/
def SelfContained (plugin : Plugin) : Prop :=
  ∀ need ∈ plugin.needs, plugin.Has need

/-- The first need that is not met refuses the plugin with this error. -/
def Refused (plugin : Plugin) (error : PluginError) : Prop :=
  FirstFault plugin.Has plugin.Lacks plugin.needs error

theorem faults (plugin : Plugin) : Faults plugin.Has plugin.Lacks where
  unmet := by
    rintro (⟨name, text⟩ | name | name | name) error lacks
    · obtain ⟨malformed, failed, _⟩ := lacks
      rintro ⟨body, parsed⟩
      rw [failed] at parsed
      cases parsed
    · exact lacks.1
    · exact lacks.1
    · exact lacks.1
  only := by
    rintro (⟨name, text⟩ | name | name | name) one other lacks also
    · obtain ⟨malformed, failed, rfl⟩ := lacks
      obtain ⟨again, failedAgain, rfl⟩ := also
      rw [failed] at failedAgain
      cases failedAgain
      rfl
    · exact lacks.2.trans also.2.symm
    · exact lacks.2.trans also.2.symm
    · exact lacks.2.trans also.2.symm

section

variable (plugin : Plugin) (marker : Marker) (id : String)

theorem last?_isSome {α : Type} (parts : List (String × α)) (name : String) :
    (last? parts name).isSome = true ↔ name ∈ parts.map Prod.fst := by
  simp [last?, List.find?_isSome]

theorem asset_decides (name : String) :
    Decides plugin.Has plugin.Lacks [.asset name] (plugin.asset marker id name) := by
  have known := last?_isSome plugin.assets name
  rw [Plugin.asset]
  cases found : last? plugin.assets name with
  | some data =>
      rw [found] at known
      simpa [Decides, Has] using known.mp rfl
  | none =>
      rw [found] at known
      exact ⟨[], .asset name, [], rfl, by simp, fun has => absurd (known.mpr has) (by simp), rfl⟩

theorem hook_decides (name : String) :
    Decides plugin.Has plugin.Lacks [.hook name] (plugin.hook id name) := by
  have known := last?_isSome plugin.hooks name
  rw [Plugin.hook]
  cases found : last? plugin.hooks name with
  | some hook =>
      rw [found] at known
      simpa [Decides, Has] using known.mp rfl
  | none =>
      rw [found] at known
      exact ⟨[], .hook name, [], rfl, by simp, fun has => absurd (known.mpr has) (by simp), rfl⟩

theorem contributions_decides (css js hooks : List String)
    (environment : List EnvironmentFunction) :
    Decides plugin.Has plugin.Lacks (Need.ofParts css js hooks)
      (plugin.contributions marker id css js hooks environment) := by
  apply (Decides.mapM_single (plugin.asset_decides marker id) css).bind
  intro styles _
  apply (Decides.mapM_single (plugin.asset_decides marker id) js).bind
  intro scripts _
  exact (Decides.mapM_single (plugin.hook_decides id) hooks).map fun found =>
    (⟨styles, scripts, found, environment⟩ : Contributions)

end

def sourceFile (plugin : Plugin) (source : String × String) : Except PluginError SourceFile :=
  match SourceFile.parse source.1 source.2 with
  | .ok file => .ok file
  | .error error => .error (.source plugin.name error)

theorem fragments_eq (plugin : Plugin) :
    plugin.fragments = plugin.sources.mapM plugin.sourceFile >>= fun files =>
      .ok (files.flatMap SourceFile.fragments) := rfl

theorem sourceFile_decides (plugin : Plugin) (source : String × String) :
    Decides plugin.Has plugin.Lacks [.source source.1 source.2] (plugin.sourceFile source) := by
  rw [sourceFile, SourceFile.parse]
  cases parsed : Language.parse source.2 with
  | ok body => simpa [Decides, Has] using ⟨body, parsed⟩
  | error malformed =>
      exact ⟨[], .source source.1 source.2, [], rfl, by simp, malformed, parsed, rfl⟩

theorem fragments_decides (plugin : Plugin) :
    Decides plugin.Has plugin.Lacks (plugin.sources.map fun source => .source source.1 source.2)
      plugin.fragments := by
  rw [fragments_eq]
  exact (Decides.mapM_single plugin.sourceFile_decides plugin.sources).map
    fun files => files.flatMap SourceFile.fragments

theorem mem_names_sourceFile {plugin : Plugin} {source : String × String} {file : SourceFile}
    (read : plugin.sourceFile source = .ok file) (name : String) :
    name ∈ file.fragments.map Fragment.name ↔ SourceDeclares source name := by
  rw [sourceFile, SourceFile.parse] at read
  rw [SourceDeclares]
  cases parsed : Language.parse source.2 with
  | error malformed =>
      rw [parsed] at read
      cases read
  | ok body =>
      rw [parsed] at read
      cases read
      simp [SourceFile.fragments, SourceFile.ofBody, Fragment.mem_names_split]

/-- The fragments of a plugin whose sources can be read have the names that the sources declare. -/
theorem mem_names_fragments {plugin : Plugin} {fragments : List Fragment}
    (read : plugin.fragments = .ok fragments) (name : String) :
    name ∈ fragments.map Fragment.name ↔ plugin.Has (.fragment name) := by
  rw [fragments_eq] at read
  obtain ⟨files, parsed, same⟩ := bind_ok read
  cases same
  rw [List.map_flatMap, List.mem_flatMap, Has]
  constructor
  · rintro ⟨file, listed, named⟩
    obtain ⟨source, among, gave⟩ := exists_of_mem_mapM parsed listed
    exact ⟨source, among, (mem_names_sourceFile gave name).mp named⟩
  · rintro ⟨source, among, declares⟩
    obtain ⟨file, listed, gave⟩ := exists_of_mapM parsed among
    exact ⟨file, listed, (mem_names_sourceFile gave name).mpr declares⟩

section

variable {plugin : Plugin} {fragments : List Fragment}

theorem fragment_decides (read : plugin.fragments = .ok fragments) (name : String) :
    Decides plugin.Has plugin.Lacks [.fragment name] (plugin.fragment fragments name) := by
  have known := mem_names_fragments read name
  rw [Plugin.fragment]
  cases found : fragments.reverse.find? fun fragment => fragment.name = name with
  | some fragment =>
      intro need member
      obtain rfl := List.mem_singleton.mp member
      apply known.mp
      have named : fragment.name = name := by simpa using List.find?_some found
      have listed : fragment ∈ fragments := List.mem_reverse.mp (List.mem_of_find?_eq_some found)
      exact List.mem_map.mpr ⟨fragment, listed, named⟩
  | none =>
      refine ⟨[], .fragment name, [], rfl, by simp, ?_, rfl⟩
      intro has
      obtain ⟨fragment, listed, named⟩ := List.mem_map.mp (known.mpr has)
      exact absurd named (by simpa using List.find?_eq_none.mp found fragment (by simpa using listed))

theorem component_decides (read : plugin.fragments = .ok fragments) (marker : Marker) (id : String)
    (component : Component) :
    Decides plugin.Has plugin.Lacks component.needs
      (plugin.component marker id fragments component) := by
  have known := fragment_decides read component.fragment
  have parts := plugin.contributions_decides marker id component.css component.js component.hooks
    component.environment
  exact known.bind fun _ _ => parts.map fun contributions =>
    (Scope.fragment component.fragment, contributions)

end

/-- A check comes to a plugin that can be installed if the plugin has all that it needs, and else
refuses it with what is missing first. -/
theorem check_decides (plugin : Plugin) (marker : Marker) (id : String) :
    Decides plugin.Has plugin.Lacks plugin.needs (plugin.check marker id) := by
  apply plugin.fragments_decides.bind
  intro fragments read
  apply (plugin.contributions_decides marker id _ _ _ plugin.environment).bind
  intro everyPage _
  apply (Decides.mapM (component_decides read marker id) plugin.components).bind
  intro perFragment _
  exact (Decides.mapM_single (fragment_decides read) plugin.everyPageFragments).map _

end Plugin

namespace Setup

def RefusesEntry (entry : String × Plugin) (error : SetupError) : Prop :=
  ∃ refusal, entry.2.Refused refusal ∧ error = .plugin refusal

theorem entry_faults :
    Faults (fun entry : String × Plugin => entry.2.SelfContained) RefusesEntry where
  unmet := by
    rintro entry error ⟨refusal, refused, _⟩
    exact refused.unmet entry.2.faults
  only := by
    rintro entry one other ⟨refusal, refused, rfl⟩ ⟨again, refusedAgain, rfl⟩
    rw [refused.unique entry.2.faults refusedAgain]

def checkEntry (marker : Marker) (entry : String × Plugin) : Except SetupError CheckedPlugin :=
  match entry.2.check marker entry.1 with
  | .ok checked => .ok checked
  | .error error => .error (.plugin error)

theorem plugins_eq (setup : Setup) (entries : List (String × Plugin)) :
    setup.plugins entries = entries.mapM (checkEntry setup.store.marker) >>= fun checked =>
      .ok (checked.foldl install setup) := rfl

theorem checkEntry_decides (marker : Marker) (entry : String × Plugin) :
    Decides (fun entry => entry.2.SelfContained) RefusesEntry [entry] (checkEntry marker entry) := by
  have decides := entry.2.check_decides marker entry.1
  rw [checkEntry]
  cases checked : entry.2.check marker entry.1 with
  | ok accepted =>
      rw [checked] at decides
      intro other member
      obtain rfl := List.mem_singleton.mp member
      exact decides
  | error refusal =>
      rw [checked] at decides
      exact ⟨[], entry, [], rfl, by simp, refusal, decides, rfl⟩

theorem plugins_decides (setup : Setup) (entries : List (String × Plugin)) :
    Decides (fun entry => entry.2.SelfContained) RefusesEntry entries (setup.plugins entries) := by
  have checks := Decides.mapM_single (checkEntry_decides setup.store.marker) entries
  rw [List.map_id'] at checks
  rw [plugins_eq]
  exact checks.map fun checked => checked.foldl install setup

/-- The first of several plugins can as well be registered by a call of its own. -/
theorem plugins_cons (setup : Setup) (entry : String × Plugin) (entries : List (String × Plugin)) :
    setup.plugins (entry :: entries) =
      setup.plugins [entry] >>= fun next => next.plugins entries := by
  simp only [plugins_eq, List.mapM_cons, List.mapM_nil]
  cases checkEntry setup.store.marker entry with
  | error refusal => rfl
  | ok checked =>
      -- what is installed does not change how names are marked
      have marker : (setup.install checked).store.marker = setup.store.marker := rfl
      change _ = entries.mapM (checkEntry (setup.install checked).store.marker) >>= fun later =>
        .ok (later.foldl install (setup.install checked))
      rw [marker]
      cases entries.mapM (checkEntry setup.store.marker) <;> rfl

def pluginsInTurn (setup : Setup) (entries : List (String × Plugin)) : Except SetupError Setup :=
  entries.foldlM (fun setup entry => setup.plugins [entry]) setup

theorem plugins_eq_inTurn (setup : Setup) (entries : List (String × Plugin)) :
    setup.plugins entries = setup.pluginsInTurn entries := by
  induction entries generalizing setup with
  | nil => rfl
  | cons entry entries induction =>
      rw [plugins_cons, pluginsInTurn, List.foldlM_cons]
      congr 1
      funext next
      exact induction next

/-- Whatever fragment the site has contributions for is one that its plugins brought. -/
def Backed (setup : Setup) : Prop :=
  ∀ name, setup.registry.find (.fragment name) ≠ .none → setup.components.contains name = true

theorem backed_start (main : Store) (settings : Settings) : (start main settings).Backed :=
  fun _ given => absurd rfl given

section

variable {setup : Setup}

theorem Backed.contribute (backed : setup.Backed) (contributions : List Contributions) :
    (setup.contribute contributions).Backed := by
  intro name given
  have apart : ∀ part ∈ contributions.map fun one => (Scope.everyPage, one),
      part.1 ≠ .fragment name := by
    intro part member
    obtain ⟨one, _, rfl⟩ := List.mem_map.mp member
    exact Scope.noConfusion
  rw [contribute_eq] at given ⊢
  rw [Registry.find_addAll apart] at given
  exact backed name given

theorem Backed.install (backed : setup.Backed) {checked : CheckedPlugin}
    (own : ∀ entry ∈ checked.registry.byFragment, entry.1 ∈ checked.fragments.map Fragment.name) :
    (setup.install checked).Backed := by
  intro name given
  change (setup.components.insertAll checked.fragments).contains name = true
  rw [FragmentSet.contains_insertAll]
  by_cases known : name ∈ checked.fragments.map Fragment.name
  · exact Or.inl known
  · apply Or.inr
    apply backed name
    -- the plugin has nothing for a fragment that is not its own
    have apart : ∀ part ∈ checked.registry.parts, part.1 ≠ .fragment name := by
      intro part member
      rcases List.mem_cons.mp member with rfl | among
      · exact Scope.noConfusion
      · obtain ⟨entry, listed, rfl⟩ := List.mem_map.mp among
        intro same
        cases same
        exact known (own entry listed)
    rw [Setup.install, Registry.extend_eq, Registry.find_addAll apart] at given
    exact given

theorem Backed.plugins (backed : setup.Backed) {entries : List (String × Plugin)} {next : Setup}
    (registered : setup.plugins entries = .ok next) : next.Backed := by
  rw [plugins_eq] at registered
  obtain ⟨checked, checks, same⟩ := bind_ok registered
  cases same
  have own : ∀ one ∈ checked, ∀ entry ∈ one.registry.byFragment,
      entry.1 ∈ one.fragments.map Fragment.name := by
    intro one member
    obtain ⟨entry, _, gave⟩ := exists_of_mem_mapM checks member
    rw [checkEntry] at gave
    split at gave
    · rename_i accepted valid
      cases gave
      exact Plugin.check_scopes valid
    · cases gave
  clear checks registered
  induction checked generalizing setup with
  | nil => exact backed
  | cons one checked induction =>
      apply induction (backed.install (own one List.mem_cons_self))
      exact fun other member => own other (List.mem_cons_of_mem _ member)

theorem Backed.step (backed : setup.Backed) {call : SetupStep} {next : Setup}
    (stepped : setup.step call = .ok next) : next.Backed := by
  cases call with
  | mount name store =>
      cases stepped
      exact backed
  | everyPageCss names =>
      obtain ⟨assets, _, same⟩ := bind_ok stepped
      cases same
      exact backed.contribute (assets.map .ofCss)
  | everyPageJs names =>
      obtain ⟨assets, _, same⟩ := bind_ok stepped
      cases same
      exact backed.contribute (assets.map .ofJs)
  | everyPageSources names =>
      obtain ⟨files, _, same⟩ := bind_ok stepped
      cases same
      exact backed
  | everyPageHooks hooks =>
      cases stepped
      exact backed.contribute (hooks.map .ofHook)
  | everyPageEnvironment functions =>
      cases stepped
      exact backed.contribute (functions.map .ofEnvironment)
  | plugins plugins => exact backed.plugins stepped

theorem Backed.build (backed : setup.Backed) {calls : List SetupStep} {built : Setup}
    (succeeded : setup.build calls = .ok built) : built.Backed := by
  induction calls generalizing setup with
  | nil =>
      cases succeeded
      exact backed
  | cons call calls induction =>
      obtain ⟨next, stepped, later⟩ := build_cons succeeded
      exact induction (backed.step stepped) later

end

/-- A list of plugins is registered on a site exactly if each of them is self-contained; else the
call fails as the first that is not is refused, with what it lacks first. To register them by one
call or each by a call of its own comes to the same, also where it fails. And whatever calls have
set the site up, once the plugins are registered it has contributions for no fragment that no plugin
brought. -/
theorem registration_exact (setup : Setup) (entries : List (String × Plugin)) :
    ((∃ built, setup.plugins entries = .ok built) ↔
      ∀ entry ∈ entries, entry.2.SelfContained) ∧
    (∀ error, setup.plugins entries = .error error ↔
      FirstFault (fun entry => entry.2.SelfContained) RefusesEntry entries error) ∧
    setup.plugins entries = setup.pluginsInTurn entries ∧
    ∀ main settings calls, (start main settings).build calls = .ok setup →
      ∀ built, setup.plugins entries = .ok built → built.Backed := by
  have decides := setup.plugins_decides entries
  refine ⟨decides.ok_iff entry_faults, decides.error_iff entry_faults, ?_, ?_⟩
  · exact setup.plugins_eq_inTurn entries
  · intro main settings calls reached built registered
    have backed := (backed_start main settings).build reached
    exact backed.plugins registered

/-- A plugin with a style sheet for a fragment that is defined inside a block. -/
def lantern : Plugin where
  name := "lantern"
  sources := [("lantern",
    "\x7b\x7b block \"frame\" \x7d\x7d\x7b\x7b define \"light\" \x7d\x7da\x7b\x7b end \x7d\x7d\x7b\x7b end \x7d\x7d")]
  assets := [("a.css", [0x61])]
  hooks := []
  components := [⟨"light", ["a.css"], [], [], []⟩]
  everyPageCss := []
  everyPageJs := []
  everyPageHooks := []
  environment := []
  everyPageFragments := ["frame"]

def snuffed : Plugin :=
  { lantern with name := "snuffed", assets := [] }

theorem lantern_declares : ∃ source ∈ lantern.sources,
    (∃ body, Language.parse source.2 = .ok body) ∧
    Plugin.SourceDeclares source "frame" ∧ Plugin.SourceDeclares source "light" := by
  refine ⟨_, List.mem_cons_self, ?_⟩
  have names : (Language.parse (lantern.sources.head (by decide)).2).toOption.map
      Fragment.definedIn = some ["frame", "light"] := by decide +kernel
  obtain ⟨body, parsed, defined⟩ := Option.map_eq_some_iff.mp names
  have read := eq_ok_of_toOption parsed
  refine ⟨⟨body, read⟩, ⟨body, read, ?_⟩, ⟨body, read, ?_⟩⟩ <;> simp [defined]

theorem lantern_selfContained : lantern.SelfContained := by
  obtain ⟨source, listed, parsed, frame, light⟩ := lantern_declares
  obtain rfl := List.mem_singleton.mp listed
  intro need member
  rcases member with _ | ⟨_, _ | ⟨_, _ | ⟨_, _ | ⟨_, member⟩⟩⟩⟩
  · exact parsed
  · exact ⟨_, listed, light⟩
  · exact List.mem_cons_self
  · exact ⟨_, listed, frame⟩
  · cases member

theorem snuffed_refused : snuffed.Refused (.unknownAsset "snuffed" "a.css") := by
  obtain ⟨source, listed, parsed, _, light⟩ := lantern_declares
  obtain rfl := List.mem_singleton.mp listed
  refine ⟨[.source _ _, .fragment "light"], .asset "a.css", [.fragment "frame"], rfl, ?_, ?_, rfl⟩
  · intro need member
    rcases member with _ | ⟨_, _ | ⟨_, member⟩⟩
    · exact parsed
    · exact ⟨_, listed, light⟩
    · cases member
  · exact List.not_mem_nil

theorem lantern_registered :
    ∃ setup, (start MemoryStore.empty.toStore Settings.standard).build
        [.plugins [("one", lantern)]] = .ok setup ∧
      (∃ built, setup.plugins [("two", lantern)] = .ok built ∧ built.Backed) ∧
      setup.plugins [("two", lantern), ("three", snuffed)] =
        .error (.plugin (.unknownAsset "snuffed" "a.css")) := by
  have all (id : String) : ∀ entry ∈ [(id, lantern)], entry.2.SelfContained := by
    intro entry member
    obtain rfl := List.mem_singleton.mp member
    exact lantern_selfContained
  have first := (start MemoryStore.empty.toStore Settings.standard).plugins_decides
    [("one", lantern)]
  obtain ⟨setup, registered⟩ := (first.ok_iff entry_faults).mpr (all "one")
  have reached : (start MemoryStore.empty.toStore Settings.standard).build
      [.plugins [("one", lantern)]] = .ok setup := by
    rw [build, step, registered]
    rfl
  obtain ⟨accepted, _, _, backed⟩ := registration_exact setup [("two", lantern)]
  obtain ⟨_, refused, _, _⟩ := registration_exact setup [("two", lantern), ("three", snuffed)]
  obtain ⟨built, again⟩ := accepted.mpr (all "two")
  have served := backed _ _ _ reached built again
  refine ⟨setup, reached, ⟨built, again, served⟩, (refused _).mpr ?_⟩
  exact ⟨[("two", lantern)], ("three", snuffed), [], rfl, all "two", _, snuffed_refused, rfl⟩

end Setup

end PageAssembly
