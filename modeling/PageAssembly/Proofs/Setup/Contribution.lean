import PageAssembly.Proofs.Fragment.Collection
import PageAssembly.Setup.Plugin

/-!
What a registry has for a scope, and what a plugin brings that has something only for its own
fragments. That the fragment of every component is one of the plugin is checked when the plugin is
registered, so such a plugin contributes to no other fragment and to no page as a whole.
-/

namespace PageAssembly

section

variable {ε α β : Type}

theorem bind_ok {read : Except ε α} {next : α → Except ε β} {result : β}
    (succeeded : read >>= next = .ok result) : ∃ item, read = .ok item ∧ next item = .ok result := by
  cases read with
  | error error => cases succeeded
  | ok item => exact ⟨item, rfl, succeeded⟩

theorem eq_ok_of_toOption {read : Except ε α} {item : α}
    (found : read.toOption = some item) : read = .ok item := by
  cases read with
  | error error => cases found
  | ok item =>
      cases found
      rfl

theorem exists_ok_of_toBool {read : Except ε α} (succeeds : read.toBool = true) :
    ∃ item, read = .ok item := by
  cases read with
  | error error => cases succeeds
  | ok item => exact ⟨item, rfl⟩

theorem mapM_congr {one other : α → Except ε β} {items : List α}
    (same : ∀ item ∈ items, one item = other item) : items.mapM one = items.mapM other := by
  induction items with
  | nil => rfl
  | cons item items induction =>
      rw [List.mapM_cons, List.mapM_cons, same item List.mem_cons_self,
        induction fun later member => same later (List.mem_cons_of_mem _ member)]

theorem mapM_cons_eq_ok_iff {read : α → Except ε β} {item : α} {items : List α}
    {results : List β} :
    (item :: items).mapM read = .ok results ↔ ∃ first later, read item = .ok first ∧
      items.mapM read = .ok later ∧ results = first :: later := by
  rw [List.mapM_cons]
  constructor
  · intro succeeded
    obtain ⟨first, given, rest⟩ := bind_ok succeeded
    obtain ⟨later, givenLater, same⟩ := bind_ok rest
    cases same
    exact ⟨first, later, given, givenLater, rfl⟩
  · rintro ⟨first, later, given, givenLater, rfl⟩
    rw [given, givenLater]
    rfl

theorem mapM_perm {read : α → Except ε β} {items reordered : List α} {results : List β}
    (perm : items.Perm reordered) (succeeded : items.mapM read = .ok results) :
    ∃ permuted, reordered.mapM read = .ok permuted ∧ results.Perm permuted := by
  induction perm generalizing results with
  | nil => exact ⟨results, succeeded, .rfl⟩
  | cons item _ induction =>
      obtain ⟨first, later, given, rest, rfl⟩ := mapM_cons_eq_ok_iff.mp succeeded
      obtain ⟨permuted, read, same⟩ := induction rest
      exact ⟨first :: permuted, mapM_cons_eq_ok_iff.mpr ⟨first, permuted, given, read, rfl⟩,
        same.cons first⟩
  | swap one other items =>
      obtain ⟨first, _, given, further, rfl⟩ := mapM_cons_eq_ok_iff.mp succeeded
      obtain ⟨second, later, also, rest, rfl⟩ := mapM_cons_eq_ok_iff.mp further
      have swapped := mapM_cons_eq_ok_iff.mpr ⟨first, later, given, rest, rfl⟩
      exact ⟨second :: first :: later,
        mapM_cons_eq_ok_iff.mpr ⟨second, first :: later, also, swapped, rfl⟩,
        .swap second first later⟩
  | trans _ _ one other =>
      obtain ⟨between, read, same⟩ := one succeeded
      obtain ⟨permuted, readAll, also⟩ := other read
      exact ⟨permuted, readAll, same.trans also⟩

/-- What can be said of each result by what it was read from is said of all of them. -/
theorem map_of_mapM {γ : Type} {read : α → Except ε β} {items : List α} {results : List β}
    (succeeded : items.mapM read = .ok results) {part : β → γ} {known : α → γ}
    (same : ∀ item result, read item = .ok result → part result = known item) :
    results.map part = items.map known := by
  induction items generalizing results with
  | nil =>
      cases succeeded
      rfl
  | cons item items induction =>
      obtain ⟨first, later, given, givenLater, rfl⟩ := mapM_cons_eq_ok_iff.mp succeeded
      rw [List.map_cons, List.map_cons, same item first given, induction givenLater]

theorem exists_of_mem_mapM {read : α → Except ε β} {items : List α} {results : List β}
    (succeeded : items.mapM read = .ok results) {result : β} (member : result ∈ results) :
    ∃ item ∈ items, read item = .ok result := by
  induction items generalizing results with
  | nil =>
      cases succeeded
      cases member
  | cons item items induction =>
      obtain ⟨first, later, read, readLater, rfl⟩ := mapM_cons_eq_ok_iff.mp succeeded
      rcases List.mem_cons.mp member with rfl | among
      · exact ⟨item, List.mem_cons_self, read⟩
      · obtain ⟨source, listed, gave⟩ := induction readLater among
        exact ⟨source, List.mem_cons_of_mem _ listed, gave⟩

theorem exists_of_mapM {read : α → Except ε β} {items : List α} {results : List β}
    (succeeded : items.mapM read = .ok results) {item : α} (member : item ∈ items) :
    ∃ result ∈ results, read item = .ok result := by
  induction items generalizing results with
  | nil => cases member
  | cons first items induction =>
      obtain ⟨result, later, read, readLater, rfl⟩ := mapM_cons_eq_ok_iff.mp succeeded
      rcases List.mem_cons.mp member with rfl | among
      · exact ⟨result, List.mem_cons_self, read⟩
      · obtain ⟨other, listed, gave⟩ := induction readLater among
        exact ⟨other, List.mem_cons_of_mem _ listed, gave⟩

end

@[simp]
theorem Contributions.append_none (contributions : Contributions) :
    contributions.append .none = contributions := by
  simp [append, none]

namespace Registry

theorem find_add (registry : Registry) (scope other : Scope) (contributions : Contributions) :
    (registry.add scope contributions).find other =
      if scope = other then (registry.find other).append contributions
      else registry.find other := by
  cases scope with
  | everyPage => cases other <;> simp [add, find]
  | fragment name =>
      cases other with
      | everyPage => simp [add, find]
      | fragment asked =>
          by_cases same : name = asked
          · simp [add, find, Table.get?_put, same]
          · simp [add, find, Table.get?_put, same]

def addAll (registry : Registry) (parts : List (Scope × Contributions)) : Registry :=
  parts.foldl (fun registry part => registry.add part.1 part.2) registry

theorem find_addAll {parts : List (Scope × Contributions)} {scope : Scope}
    (others : ∀ part ∈ parts, part.1 ≠ scope) (registry : Registry) :
    (registry.addAll parts).find scope = registry.find scope := by
  induction parts generalizing registry with
  | nil => rfl
  | cons part parts induction =>
      have rest := induction (fun later member => others later (List.mem_cons_of_mem _ member))
        (registry.add part.1 part.2)
      rw [find_add, if_neg (others part List.mem_cons_self)] at rest
      exact rest

theorem find_addAll_congr {one other : Registry} {scope : Scope}
    (same : one.find scope = other.find scope) (parts : List (Scope × Contributions)) :
    (one.addAll parts).find scope = (other.addAll parts).find scope := by
  induction parts generalizing one other with
  | nil => exact same
  | cons part parts induction =>
      apply induction
      rw [find_add, find_add, same]

theorem byFragment_addAll {wanted : String → Prop} {parts : List (Scope × Contributions)}
    (all : ∀ part ∈ parts, ∀ name, part.1 = .fragment name → wanted name) {registry : Registry}
    (before : ∀ entry ∈ registry.byFragment, wanted entry.1) :
    ∀ entry ∈ (registry.addAll parts).byFragment, wanted entry.1 := by
  induction parts generalizing registry with
  | nil => exact before
  | cons part parts induction =>
      apply induction fun later member => all later (List.mem_cons_of_mem _ member)
      obtain ⟨scope, contributions⟩ := part
      cases scope with
      | everyPage => exact before
      | fragment name =>
          intro entry member
          rcases Table.mem_put member with rfl | earlier
          · exact all _ List.mem_cons_self name rfl
          · exact before entry earlier

def parts (registry : Registry) : List (Scope × Contributions) :=
  (.everyPage, registry.everyPage) ::
    registry.byFragment.map fun entry => (.fragment entry.1, entry.2)

theorem extend_eq (registry other : Registry) :
    registry.extend other = registry.addAll other.parts := by
  rw [extend, addAll, parts, List.foldl_cons, List.foldl_map]

/-- A registry with nothing for every page and for this scope leaves the scope as it is. -/
theorem find_extend {other : Registry} {scope : Scope} (everyPage : other.everyPage = .none)
    (others : ∀ entry ∈ other.byFragment, .fragment entry.1 ≠ scope) (registry : Registry) :
    (registry.extend other).find scope = registry.find scope := by
  have apart : ∀ part ∈ other.byFragment.map fun entry => (Scope.fragment entry.1, entry.2),
      part.1 ≠ scope := by
    intro part member
    obtain ⟨entry, listed, rfl⟩ := List.mem_map.mp member
    exact others entry listed
  have extended : registry.extend other = (registry.add .everyPage other.everyPage).addAll
      (other.byFragment.map fun entry => (.fragment entry.1, entry.2)) := registry.extend_eq other
  rw [extended, find_addAll apart, find_add, everyPage, Contributions.append_none, ite_self]

end Registry

namespace Plugin

structure Confined (plugin : Plugin) : Prop where
  css : plugin.everyPageCss = []
  js : plugin.everyPageJs = []
  hooks : plugin.everyPageHooks = []
  environment : plugin.environment = []
  fragments : plugin.everyPageFragments = []

/-- The sources of the plugin have a fragment of this name. -/
def Declares (plugin : Plugin) (name : String) : Prop :=
  ∃ fragments, plugin.fragments = .ok fragments ∧ name ∈ fragments.map Fragment.name

theorem fragment_name {plugin : Plugin} {fragments : List Fragment} {name : String}
    {fragment : Fragment} (known : plugin.fragment fragments name = .ok fragment) :
    name ∈ fragments.map Fragment.name := by
  rw [Plugin.fragment] at known
  split at known
  · rename_i found listed
    have same : found.name = name := by simpa using List.find?_some listed
    exact List.mem_map.mpr ⟨found, List.mem_reverse.mp (List.mem_of_find?_eq_some listed), same⟩
  · cases known

section

variable {plugin : Plugin} {marker : Marker} {id : String}

theorem component_ok {fragments : List Fragment} {one : Component} {part : Scope × Contributions}
    (found : plugin.component marker id fragments one = .ok part) :
    one.fragment ∈ fragments.map Fragment.name ∧ part.1 = .fragment one.fragment ∧
      plugin.contributions marker id one.css one.js one.hooks one.environment = .ok part.2 := by
  obtain ⟨_, known, rest⟩ := bind_ok found
  obtain ⟨contributions, named, same⟩ := bind_ok rest
  cases same
  exact ⟨fragment_name known, rfl, named⟩

/-- What was found in a plugin that was checked, and what was made of it. -/
structure Checks (plugin : Plugin) (marker : Marker) (id : String) (everyPage : Contributions)
    (perFragment : List (Scope × Contributions)) (checked : CheckedPlugin) : Prop where
  id_eq : checked.id = id
  store_eq : checked.store = MemoryStore.ofList plugin.assets
  fragments : plugin.fragments = .ok checked.fragments
  contributed : plugin.contributions marker id plugin.everyPageCss plugin.everyPageJs
    plugin.everyPageHooks plugin.environment = .ok everyPage
  components : plugin.components.mapM (plugin.component marker id checked.fragments) =
    .ok perFragment
  everyPageFragments : plugin.everyPageFragments.mapM (plugin.fragment checked.fragments) =
    .ok checked.everyPageFragments
  registry_eq : checked.registry = (Registry.empty.add .everyPage everyPage).addAll perFragment

theorem check_ok {checked : CheckedPlugin} (valid : plugin.check marker id = .ok checked) :
    ∃ everyPage perFragment, plugin.Checks marker id everyPage perFragment checked := by
  obtain ⟨fragments, parsed, rest⟩ := bind_ok valid
  obtain ⟨everyPage, contributed, rest⟩ := bind_ok rest
  obtain ⟨perFragment, components, rest⟩ := bind_ok rest
  obtain ⟨everyPageFragments, known, same⟩ := bind_ok rest
  cases same
  exact ⟨everyPage, perFragment, rfl, rfl, parsed, contributed, components, known, rfl⟩

theorem Checks.scope {everyPage : Contributions} {perFragment : List (Scope × Contributions)}
    {checked : CheckedPlugin} (checks : plugin.Checks marker id everyPage perFragment checked)
    {part : Scope × Contributions} (member : part ∈ perFragment) :
    ∃ name ∈ checked.fragments.map Fragment.name, part.1 = .fragment name := by
  obtain ⟨one, _, gave⟩ := exists_of_mem_mapM checks.components member
  obtain ⟨known, scope, _⟩ := component_ok gave
  exact ⟨one.fragment, known, scope⟩

/-- A checked plugin has something for its own fragments only, apart from what goes to every page.
-/
theorem check_scopes {checked : CheckedPlugin} (valid : plugin.check marker id = .ok checked) :
    ∀ entry ∈ checked.registry.byFragment, entry.1 ∈ checked.fragments.map Fragment.name := by
  obtain ⟨everyPage, perFragment, checks⟩ := check_ok valid
  rw [checks.registry_eq]
  apply Registry.byFragment_addAll
  · intro part member name own
    obtain ⟨declared, listed, same⟩ := checks.scope member
    rw [own] at same
    cases same
    exact listed
  · intro entry member
    cases member

end

end Plugin

structure CheckedPlugin.Confined (checked : CheckedPlugin) (plugin : Plugin) (id : String) :
    Prop where
  id_eq : checked.id = id
  fragments : plugin.fragments = .ok checked.fragments
  everyPageFragments : checked.everyPageFragments = []
  everyPage : checked.registry.everyPage = .none
  byFragment : ∀ entry ∈ checked.registry.byFragment, plugin.Declares entry.1

namespace Plugin

theorem Confined.check {plugin : Plugin} {marker : Marker} {id : String} {checked : CheckedPlugin}
    (confined : plugin.Confined) (valid : plugin.check marker id = .ok checked) :
    checked.Confined plugin id := by
  obtain ⟨everyPage, perFragment, checks⟩ := check_ok valid
  have nothing := checks.contributed
  rw [confined.css, confined.js, confined.hooks, confined.environment] at nothing
  cases nothing
  have unnamed := checks.everyPageFragments
  rw [confined.fragments] at unnamed
  constructor
  · exact checks.id_eq
  · exact checks.fragments
  · exact (Except.ok.inj unnamed).symm
  · have apart : ∀ part ∈ perFragment, part.1 ≠ .everyPage := by
      intro part member
      obtain ⟨name, _, same⟩ := checks.scope member
      simp [same]
    rw [checks.registry_eq]
    exact Registry.find_addAll apart _
  · intro entry member
    exact ⟨checked.fragments, checks.fragments, check_scopes valid entry member⟩

end Plugin

end PageAssembly
