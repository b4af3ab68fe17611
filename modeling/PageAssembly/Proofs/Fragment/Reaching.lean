import Mathlib.Data.List.Nodup
import PageAssembly.Proofs.Fragment.Discovery

/-!
A closure lists what can be reached from its root, each fragment once and nothing else, and it fails
only where a name that can be reached is not defined. The search for it ends on every set of
fragments, since each of its passes takes an invocation from the queue and adds others only for a
name that is new.
-/

namespace PageAssembly.Closure

abbrev Reachable (look : String → Option Fragment) (root name : String) : Prop :=
  Relation.ReflTransGen (Invokes look) root name

/-- The fragments of all names that can be reached from a root: the root first, and each once. -/
structure Lists (look : String → Option Fragment) (root : String) (found : List Fragment) :
    Prop where
  root_first : found.head? = look root
  names : ∀ name, name ∈ found.map Fragment.name ↔ Reachable look root name
  once : (found.map Fragment.name).Nodup
  looked_up : ∀ fragment ∈ found, look fragment.name = some fragment

structure Progress where
  visited : List String
  queue : List (String × String)
  found : List Fragment

namespace Progress

def start (root : String) (fragment : Fragment) : Progress :=
  ⟨[root], fragment.invocations.map fun target => (target, root), [fragment]⟩

/-- One pass takes the first invocation from the queue. A name that is new adds its fragment, and
the invocations in it to the queue. -/
inductive Passes (look : String → Option Fragment) : Progress → Progress → Prop where
  | known {visited : List String} {name referrer : String} {queue : List (String × String)}
      {found : List Fragment} (known : name ∈ visited) :
      Passes look ⟨visited, (name, referrer) :: queue, found⟩ ⟨visited, queue, found⟩
  | fresh {visited : List String} {name referrer : String} {queue : List (String × String)}
      {found : List Fragment} {fragment : Fragment} (fresh : name ∉ visited)
      (defined : look name = some fragment) :
      Passes look ⟨visited, (name, referrer) :: queue, found⟩
        ⟨name :: visited, queue ++ fragment.invocations.map fun target => (target, name),
          found ++ [fragment]⟩

/-- The loop ends with an empty queue, or at a new name that is not defined. -/
inductive Ends (look : String → Option Fragment) :
    Progress → Except ClosureError (List Fragment) → Prop where
  | complete {visited : List String} {found : List Fragment} :
      Ends look ⟨visited, [], found⟩ (.ok found)
  | missing {visited : List String} {name referrer : String} {queue : List (String × String)}
      {found : List Fragment} (fresh : name ∉ visited) (undefined : look name = none) :
      Ends look ⟨visited, (name, referrer) :: queue, found⟩ (.error (.missing name referrer))

/-- From here the loop ends, after finitely many passes, with this result. -/
def Terminates (look : String → Option Fragment) (progress : Progress)
    (result : Except ClosureError (List Fragment)) : Prop :=
  ∃ last, Relation.ReflTransGen (Passes look) progress last ∧ Ends look last result

theorem Passes.terminates {look : String → Option Fragment} {progress next : Progress}
    {result : Except ClosureError (List Fragment)} (pass : Passes look progress next)
    (terminates : Terminates look next result) : Terminates look progress result := by
  obtain ⟨last, passes, ends⟩ := terminates
  exact ⟨last, passes.head pass, ends⟩

end Progress

theorem search_terminates (layers : List FragmentSet) (visited : List String)
    (queue : List (String × String)) (found : List Fragment) :
    Progress.Terminates (find? layers) ⟨visited, queue, found⟩
      (search layers visited queue found) := by
  fun_induction search layers visited queue found with
  | case1 visited found => exact ⟨_, .refl, .complete⟩
  | case2 visited found name referrer queue known induction =>
      exact (Progress.Passes.known known).terminates induction
  | case3 visited found name referrer queue fresh undefined =>
      exact ⟨_, .refl, .missing fresh undefined⟩
  | case4 visited found name referrer queue fresh fragment defined induction =>
      exact (Progress.Passes.fresh fresh defined).terminates induction

theorem closure_terminates {layers : List FragmentSet} {root : String} {fragment : Fragment}
    (defined : find? layers root = some fragment) :
    (Progress.start root fragment).Terminates (find? layers) (closure layers root) := by
  rw [closure, defined]
  exact search_terminates layers _ _ _

section

variable {look : String → Option Fragment} {root name : String} {found : List Fragment}

theorem fresh_of_next (next : nextName? found = some name) : name ∉ found.map Fragment.name := by
  simpa using List.find?_some next

theorem invoked_of_next (next : nextName? found = some name) :
    ∃ fragment ∈ found, name ∈ fragment.invocations :=
  List.mem_flatMap.mp (List.mem_of_find?_eq_some next)

theorem Discovered.root_first (discovered : Discovered look root found) :
    found.head? = look root := by
  induction discovered with
  | root defined => exact defined.symm
  | @next found _ fragment earlier _ _ induction =>
      rw [List.head?_append, List.head?_eq_some_head earlier.nonempty, Option.some_or,
        ← List.head?_eq_some_head earlier.nonempty, induction]

theorem Discovered.once (named : Named look) (discovered : Discovered look root found) :
    (found.map Fragment.name).Nodup := by
  induction discovered with
  | root => exact List.nodup_singleton _
  | next _ next defined induction =>
      rw [List.map_append, List.map_singleton, named defined]
      exact induction.append (List.nodup_singleton _)
        (List.disjoint_singleton.mpr (fresh_of_next next))

theorem Discovered.reachable (named : Named look) (discovered : Discovered look root found)
    (listed : name ∈ found.map Fragment.name) : Reachable look root name := by
  induction discovered generalizing name with
  | root defined =>
      rw [List.map_singleton, List.mem_singleton, named defined] at listed
      exact listed ▸ .refl
  | next earlier next defined induction =>
      rw [List.map_append, List.mem_append, List.map_singleton, List.mem_singleton,
        named defined] at listed
      rcases listed with before | rfl
      · exact induction before
      · obtain ⟨referrer, member, invoked⟩ := invoked_of_next next
        exact (induction (List.mem_map_of_mem member)).tail
          ⟨referrer, earlier.look_eq named member, invoked⟩

theorem Discovered.lists (named : Named look) (discovered : Discovered look root found)
    (finished : nextName? found = none) : Lists look root found where
  root_first := discovered.root_first
  names _ := ⟨discovered.reachable named, discovered.mem_of_reached named finished⟩
  once := discovered.once named
  looked_up _ member := discovered.look_eq named member

theorem Concludes.missing_reachable (named : Named look) {referrer : String}
    (concludes : Concludes look root (.error (.missing name referrer))) :
    look name = none ∧ Reachable look root referrer ∧ Invokes look referrer name := by
  cases concludes with
  | @missing found _ fragment discovered _ undefined invoked =>
      have member := List.mem_of_find?_eq_some invoked
      refine ⟨undefined, discovered.reachable named (List.mem_map_of_mem member), fragment,
        discovered.look_eq named member, ?_⟩
      simpa using List.find?_some invoked

theorem Concludes.error_reachable (named : Named look) {error : ClosureError}
    (concludes : Concludes look root (.error error)) :
    ∃ name, Reachable look root name ∧ look name = none := by
  cases error with
  | missingRoot =>
      cases concludes with
      | missingRoot undefined => exact ⟨root, .refl, undefined⟩
  | missing name referrer =>
      obtain ⟨undefined, reachable, invokes⟩ := concludes.missing_reachable named
      exact ⟨name, reachable.tail invokes, undefined⟩

theorem Concludes.lists (named : Named look) (concludes : Concludes look root (.ok found)) :
    Lists look root found := by
  cases concludes with
  | complete discovered finished => exact discovered.lists named finished

theorem Lists.defined (lists : Lists look root found) (reachable : Reachable look root name) :
    ∃ fragment, look name = some fragment := by
  obtain ⟨fragment, member, rfl⟩ := List.mem_map.mp ((lists.names name).mpr reachable)
  exact ⟨fragment, lists.looked_up fragment member⟩

end

/-- A closure is found in finitely many passes. It fails for the root exactly if this is not
defined, and succeeds exactly if all that can be reached is defined; then it lists what can be
reached. A name that it reports as missing is invoked by a fragment that can be reached. -/
theorem closure_exact (layers : List FragmentSet) (root : String) :
    (∀ fragment, find? layers root = some fragment →
      (Progress.start root fragment).Terminates (find? layers) (closure layers root)) ∧
    (∀ name, closure layers root = .error (.missingRoot name) ↔
      name = root ∧ find? layers root = none) ∧
    ((∃ found, closure layers root = .ok found) ↔
      ∀ name, Reachable (find? layers) root name → ∃ fragment, find? layers name = some fragment) ∧
    (∀ found, closure layers root = .ok found → Lists (find? layers) root found) ∧
    (∀ name referrer, closure layers root = .error (.missing name referrer) →
      find? layers name = none ∧ Reachable (find? layers) root referrer ∧
        Invokes (find? layers) referrer name) := by
  have named : Named (find? layers) := find?_named layers
  have concludes := closure_concludes layers root
  refine ⟨fun _ => closure_terminates, ?_, ?_, ?_, ?_⟩
  · intro name
    rw [closure_eq_iff]
    constructor
    · rintro ⟨undefined⟩
      exact ⟨rfl, undefined⟩
    · rintro ⟨rfl, undefined⟩
      exact .missingRoot undefined
  · constructor
    · rintro ⟨found, succeeded⟩ name reachable
      rw [succeeded] at concludes
      exact (concludes.lists named).defined reachable
    · intro defined
      rcases ended : closure layers root with error | found
      · rw [ended] at concludes
        obtain ⟨name, reachable, undefined⟩ := concludes.error_reachable named
        obtain ⟨fragment, found⟩ := defined name reachable
        rw [undefined] at found
        cases found
      · exact ⟨found, rfl⟩
  · intro found succeeded
    rw [succeeded] at concludes
    exact concludes.lists named
  · intro name referrer failed
    rw [failed] at concludes
    exact concludes.missing_reachable named

def stray : Fragment :=
  ⟨"stray", [.invoke ⟨0, 0⟩ "gone" none]⟩

/-- A page whose main fragment is invoked again by a component. -/
def recurring : List FragmentSet :=
  [FragmentSet.empty.insert ⟨"main", [.invoke ⟨0, 0⟩ "part" none, .invoke ⟨0, 0⟩ "main" none]⟩,
    FragmentSet.empty.insertAll
      [⟨"part", [.block ⟨0, 0⟩ "main" none [], .invoke ⟨0, 0⟩ "leaf" none]⟩, ⟨"leaf", []⟩, stray]]

theorem recurring_exact :
    (∃ found, closure recurring "main" = .ok found ∧ Lists (find? recurring) "main" found) ∧
    closure recurring "stray" = .error (.missing "gone" "stray") ∧
    find? recurring "gone" = none ∧ Reachable (find? recurring) "stray" "stray" ∧
      Invokes (find? recurring) "stray" "gone" ∧
    (Progress.start "stray" stray).Terminates (find? recurring) (closure recurring "stray") := by
  obtain ⟨found, succeeded⟩ : ∃ found, closure recurring "main" = .ok found :=
    ⟨_, closure_eq_iff.mpr (.complete (.next (.next (.root rfl) rfl rfl) rfl rfl) rfl)⟩
  have failed : closure recurring "stray" = .error (.missing "gone" stray.name) :=
    closure_eq_iff.mpr (.missing (.root rfl) rfl rfl rfl)
  obtain ⟨undefined, reachable, invokes⟩ :=
    (closure_exact recurring "stray").2.2.2.2 "gone" "stray" failed
  exact ⟨⟨found, succeeded, (closure_exact recurring "main").2.2.2.1 found succeeded⟩, failed,
    undefined, reachable, invokes, (closure_exact recurring "stray").1 stray rfl⟩

end PageAssembly.Closure
