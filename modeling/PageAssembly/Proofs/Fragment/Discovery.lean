import Mathlib.Logic.Relation
import PageAssembly.Fragment.Closure
import PageAssembly.Proofs.Fragment.Collection

/-!
The order in which a closure lists its fragments. After the root comes, again and again, the first
name that the fragments listed so far invoke and that none of them has. A search ends when there is
no such name, or when such a name is not defined. These rules leave no choice, so they say exactly
what a closure is.
-/

namespace PageAssembly.Closure

/-- The first name that the fragments invoke, in their order, and that none of them has. -/
def nextName? (found : List Fragment) : Option String :=
  (found.flatMap Fragment.invocations).find? fun name => name ∉ found.map Fragment.name

/-- The lists of fragments that a search from a root goes through. -/
inductive Discovered (look : String → Option Fragment) (root : String) : List Fragment → Prop where
  | root {fragment : Fragment} (defined : look root = some fragment) :
      Discovered look root [fragment]
  | next {found : List Fragment} {name : String} {fragment : Fragment}
      (earlier : Discovered look root found) (next : nextName? found = some name)
      (defined : look name = some fragment) : Discovered look root (found ++ [fragment])

/-- How a search from a root ends. A name that is missing is reported with the first fragment that
invokes it. -/
inductive Concludes (look : String → Option Fragment) (root : String) :
    Except ClosureError (List Fragment) → Prop where
  | missingRoot (undefined : look root = none) : Concludes look root (.error (.missingRoot root))
  | missing {found : List Fragment} {name : String} {referrer : Fragment}
      (discovered : Discovered look root found) (next : nextName? found = some name)
      (undefined : look name = none)
      (invoked : (found.find? fun fragment => name ∈ fragment.invocations) = some referrer) :
      Concludes look root (.error (.missing name referrer.name))
  | complete {found : List Fragment} (discovered : Discovered look root found)
      (finished : nextName? found = none) : Concludes look root (.ok found)

/-- Looking up a name gives a fragment of that name. -/
def Named (look : String → Option Fragment) : Prop :=
  ∀ {name : String} {fragment : Fragment}, look name = some fragment → fragment.name = name

theorem find?_named (layers : List FragmentSet) : Named (find? layers) := by
  intro name fragment found
  obtain ⟨layer, _, stored⟩ := List.exists_of_findSome?_eq_some found
  exact FragmentSet.name_of_find? stored

/-- The fragment of one name invokes the other name. -/
def Invokes (look : String → Option Fragment) (name target : String) : Prop :=
  ∃ fragment, look name = some fragment ∧ target ∈ fragment.invocations

theorem mem_of_no_next {found : List Fragment} (finished : nextName? found = none)
    {fragment : Fragment} (member : fragment ∈ found) {target : String}
    (invoked : target ∈ fragment.invocations) : target ∈ found.map Fragment.name := by
  have listed := List.find?_eq_none.mp finished target
    (List.mem_flatMap.mpr ⟨fragment, member, invoked⟩)
  simpa using listed

section

variable {look : String → Option Fragment} {root : String} {found : List Fragment}

theorem Discovered.root_mem (named : Named look) (discovered : Discovered look root found) :
    root ∈ found.map Fragment.name := by
  induction discovered with
  | root defined => simp [named defined]
  | next _ _ _ induction => simpa using Or.inl (by simpa using induction)

theorem Discovered.look_eq (named : Named look) (discovered : Discovered look root found)
    {fragment : Fragment} (member : fragment ∈ found) : look fragment.name = some fragment := by
  induction discovered with
  | root defined =>
      rw [List.mem_singleton.mp member, named defined]
      exact defined
  | next _ _ defined induction =>
      rcases List.mem_append.mp member with earlier | last
      · exact induction earlier
      · rw [List.mem_singleton.mp last, named defined]
        exact defined

theorem Discovered.look_of_mem (named : Named look) (discovered : Discovered look root found)
    {name : String} (listed : name ∈ found.map Fragment.name) :
    ∃ fragment ∈ found, look name = some fragment := by
  obtain ⟨fragment, member, rfl⟩ := List.mem_map.mp listed
  exact ⟨fragment, member, discovered.look_eq named member⟩

theorem Discovered.mem_of_reached (named : Named look) (discovered : Discovered look root found)
    (finished : nextName? found = none) {name : String}
    (reached : Relation.ReflTransGen (Invokes look) root name) :
    name ∈ found.map Fragment.name := by
  induction reached with
  | refl => exact discovered.root_mem named
  | tail _ invoked induction =>
      obtain ⟨fragment, defined, target⟩ := invoked
      obtain ⟨listed, member, also⟩ := discovered.look_of_mem named induction
      rw [defined] at also
      cases also
      exact mem_of_no_next finished member target

theorem Discovered.mono {other : String → Option Fragment}
    (discovered : Discovered look root found)
    (more : ∀ name, ∀ fragment ∈ found, look name = some fragment → other name = some fragment) :
    Discovered other root found := by
  induction discovered with
  | root defined => exact .root (more _ _ List.mem_cons_self defined)
  | next _ next defined induction =>
      have earlier := induction fun name fragment member =>
        more name fragment (List.mem_append_left _ member)
      exact .next earlier next (more _ _ (List.mem_append_right _ List.mem_cons_self) defined)

theorem Discovered.nonempty (discovered : Discovered look root found) : found ≠ [] := by
  cases discovered <;> simp

/-- A search that has come to `found` and goes on to `later` takes the next name in between. -/
theorem Discovered.next_of_prefix {later : List Fragment} (discovered : Discovered look root found)
    (further : Discovered look root later) (initial : found <+: later) :
    found = later ∨ ∃ name fragment, nextName? found = some name ∧ look name = some fragment ∧
      found ++ [fragment] <+: later := by
  induction further with
  | root defined =>
      rcases List.prefix_cons_iff.mp initial with nothing | ⟨rest, same, empty⟩
      · exact absurd nothing discovered.nonempty
      · exact Or.inl (by rw [same, List.prefix_nil.mp empty])
  | @next earlier name fragment _ next defined induction =>
      rcases List.prefix_concat_iff.mp initial with same | shorter
      · exact Or.inl same
      · refine Or.inr ?_
        rcases induction shorter with rfl | ⟨name, fragment, next, defined, extended⟩
        · exact ⟨name, fragment, next, defined, List.prefix_rfl⟩
        · exact ⟨name, fragment, next, defined, extended.trans (List.prefix_append _ _)⟩

def Stuck (look : String → Option Fragment) (found : List Fragment) : Prop :=
  ∀ name, nextName? found = some name → look name = none

theorem stuck_of_finished (finished : nextName? found = none) : Stuck look found := by
  intro name next
  rw [finished] at next
  cases next

theorem stuck_of_undefined {name : String} (next : nextName? found = some name)
    (undefined : look name = none) : Stuck look found := by
  intro other also
  rw [next] at also
  cases also
  exact undefined

theorem Discovered.prefix_of_stuck {later : List Fragment} (discovered : Discovered look root found)
    (further : Discovered look root later) (stuck : Stuck look later) : found <+: later := by
  -- a search that goes on from an initial part of another takes the step that the other took
  induction discovered with
  | root defined =>
      clear stuck
      induction further with
      | root again =>
          rw [defined] at again
          cases again
          exact List.prefix_rfl
      | next _ _ _ induction => exact induction.trans (List.prefix_append _ _)
  | next earlier next defined induction =>
      rcases earlier.next_of_prefix further induction with rfl | ⟨name, other, also, found, extended⟩
      · rw [stuck _ next] at defined
        cases defined
      · rw [next] at also
        cases also
        rw [defined] at found
        cases found
        exact extended

theorem Discovered.eq_of_stuck {other : List Fragment} (discovered : Discovered look root found)
    (again : Discovered look root other) (stuck : Stuck look found) (stuckAgain : Stuck look other) :
    found = other := by
  have first := discovered.prefix_of_stuck again stuckAgain
  have second := again.prefix_of_stuck discovered stuck
  exact first.eq_of_length_le second.length_le

theorem Discovered.root_defined (discovered : Discovered look root found) : look root ≠ none := by
  induction discovered with
  | root defined => simp [defined]
  | next _ _ _ induction => exact induction

theorem Concludes.unique {left right : Except ClosureError (List Fragment)}
    (one : Concludes look root left) (other : Concludes look root right) : left = right := by
  cases one with
  | missingRoot undefined =>
      cases other with
      | missingRoot => rfl
      | missing discovered => exact absurd undefined discovered.root_defined
      | complete discovered => exact absurd undefined discovered.root_defined
  | missing discovered next undefined invoked =>
      have stuck := stuck_of_undefined next undefined
      cases other with
      | missingRoot rootless => exact absurd rootless discovered.root_defined
      | missing again alsoNext alsoUndefined alsoInvoked =>
          obtain rfl := discovered.eq_of_stuck again stuck
            (stuck_of_undefined alsoNext alsoUndefined)
          rw [next] at alsoNext
          cases alsoNext
          rw [invoked] at alsoInvoked
          cases alsoInvoked
          rfl
      | complete again finished =>
          obtain rfl := discovered.eq_of_stuck again stuck (stuck_of_finished finished)
          rw [next] at finished
          cases finished
  | complete discovered finished =>
      have stuck : Stuck look _ := stuck_of_finished finished
      cases other with
      | missingRoot rootless => exact absurd rootless discovered.root_defined
      | missing again next undefined =>
          obtain rfl := discovered.eq_of_stuck again stuck (stuck_of_undefined next undefined)
          rw [next] at finished
          cases finished
      | complete again alsoFinished =>
          obtain rfl := discovered.eq_of_stuck again stuck (stuck_of_finished alsoFinished)
          rfl

end

def edges (found : List Fragment) : List (String × String) :=
  found.flatMap fun fragment => fragment.invocations.map fun target => (target, fragment.name)

theorem edges_append (earlier later : List Fragment) :
    edges (earlier ++ later) = edges earlier ++ edges later :=
  List.flatMap_append

theorem map_fst_edges (found : List Fragment) :
    (edges found).map Prod.fst = found.flatMap Fragment.invocations := by
  simp only [edges, List.map_flatMap, List.map_map, Function.comp_def, List.map_id']

theorem find?_targets (targets : List String) (referrer name : String) :
    ((targets.map fun target => (target, referrer)).find? fun edge => edge.1 = name) =
      if name ∈ targets then some (name, referrer) else none := by
  induction targets with
  | nil => rfl
  | cons target targets induction =>
      by_cases same : target = name
      · simp [same]
      · simp only [List.map_cons, List.find?_cons, same, decide_false, List.mem_cons,
          Ne.symm same, false_or, induction]

theorem find?_edges (found : List Fragment) (name : String) :
    ((edges found).find? fun edge => edge.1 = name) =
      (found.find? fun fragment => name ∈ fragment.invocations).map
        fun fragment => (name, fragment.name) := by
  induction found with
  | nil => rfl
  | cons fragment found induction =>
      simp only [edges] at induction
      simp only [edges, List.flatMap_cons, List.find?_append, find?_targets, induction,
        List.find?_cons]
      by_cases invoked : name ∈ fragment.invocations <;> simp [invoked]

/-- Between two steps of a search: the names visited are those of the fragments found, and the queue
holds the edges of these that have not been followed. -/
structure Underway (look : String → Option Fragment) (root : String) (visited : List String)
    (queue : List (String × String)) (found : List Fragment) : Prop where
  discovered : Discovered look root found
  visited_iff : ∀ name, name ∈ visited ↔ name ∈ found.map Fragment.name
  followed : ∃ followed, edges found = followed ++ queue ∧ ∀ edge ∈ followed, edge.1 ∈ visited

section

variable {look : String → Option Fragment} {root name referrer : String} {visited : List String}
  {queue : List (String × String)} {found : List Fragment}

theorem underway_start {fragment : Fragment} (named : Named look)
    (defined : look root = some fragment) :
    Underway look root [root] (fragment.invocations.map fun target => (target, root))
      [fragment] := by
  refine ⟨.root defined, ?_, [], ?_, by simp⟩
  · simp [named defined]
  · simp [edges, named defined]

theorem Underway.skip (underway : Underway look root visited ((name, referrer) :: queue) found)
    (known : name ∈ visited) : Underway look root visited queue found := by
  obtain ⟨followed, split, old⟩ := underway.followed
  refine ⟨underway.discovered, underway.visited_iff, followed ++ [(name, referrer)], ?_, ?_⟩
  · simpa using split
  · intro edge member
    rcases List.mem_append.mp member with earlier | last
    · exact old edge earlier
    · rw [List.mem_singleton.mp last]
      exact known

theorem Underway.next (underway : Underway look root visited ((name, referrer) :: queue) found)
    (fresh : name ∉ visited) : nextName? found = some name := by
  obtain ⟨followed, split, old⟩ := underway.followed
  have names : found.flatMap Fragment.invocations =
      followed.map Prod.fst ++ name :: queue.map Prod.fst := by
    rw [← map_fst_edges, split, List.map_append, List.map_cons]
  rw [nextName?, names, List.find?_append]
  have passed : ((followed.map Prod.fst).find? fun name => name ∉ found.map Fragment.name) =
      none := by
    rw [List.find?_eq_none]
    intro target member
    obtain ⟨edge, earlier, rfl⟩ := List.mem_map.mp member
    simpa using (underway.visited_iff edge.1).mp (old edge earlier)
  have unlisted : name ∉ found.map Fragment.name :=
    fun listed => fresh ((underway.visited_iff name).mpr listed)
  rw [passed, Option.none_or, List.find?_cons, decide_eq_true unlisted]

theorem Underway.first_referrer
    (underway : Underway look root visited ((name, referrer) :: queue) found)
    (fresh : name ∉ visited) :
    ∃ fragment, (found.find? fun fragment => name ∈ fragment.invocations) = some fragment ∧
      fragment.name = referrer := by
  obtain ⟨followed, split, old⟩ := underway.followed
  have passed : (followed.find? fun edge => edge.1 = name) = none := by
    rw [List.find?_eq_none]
    intro edge earlier same
    exact fresh (of_decide_eq_true same ▸ old edge earlier)
  have first := find?_edges found name
  rw [split, List.find?_append, passed, Option.none_or, List.find?_cons, decide_eq_true rfl] at first
  obtain ⟨fragment, invoked, same⟩ := Option.map_eq_some_iff.mp first.symm
  exact ⟨fragment, invoked, congrArg Prod.snd same⟩

theorem Underway.visit {fragment : Fragment} (named : Named look)
    (underway : Underway look root visited ((name, referrer) :: queue) found)
    (fresh : name ∉ visited) (defined : look name = some fragment) :
    Underway look root (name :: visited)
      (queue ++ fragment.invocations.map fun target => (target, name)) (found ++ [fragment]) := by
  obtain ⟨followed, split, old⟩ := underway.followed
  refine ⟨.next underway.discovered (underway.next fresh) defined, ?_,
    followed ++ [(name, referrer)], ?_, ?_⟩
  · intro other
    simp only [List.mem_cons, underway.visited_iff, List.map_append, List.mem_append,
      List.map_cons, List.map_nil, named defined, List.not_mem_nil, or_false]
    exact or_comm
  · rw [edges_append, split]
    simp [edges, named defined]
  · intro edge member
    rcases List.mem_append.mp member with earlier | last
    · exact List.mem_cons_of_mem _ (old edge earlier)
    · rw [List.mem_singleton.mp last]
      exact List.mem_cons_self

theorem Underway.finished (underway : Underway look root visited [] found) :
    nextName? found = none := by
  obtain ⟨followed, split, old⟩ := underway.followed
  rw [nextName?, ← map_fst_edges, split, List.append_nil, List.find?_eq_none]
  intro target member
  obtain ⟨edge, earlier, rfl⟩ := List.mem_map.mp member
  simpa using (underway.visited_iff edge.1).mp (old edge earlier)

end

theorem search_concludes {layers : List FragmentSet} {root : String} {visited : List String}
    {queue : List (String × String)} {found : List Fragment}
    (underway : Underway (find? layers) root visited queue found) :
    Concludes (find? layers) root (search layers visited queue found) := by
  -- along the search: an edge is skipped, leads nowhere, or leads to the next fragment
  fun_induction search layers visited queue found with
  | case1 visited found => exact .complete underway.discovered underway.finished
  | case2 visited found name referrer queue known induction =>
      exact induction (underway.skip known)
  | case3 visited found name referrer queue fresh undefined =>
      obtain ⟨fragment, invoked, rfl⟩ := underway.first_referrer fresh
      exact .missing underway.discovered (underway.next fresh) undefined invoked
  | case4 visited found name referrer queue fresh fragment defined induction =>
      exact induction (underway.visit (find?_named layers) fresh defined)

theorem closure_concludes (layers : List FragmentSet) (root : String) :
    Concludes (find? layers) root (closure layers root) := by
  rw [closure]
  split
  · rename_i undefined
    exact .missingRoot undefined
  · rename_i fragment defined
    exact search_concludes (underway_start (find?_named layers) defined)

/-- A closure is what the rules of the search say and nothing else. -/
theorem closure_eq_iff {layers : List FragmentSet} {root : String}
    {result : Except ClosureError (List Fragment)} :
    closure layers root = result ↔ Concludes (find? layers) root result := by
  constructor
  · rintro rfl
    exact closure_concludes layers root
  · exact (closure_concludes layers root).unique

end PageAssembly.Closure
