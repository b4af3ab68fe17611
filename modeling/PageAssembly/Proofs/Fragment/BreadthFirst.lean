import Mathlib.Data.List.Induction
import Mathlib.Order.Nat
import PageAssembly.Proofs.Fragment.Reaching

/-!
The order of a closure is that of a search that looks at near fragments first. A name comes before
another if the fragments listed first invoke it before the other; so names that are fewer
invocations away from the root never come after names that are more. A search that fails reports the
first name in this order that is not defined.
-/

namespace PageAssembly.Closure

/-- Where a list of fragments invokes a name first: the fragment that does, and which of its
invocations it is. -/
def place (listed : List Fragment) (name : String) : Nat × Nat :=
  let index := listed.findIdx fun fragment => name ∈ fragment.invocations
  (index, ((listed[index]?.map Fragment.invocations).getD []).idxOf name)

/-- The places of names by the fragment first, then by the invocation. -/
def Before (listed : List Fragment) (one other : String) : Prop :=
  Prod.Lex (· < ·) (· < ·) (place listed one) (place listed other)

/-- A name that is not defined counts as a fragment without invocations. -/
def completed (look : String → Option Fragment) (name : String) : Option Fragment :=
  some ((look name).getD ⟨name, []⟩)

/-- All that can be reached from a root, defined or not, in the order in which it is discovered. -/
structure DiscoveryOrder (look : String → Option Fragment) (root : String)
    (listed : List Fragment) : Prop extends Lists (completed look) root listed where
  ordered : (listed.tail.map Fragment.name).Pairwise (Before listed)

/-- The name can be reached from the root by so many invocations. -/
inductive Steps (look : String → Option Fragment) (root : String) : Nat → String → Prop where
  | here : Steps look root 0 root
  | further {count : Nat} {name target : String} (before : Steps look root count name)
      (invokes : Invokes look name target) : Steps look root (count + 1) target

/-- The least number of invocations by which a name can be reached. -/
def Distance (look : String → Option Fragment) (root name : String) (count : Nat) : Prop :=
  IsLeast {count | Steps look root count name} count

theorem place_cons (fragment : Fragment) (listed : List Fragment) (name : String) :
    place (fragment :: listed) name =
      if name ∈ fragment.invocations then (0, fragment.invocations.idxOf name)
      else ((place listed name).1 + 1, (place listed name).2) := by
  by_cases invoked : name ∈ fragment.invocations
  · simp [place, List.findIdx_cons, invoked]
  · simp [place, List.findIdx_cons, invoked]

theorem before_iff {listed : List Fragment} {one other : String} :
    Before listed one other ↔
      (listed.flatMap Fragment.invocations).idxOf one <
        (listed.flatMap Fragment.invocations).idxOf other := by
  induction listed with
  | nil => simp [Before, place, Prod.lex_def]
  | cons fragment listed induction =>
      simp only [Before, Prod.lex_def] at induction
      simp only [Before, place_cons, List.flatMap_cons, Prod.lex_def]
      by_cases first : one ∈ fragment.invocations <;>
        by_cases second : other ∈ fragment.invocations
      · simp only [first, second, if_true, List.idxOf_append_of_mem, Nat.lt_irrefl, false_or,
          true_and]
      · have short := List.idxOf_lt_length_iff.mpr first
        simp only [first, second, if_true, if_false, List.idxOf_append_of_mem,
          not_false_eq_true, List.idxOf_append_of_notMem]
        omega
      · have short := List.idxOf_lt_length_iff.mpr second
        simp only [first, second, if_true, if_false, List.idxOf_append_of_mem,
          not_false_eq_true, List.idxOf_append_of_notMem]
        omega
      · simp only [first, second, if_false, not_false_eq_true, List.idxOf_append_of_notMem]
        omega

theorem idxOf_append_lt {names : List String} {one other : String}
    (lt : names.idxOf one < names.idxOf other) (more : List String) :
    (names ++ more).idxOf one < (names ++ more).idxOf other := by
  have member : one ∈ names :=
    List.idxOf_lt_length_iff.mp (Nat.lt_of_lt_of_le lt List.idxOf_le_length)
  rw [List.idxOf_append_of_mem member]
  by_cases also : other ∈ names
  · rwa [List.idxOf_append_of_mem also]
  · rw [List.idxOf_append_of_notMem also]
    have short := List.idxOf_lt_length_iff.mpr member
    omega

theorem Before.append {listed : List Fragment} {one other : String}
    (before : Before listed one other) (more : List Fragment) :
    Before (listed ++ more) one other := by
  rw [before_iff] at before ⊢
  rw [List.flatMap_append]
  exact idxOf_append_lt before _

theorem Before.asymm {listed : List Fragment} {one other : String}
    (before : Before listed one other) : ¬ Before listed other one := by
  rw [before_iff] at before ⊢
  omega

section

variable {look : String → Option Fragment} {root name other : String} {found : List Fragment}

theorem before_of_next (next : nextName? found = some name)
    (fresh : other ∉ found.map Fragment.name) (different : other ≠ name) :
    Before found name other := by
  obtain ⟨_, earlier, later, split, passed⟩ := List.find?_eq_some_iff_append.mp next
  have listed : ∀ name ∈ earlier, name ∈ found.map Fragment.name := by simpa using passed
  have first : name ∉ earlier := fun member => fresh_of_next next (listed name member)
  have second : other ∉ earlier := fun member => fresh (listed other member)
  rw [before_iff, split, List.idxOf_append_of_notMem first, List.idxOf_append_of_notMem second,
    List.idxOf_cons_self, List.idxOf_cons_ne later (Ne.symm different)]
  omega

theorem Discovered.before_fresh (named : Named look) (discovered : Discovered look root found)
    (listed : name ∈ found.tail.map Fragment.name) (fresh : other ∉ found.map Fragment.name) :
    Before found name other := by
  induction discovered generalizing name other with
  | root => cases listed
  | @next found last fragment earlier next defined induction =>
      rw [List.tail_append_of_ne_nil earlier.nonempty, List.map_append, List.mem_append,
        List.map_singleton, List.mem_singleton, named defined] at listed
      rw [List.map_append, List.mem_append, List.map_singleton, List.mem_singleton,
        named defined, not_or] at fresh
      rcases listed with before | rfl
      · exact (induction before fresh.1).append _
      · exact (before_of_next next fresh.1 fresh.2).append _

theorem Discovered.ordered (named : Named look) (discovered : Discovered look root found) :
    (found.tail.map Fragment.name).Pairwise (Before found) := by
  induction discovered with
  | root => exact List.Pairwise.nil
  | @next found last fragment earlier next defined induction =>
      rw [List.tail_append_of_ne_nil earlier.nonempty, List.map_append, List.map_singleton,
        named defined, List.pairwise_append]
      refine ⟨induction.imp fun before => before.append _, List.pairwise_singleton _ _, ?_⟩
      intro listed member new same
      rw [List.mem_singleton.mp same]
      exact (earlier.before_fresh named member (fresh_of_next next)).append _

theorem exists_distance (reachable : Reachable look root name) :
    ∃ count, Distance look root name count := by
  classical
  have steps : ∃ count, Steps look root count name := by
    induction reachable with
    | refl => exact ⟨0, .here⟩
    | tail _ invokes induction =>
        obtain ⟨count, steps⟩ := induction
        exact ⟨count + 1, steps.further invokes⟩
  exact ⟨_, Nat.isLeast_find steps⟩

theorem Steps.reachable {count : Nat} (steps : Steps look root count name) :
    Reachable look root name := by
  induction steps with
  | here => exact .refl
  | further _ invokes induction => exact induction.tail invokes

theorem Before.fst_le (before : Before found name other) :
    (place found name).1 ≤ (place found other).1 := by
  rcases Prod.lex_def.mp before with less | ⟨same, _⟩
  · exact Nat.le_of_lt less
  · exact Nat.le_of_eq same

theorem place_le {index : Nat} (bound : index < found.length)
    (invoked : name ∈ found[index].invocations) : (place found name).1 ≤ index := by
  by_contra beyond
  exact of_decide_eq_false (List.not_of_lt_findIdx (Nat.lt_of_not_le beyond)) invoked

theorem invoked_at_place (bound : (place found name).1 < found.length) :
    name ∈ found[(place found name).1].invocations :=
  of_decide_eq_true (List.findIdx_getElem (w := bound))

theorem Lists.steps_first (named : Named look) (lists : Lists look root found)
    (bound : 0 < found.length) : Steps look root 0 found[0].name := by
  have first := lists.root_first
  rw [List.head?_eq_getElem?, List.getElem?_eq_getElem bound] at first
  exact named first.symm ▸ .here

theorem Lists.index_unique (lists : Lists look root found) {one other : Nat}
    (bound : one < found.length) (also : other < found.length)
    (same : found[one].name = found[other].name) : one = other := by
  have inside : one < (found.map Fragment.name).length := by simpa
  have alsoInside : other < (found.map Fragment.name).length := by simpa
  have names : (found.map Fragment.name)[one] = (found.map Fragment.name)[other] := by
    simpa using same
  exact lists.once.getElem_inj_iff.mp names

theorem before_of_lt (ordered : (found.tail.map Fragment.name).Pairwise (Before found))
    {near far : Nat} (later : 0 < near) (order : near < far) (bound : far < found.length) :
    Before found found[near].name found[far].name := by
  obtain ⟨near, rfl⟩ := Nat.exists_eq_add_one.mpr later
  obtain ⟨far, rfl⟩ := Nat.exists_eq_add_one.mpr (Nat.lt_trans later order)
  have pair := List.pairwise_iff_getElem.mp ordered near far (by simp; omega) (by simp; omega)
    (by omega)
  simpa using pair

theorem Lists.invoking (lists : Lists look root found) (reachable : Reachable look root name)
    (invokes : Invokes look name other) :
    ∃ (index : Nat) (inside : index < found.length),
      found[index].name = name ∧ other ∈ found[index].invocations := by
  obtain ⟨fragment, member, rfl⟩ := List.mem_map.mp ((lists.names name).mpr reachable)
  obtain ⟨index, inside, rfl⟩ := List.mem_iff_getElem.mp member
  obtain ⟨fragment, defined, invoked⟩ := invokes
  rw [lists.looked_up _ member] at defined
  cases defined
  exact ⟨index, inside, rfl, invoked⟩

/-- A fragment that is listed before another can be reached by no more invocations. -/
theorem Lists.nearer (named : Named look) (lists : Lists look root found)
    (ordered : (found.tail.map Fragment.name).Pairwise (Before found)) {count near far : Nat}
    (order : near ≤ far) (bound : far < found.length)
    (steps : Steps look root count found[far].name) :
    ∃ fewer ≤ count, Steps look root fewer found[near].name := by
  have nonempty : 0 < found.length := Nat.zero_lt_of_lt bound
  have first := lists.steps_first named nonempty
  generalize reached : found[far].name = name at steps
  -- along the way to the later fragment: the earlier one is invoked by a fragment listed no later
  -- than the last one on this way
  induction steps generalizing near far with
  | here =>
      have start : found[0].name = root := by
        cases first
        rfl
      obtain rfl : far = 0 := lists.index_unique bound (by omega) (reached.trans start.symm)
      obtain rfl : near = 0 := by omega
      exact ⟨0, Nat.le_refl 0, first⟩
  | @further count source target before invokes induction =>
      subst reached
      obtain rfl | later := Nat.eq_zero_or_pos near
      · exact ⟨0, Nat.zero_le _, first⟩
      obtain ⟨index, inside, same, invoked⟩ := lists.invoking before.reachable invokes
      have parents : (place found found[near].name).1 ≤ (place found found[far].name).1 := by
        rcases Nat.eq_or_lt_of_le order with rfl | less
        · exact Nat.le_refl _
        · exact (before_of_lt ordered later less bound).fst_le
      have within : (place found found[near].name).1 ≤ index :=
        parents.trans (place_le inside invoked)
      obtain ⟨fewer, le, steps⟩ := induction within inside same
      have bounded := Nat.lt_of_le_of_lt within inside
      exact ⟨fewer + 1, Nat.succ_le_succ le, steps.further
        ⟨_, lists.looked_up _ (List.getElem_mem bounded), invoked_at_place bounded⟩⟩

theorem Lists.distances (named : Named look) (lists : Lists look root found)
    (ordered : (found.tail.map Fragment.name).Pairwise (Before found)) :
    ∃ distances, List.Forall₂ (Distance look root) (found.map Fragment.name) distances ∧
      distances.Pairwise (· ≤ ·) := by
  have each : ∀ name, ∃ count, Reachable look root name → Distance look root name count := by
    intro name
    by_cases reachable : Reachable look root name
    · obtain ⟨count, distance⟩ := exists_distance reachable
      exact ⟨count, fun _ => distance⟩
    · exact ⟨0, fun also => absurd also reachable⟩
  choose distance least using each
  have listed : ∀ fragment ∈ found,
      Distance look root fragment.name (distance fragment.name) := fun fragment member =>
    least _ ((lists.names _).mp (List.mem_map_of_mem member))
  refine ⟨found.map fun fragment => distance fragment.name, ?_, ?_⟩
  · rw [List.forall₂_map_left_iff, List.forall₂_map_right_iff, List.forall₂_same]
    exact listed
  · rw [List.pairwise_map, List.pairwise_iff_getElem]
    intro near far bounded bound order
    obtain ⟨fewer, le, steps⟩ := lists.nearer named ordered (Nat.le_of_lt order) bound
      (listed _ (List.getElem_mem bound)).1
    exact Nat.le_trans ((listed _ (List.getElem_mem bounded)).2 steps) le

theorem completed_of_defined {fragment : Fragment} (defined : look name = some fragment) :
    completed look name = some fragment := by
  rw [completed, defined, Option.getD_some]

theorem completed_named (named : Named look) : Named (completed look) := by
  intro name fragment found
  rw [completed, Option.some.injEq] at found
  cases defined : look name with
  | none =>
      rw [defined, Option.getD_none] at found
      rw [← found]
  | some own =>
      rw [defined, Option.getD_some] at found
      rw [← found, named defined]

theorem Discovered.completed (discovered : Discovered look root found) :
    Discovered (completed look) root found :=
  discovered.mono fun _ _ _ => completed_of_defined

theorem Discovered.order (named : Named look)
    (discovered : Discovered (Closure.completed look) root found)
    (finished : nextName? found = none) : DiscoveryOrder look root found where
  toLists := discovered.lists (completed_named named) finished
  ordered := discovered.ordered (completed_named named)

/-- A search that has come to a first part of the order goes on with the fragment behind it. -/
theorem DiscoveryOrder.next (named : Named look) {earlier later : List Fragment}
    {fragment : Fragment} (order : DiscoveryOrder look root (earlier ++ fragment :: later))
    (discovered : Discovered (completed look) root earlier) :
    nextName? earlier = some fragment.name := by
  have closed : Named (completed look) := completed_named named
  have unlisted : fragment.name ∉ earlier.map Fragment.name := by
    have once := order.once
    rw [List.map_append, List.map_cons, List.nodup_append'] at once
    exact fun member => once.2.2 member List.mem_cons_self
  cases next : nextName? earlier with
  | none =>
      have reachable := (order.names fragment.name).mp (by simp)
      exact absurd (discovered.mem_of_reached closed next reachable) unlisted
  | some name =>
      by_contra different
      rw [Option.some.injEq] at different
      obtain ⟨referrer, member, invoked⟩ := invoked_of_next next
      have reachable : Reachable (completed look) root name :=
        (discovered.reachable closed (List.mem_map_of_mem member)).tail
          ⟨referrer, discovered.look_eq closed member, invoked⟩
      have behind : name ∈ later.map Fragment.name := by
        have listed := (order.names name).mpr reachable
        rw [List.map_append, List.map_cons, List.mem_append, List.mem_cons] at listed
        exact (listed.resolve_left (fresh_of_next next)).resolve_left different
      -- the order says that the fragment comes first, the search that the name does
      have ordered := order.ordered
      rw [List.tail_append_of_ne_nil discovered.nonempty, List.map_append, List.map_cons,
        List.pairwise_append, List.pairwise_cons] at ordered
      exact (ordered.2.1.1 name behind).asymm
        ((before_of_next next unlisted (Ne.symm different)).append _)

theorem DiscoveryOrder.discovered_part (named : Named look) {listed : List Fragment}
    (order : DiscoveryOrder look root listed) {part : List Fragment} (initial : part <+: listed)
    (nonempty : part ≠ []) : Discovered (completed look) root part := by
  induction part using List.reverseRecOn with
  | nil => exact absurd rfl nonempty
  | append_singleton earlier fragment induction =>
      obtain ⟨later, rfl⟩ := initial
      rw [List.append_assoc, List.singleton_append] at order
      have defined : completed look fragment.name = some fragment :=
        order.looked_up fragment (by simp)
      by_cases start : earlier = []
      · subst start
        have first := order.root_first
        rw [List.nil_append, List.head?_cons] at first
        exact .root first.symm
      · have before := induction (by simp) start
        exact .next before (order.next named before) defined

theorem DiscoveryOrder.finished {listed : List Fragment}
    (order : DiscoveryOrder look root listed) : nextName? listed = none := by
  by_contra unfinished
  obtain ⟨name, next⟩ := Option.ne_none_iff_exists'.mp unfinished
  obtain ⟨referrer, member, invoked⟩ := invoked_of_next next
  have reachable := (order.names referrer.name).mp (List.mem_map_of_mem member)
  have invokes : Invokes (completed look) referrer.name name :=
    ⟨referrer, order.looked_up referrer member, invoked⟩
  exact fresh_of_next next ((order.names name).mpr (reachable.tail invokes))

theorem DiscoveryOrder.nonempty {listed : List Fragment}
    (order : DiscoveryOrder look root listed) : listed ≠ [] := by
  rintro rfl
  cases order.root_first

theorem DiscoveryOrder.part_of_missing (named : Named look) {listed : List Fragment}
    (order : DiscoveryOrder look root listed) (discovered : Discovered look root found)
    (next : nextName? found = some name) (undefined : look name = none) :
    found ++ [⟨name, []⟩] <+: listed := by
  have whole := order.discovered_part named List.prefix_rfl order.nonempty
  have stuck : Stuck (completed look) listed := stuck_of_finished order.finished
  have part := discovered.completed.prefix_of_stuck whole stuck
  rcases discovered.completed.next_of_prefix whole part with
    rfl | ⟨other, fragment, also, defined, extended⟩
  · rw [order.finished] at next
    cases next
  · rw [next] at also
    cases also
    rw [completed, undefined, Option.getD_none, Option.some.injEq] at defined
    rwa [defined]

theorem Concludes.missing_first (named : Named look) {referrer : String} {listed : List Fragment}
    (concludes : Concludes look root (.error (.missing name referrer)))
    (order : DiscoveryOrder look root listed) :
    (listed.map Fragment.name).find? (fun other => (look other).isNone) = some name ∧
      (listed.find? fun fragment => name ∈ fragment.invocations).map Fragment.name =
        some referrer := by
  cases concludes with
  | @missing found _ fragment discovered next undefined invoked =>
      obtain ⟨later, rfl⟩ := order.part_of_missing named discovered next undefined
      constructor
      · have defined : (found.map Fragment.name).find? (fun other => (look other).isNone) = none := by
          rw [List.find?_eq_none]
          intro other member
          obtain ⟨fragment, _, same⟩ := discovered.look_of_mem named member
          simp [same]
        simp [List.find?_append, defined, undefined]
      · simp [List.find?_append, invoked]

end

def namesMet (layers : List FragmentSet) (root : String) : List String :=
  root :: layers.flatMap fun layer => layer.table.flatMap fun entry => entry.2.invocations

def stubs (names : List String) : List Fragment :=
  names.map fun name => ⟨name, []⟩

/-- Layers in which all that a search can meet is defined. -/
def withStubs (layers : List FragmentSet) (root : String) : List FragmentSet :=
  layers ++ [FragmentSet.empty.insertAll (stubs (namesMet layers root))]

theorem stub_eq {names : List String} {name : String} {fragment : Fragment}
    (found : lastNamed? (stubs names) name = some fragment) : fragment = ⟨name, []⟩ := by
  have same : fragment.name = name := by simpa using List.find?_some found
  obtain ⟨other, _, rfl⟩ := List.mem_map.mp (List.mem_reverse.mp (List.mem_of_find?_eq_some found))
  rw [← same]

theorem stub_defined {names : List String} {name : String} (member : name ∈ names) :
    ∃ fragment, lastNamed? (stubs names) name = some fragment := by
  rw [← Option.isSome_iff_exists, lastNamed?, List.find?_isSome]
  exact ⟨⟨name, []⟩, List.mem_reverse.mpr (List.mem_map_of_mem member), by simp⟩

theorem find?_withStubs (layers : List FragmentSet) (root name : String) :
    find? (withStubs layers root) name =
      (find? layers name).or (lastNamed? (stubs (namesMet layers root)) name) := by
  have unknown : FragmentSet.empty.find? name = none := rfl
  rw [find?, withStubs, List.findSome?_append, List.findSome?_singleton,
    FragmentSet.find?_insertAll, unknown, Option.or_none]
  rfl

section

variable {layers : List FragmentSet} {root name : String} {fragment : Fragment}

theorem mem_namesMet {target : String} (defined : find? layers name = some fragment)
    (invoked : target ∈ fragment.invocations) : target ∈ namesMet layers root := by
  obtain ⟨layer, member, stored⟩ := List.exists_of_findSome?_eq_some defined
  exact List.mem_cons_of_mem root (List.mem_flatMap.mpr ⟨layer, member,
    List.mem_flatMap.mpr ⟨(name, fragment), Table.mem_of_get? stored, invoked⟩⟩)

theorem completed_of_withStubs (found : find? (withStubs layers root) name = some fragment) :
    completed (find? layers) name = some fragment := by
  rw [find?_withStubs] at found
  cases own : find? layers name with
  | none =>
      rw [own, Option.none_or] at found
      rw [completed, own, Option.getD_none, stub_eq found]
  | some other =>
      rw [own, Option.some_or] at found
      exact completed_of_defined (own.trans found)

theorem withStubs_defined (reachable : Reachable (find? (withStubs layers root)) root name) :
    ∃ fragment, find? (withStubs layers root) name = some fragment := by
  have met : name ∈ namesMet layers root := by
    rcases Relation.ReflTransGen.cases_tail reachable with rfl | ⟨referrer, _, invokes⟩
    · exact List.mem_cons_self
    · obtain ⟨fragment, found, invoked⟩ := invokes
      rw [find?_withStubs] at found
      cases own : find? layers referrer with
      | none =>
          rw [own, Option.none_or] at found
          rw [stub_eq found] at invoked
          cases invoked
      | some other =>
          rw [own, Option.some_or] at found
          exact mem_namesMet (own.trans found) invoked
  obtain ⟨stub, defined⟩ := stub_defined met
  rw [find?_withStubs]
  cases find? layers name with
  | none => exact ⟨stub, defined⟩
  | some own => exact ⟨own, rfl⟩

end

theorem exists_order (layers : List FragmentSet) (root : String) :
    ∃ order, DiscoveryOrder (find? layers) root order := by
  have concludes := closure_concludes (withStubs layers root) root
  rcases ended : closure (withStubs layers root) root with error | order <;>
    rw [ended] at concludes
  · obtain ⟨name, reachable, undefined⟩ := concludes.error_reachable (find?_named _)
    obtain ⟨fragment, defined⟩ := withStubs_defined reachable
    rw [undefined] at defined
    cases defined
  · cases concludes with
    | complete discovered finished =>
        have extended := discovered.mono fun _ _ _ => completed_of_withStubs
        exact ⟨order, extended.order (find?_named layers) finished⟩

/-- A closure is in the order of discovery, and along it fragments are never nearer to the root than
those before them. A search that fails reports the first name in this order that is not defined,
with the first fragment that invokes it. -/
theorem closure_breadth_first (layers : List FragmentSet) (root : String) :
    (∀ found, closure layers root = .ok found →
      DiscoveryOrder (find? layers) root found ∧
      ∃ distances,
        List.Forall₂ (Distance (find? layers) root) (found.map Fragment.name) distances ∧
          distances.Pairwise (· ≤ ·)) ∧
    (∀ name referrer, closure layers root = .error (.missing name referrer) →
      (∃ order, DiscoveryOrder (find? layers) root order) ∧
      ∀ order, DiscoveryOrder (find? layers) root order →
        (order.map Fragment.name).find? (fun other => (find? layers other).isNone) = some name ∧
        (order.find? fun fragment => name ∈ fragment.invocations).map Fragment.name =
          some referrer) := by
  have named : Named (find? layers) := find?_named layers
  have concludes := closure_concludes layers root
  constructor
  · intro found succeeded
    rw [succeeded] at concludes
    cases concludes with
    | complete discovered finished =>
        exact ⟨discovered.completed.order named finished,
          (discovered.lists named finished).distances named (discovered.ordered named)⟩
  · intro name referrer failed
    rw [failed] at concludes
    exact ⟨exists_order layers root, fun _ order => concludes.missing_first named order⟩

def broken : Fragment :=
  ⟨"broken", [.invoke ⟨0, 0⟩ "left" none, .invoke ⟨0, 0⟩ "left" none, .invoke ⟨0, 0⟩ "gone" none]⟩

/-- Two ways from the main fragment to another, one of them longer, and one way back. -/
def branching : List FragmentSet :=
  [FragmentSet.empty.insertAll
    [⟨"main", [.invoke ⟨0, 0⟩ "left" none, .invoke ⟨0, 0⟩ "right" none]⟩,
      ⟨"left", [.invoke ⟨0, 0⟩ "shared" none, .invoke ⟨0, 0⟩ "right" none]⟩,
      ⟨"right", [.invoke ⟨0, 0⟩ "main" none, .invoke ⟨0, 0⟩ "shared" none]⟩, ⟨"shared", []⟩, broken]]

theorem branching_breadth_first :
    (∃ found, closure branching "main" = .ok found ∧
      DiscoveryOrder (find? branching) "main" found ∧
      ∃ distances,
        List.Forall₂ (Distance (find? branching) "main") (found.map Fragment.name) distances ∧
          distances.Pairwise (· ≤ ·)) ∧
    closure branching "broken" = .error (.missing "gone" "broken") ∧
    (∃ order, DiscoveryOrder (find? branching) "broken" order) ∧
    ∀ order, DiscoveryOrder (find? branching) "broken" order →
      (order.map Fragment.name).find? (fun other => (find? branching other).isNone) = some "gone" ∧
      (order.find? fun fragment => "gone" ∈ fragment.invocations).map Fragment.name =
        some "broken" := by
  obtain ⟨found, succeeded⟩ : ∃ found, closure branching "main" = .ok found :=
    ⟨_, closure_eq_iff.mpr
      (.complete (.next (.next (.next (.root rfl) rfl rfl) rfl rfl) rfl rfl) rfl)⟩
  have failed : closure branching "broken" = .error (.missing "gone" broken.name) :=
    closure_eq_iff.mpr (.missing (.next (.root rfl) rfl rfl) rfl rfl rfl)
  exact ⟨⟨found, succeeded, (closure_breadth_first branching "main").1 found succeeded⟩, failed,
    (closure_breadth_first branching "broken").2 "gone" "broken" failed⟩

end PageAssembly.Closure
