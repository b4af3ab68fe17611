import PageAssembly.Proofs.Text.Splitting
import PageAssembly.Store.Directory
import PageAssembly.Store.Memory
import PageAssembly.Store.Mounted

/-!
Where paths lead by their text. The path of a name leads to the directory or to something below it,
from wherever it is followed; a name that would lead up has no path, and nothing is read for it.
-/

namespace PageAssembly

namespace StorePath

/-- The top of all directories is its own parent. -/
def follow (place : List String) (segment : String) : List String :=
  if stays segment then place
  else if segment = ".." then place.dropLast
  else place ++ [segment]

/-- The place that a path leads to by its text, when it is followed from `start`. -/
def place (start : List String) (path : String) : List String :=
  (segments path).foldl follow (if isAbsolute path then [] else start)

def names (path : String) : List String :=
  (segments path).filter fun segment => !stays segment

theorem isAbsolute_append {path : String} (nonempty : path ≠ "") (other : String) :
    isAbsolute (path ++ other) = isAbsolute path := by
  obtain ⟨c, rest, spelled⟩ := List.exists_cons_of_ne_nil (l := path.toList) (by simpa using nonempty)
  simp [isAbsolute, spelled]

theorem segments_append_slash (left right : String) :
    segments (left ++ "/" ++ right) = segments left ++ segments right := by
  have spelled : (left ++ "/" ++ right).toList = left.toList ++ '/' :: right.toList := by simp
  rw [segments, spelled, Text.splitWhere_append (by decide), List.map_append]
  rfl

theorem segments_append_of_slash {path : String} (ends : path.toList.getLast? = some '/')
    (other : String) :
    ∃ initial, segments path = initial ++ [""] ∧
      segments (path ++ other) = initial ++ segments other := by
  obtain ⟨before, spelled⟩ := List.getLast?_eq_some_iff.mp ends
  have same : path = String.ofList before ++ "/" := by
    apply String.toList_injective
    simp [spelled]
  refine ⟨segments (String.ofList before), ?_, ?_⟩
  · rw [same, ← String.append_empty (s := String.ofList before ++ "/"), segments_append_slash]
    rfl
  · rw [same, segments_append_slash]

theorem follow_empty (place : List String) : follow place "" = place := rfl

/-- A path that is put behind another one is followed from where that one leads. -/
theorem place_join {other : String} (relative : isAbsolute other = false) (start : List String)
    (path : String) :
    place start (join path other) = (segments other).foldl follow (place start path) := by
  rw [join, relative, if_neg Bool.false_ne_true]
  by_cases empty : path = ""
  · rw [if_pos (Or.inl empty), empty, String.empty_append, place, relative]
    rfl
  · by_cases ends : path.toList.getLast? = some '/'
    · obtain ⟨initial, whole, longer⟩ := segments_append_of_slash ends other
      rw [if_pos (Or.inr ends), place, place, isAbsolute_append empty, longer, whole]
      simp only [List.foldl_append, List.foldl_cons, List.foldl_nil, follow_empty]
    · have absolute : isAbsolute (path ++ "/" ++ other) = isAbsolute path := by
        rw [String.append_assoc, isAbsolute_append empty]
      rw [if_neg (not_or.mpr ⟨empty, ends⟩), place, place, absolute, segments_append_slash,
        List.foldl_append]

example : place ["home"] (join "/srv/www" "css/./site.css") = ["srv", "www", "css", "site.css"] := by
  decide

theorem foldl_follow {segments : List String} (down : ".." ∉ segments) (place : List String) :
    segments.foldl follow place = place ++ segments.filter fun segment => !stays segment := by
  induction segments generalizing place with
  | nil => simp
  | cons segment segments induction =>
      have rest := induction (List.not_mem_of_not_mem_cons down)
      have different : segment ≠ ".." := (List.ne_of_not_mem_cons down).symm
      rw [List.foldl_cons, rest, follow]
      cases still : stays segment with
      | true => simp [still]
      | false => simp [still, different]

theorem component?_up : component? ".." = some .parent := by decide

theorem component?_descends {segment : String} (down : segment ≠ "..") {component : Component}
    (given : component? segment = some component) : component.descends = true := by
  rw [component?, if_neg down] at given
  split at given <;> cases given
  rfl

/-- Of a path that is not absolute, components that lead out are segments that lead up. -/
theorem components_descend_iff {path : String} (relative : isAbsolute path = false) :
    (components path).all Component.descends = true ↔ ".." ∉ segments path := by
  have first : (if (segments path).head? = some "." then [Component.here] else []).all
      Component.descends = true := by
    split <;> rfl
  rw [components, relative, if_neg Bool.false_ne_true, List.all_append, first, Bool.true_and,
    List.all_eq_true]
  constructor
  · intro all up
    exact absurd (all .parent (List.mem_filterMap.mpr ⟨"..", up, component?_up⟩)) (by decide)
  · intro down component member
    obtain ⟨segment, among, given⟩ := List.mem_filterMap.mp member
    apply component?_descends ?_ given
    rintro rfl
    exact down among

end StorePath

namespace Text

theorem splitWhere_dropLeading (c : Char) (text : List Char) :
    ∃ count, splitWhere (· == c) text =
      List.replicate count [] ++ splitWhere (· == c) (dropLeading c text) := by
  induction text with
  | nil => exact ⟨0, rfl⟩
  | cons first text induction =>
      cases leads : first == c with
      | true =>
          obtain ⟨count, rest⟩ := induction
          refine ⟨count + 1, ?_⟩
          have dropped : dropLeading c (first :: text) = dropLeading c text :=
            List.dropWhile_cons_of_pos leads
          rw [splitWhere, if_pos leads, rest, dropped]
          rfl
      | false =>
          refine ⟨0, ?_⟩
          have kept : dropLeading c (first :: text) = first :: text :=
            List.dropWhile_cons_of_neg (by simp [leads])
          rw [kept]
          rfl

end Text

/-- Names that do not lead up. The empty name leads nowhere. -/
structure Descends (name : String) : Prop where
  nonempty : name ≠ ""
  down : ".." ∉ StorePath.segments name

namespace DirectoryStore

open StorePath

theorem segments_relative (name : String) :
    ∃ count, segments name = List.replicate count "" ++ segments (relative name) := by
  obtain ⟨count, pieces⟩ := Text.splitWhere_dropLeading '/' name.toList
  refine ⟨count, ?_⟩
  rw [relative, segments, segments, String.toList_ofList, pieces, List.map_append,
    List.map_replicate]

theorem up_mem_relative (name : String) :
    ".." ∈ segments (relative name) ↔ ".." ∈ segments name := by
  obtain ⟨count, same⟩ := segments_relative name
  simp [same]

theorem names_relative (name : String) : names (relative name) = names name := by
  obtain ⟨count, same⟩ := segments_relative name
  have still : stays "" = true := rfl
  rw [names, names, same, List.filter_append]
  simp [still]

theorem isAbsolute_relative (name : String) : isAbsolute (relative name) = false := by
  rw [isAbsolute, relative, String.toList_ofList, Text.dropLeading, Bool.eq_false_iff]
  intro first
  have other := List.head?_dropWhile_not (· == '/') name.toList
  rw [beq_iff_eq.mp first] at other
  simp at other

theorem refused_iff (name : String) :
    (name = "" ∨ (!(components (relative name)).all Component.descends) = true) ↔
      ¬Descends name := by
  rw [Bool.not_eq_true', ← Bool.not_eq_true, components_descend_iff (isAbsolute_relative name),
    up_mem_relative]
  constructor
  · rintro (empty | up) descends
    · exact descends.nonempty empty
    · exact up descends.down
  · intro leaves
    by_cases empty : name = ""
    · exact Or.inl empty
    · exact Or.inr fun down => leaves ⟨empty, down⟩

section

variable (store : DirectoryStore) {name : String}

theorem pathFor_eq_ok (descends : Descends name) :
    store.pathFor name = .ok (join store.root (relative name)) := by
  rw [pathFor, if_neg fun refused => (refused_iff name).mp refused descends]

theorem pathFor_eq_error (leaves : ¬Descends name) :
    store.pathFor name = .error (.invalidName name) := by
  rw [pathFor, if_pos ((refused_iff name).mpr leaves)]

theorem read_eq_error (leaves : ¬Descends name) :
    store.read name = .error (.invalidName name) := by
  rw [read, store.pathFor_eq_error leaves]
  rfl

theorem place_pathFor {path : String} (given : store.pathFor name = .ok path)
    (start : List String) : place start path = place start store.root ++ names name := by
  by_cases descends : Descends name
  · rw [store.pathFor_eq_ok descends] at given
    cases given
    have down : ".." ∉ segments (relative name) := by
      rw [up_mem_relative]
      exact descends.down
    rw [place_join (isAbsolute_relative name), foldl_follow down, ← names_relative name]
    rfl
  · rw [store.pathFor_eq_error descends] at given
    cases given

end

/-- What a directory makes of a name. Exactly the names that do not lead up have a path, which leads
to the directory or below it, from wherever it is followed. All others are refused, whatever there
is to read. -/
structure Confines (store : DirectoryStore) (name : String) : Prop where
  accepted : (∃ path, store.pathFor name = .ok path) ↔ Descends name
  inside : ∀ path, store.pathFor name = .ok path →
    ∀ start, place start store.root <+: place start path
  leads : ∀ path, store.pathFor name = .ok path →
    ∀ start, place start path = place start store.root ++ names name
  refused : ¬Descends name → store.pathFor name = .error (.invalidName name) ∧
    ∀ tree, (DirectoryStore.mk store.root tree).read name = .error (.invalidName name)

theorem confines (store : DirectoryStore) (name : String) : store.Confines name := by
  constructor
  · constructor
    · rintro ⟨path, given⟩
      apply Classical.byContradiction
      intro leaves
      rw [store.pathFor_eq_error leaves] at given
      cases given
    · intro descends
      exact ⟨_, store.pathFor_eq_ok descends⟩
  · intro path given start
    rw [store.place_pathFor given]
    exact List.prefix_append _ _
  · intro path given start
    exact store.place_pathFor given start
  · intro leaves
    exact ⟨store.pathFor_eq_error leaves, fun tree => read_eq_error ⟨store.root, tree⟩ leaves⟩

end DirectoryStore

/-- A refusal passes through a mounted store as it is, so it names the path in the directory. -/
theorem MountedStore.read_refused {mounted : MountedStore} {store : DirectoryStore} {name : String}
    (leads : mounted.target (mounted.route name) = store.toStore)
    (leaves : ¬Descends (mounted.route name).path) :
    mounted.read name = .error (.invalidName (mounted.route name).path) := by
  have refused : (mounted.target (mounted.route name)).read (mounted.route name).path =
      .error (.invalidName (mounted.route name).path) := by
    rw [leads]
    exact store.read_eq_error leaves
  simp only [read, refused]

namespace DirectoryStore

open StorePath

/-- No name leads out of a directory: not when it is looked up there, and not when a mark leads
there and what is left of the name is looked up. -/
theorem directory_never_left (store : DirectoryStore) :
    (∀ name, store.Confines name) ∧
      ∀ (mounted : MountedStore) (name : String),
        mounted.target (mounted.route name) = store.toStore →
          store.Confines (mounted.route name).path ∧
            (¬Descends (mounted.route name).path →
              mounted.read name = .error (.invalidName (mounted.route name).path)) := by
  refine ⟨store.confines, ?_⟩
  intro mounted name leads
  exact ⟨store.confines _, mounted.read_refused leads⟩

def served : DirectoryStore :=
  ⟨"/srv/www", .directory [("css", .directory [("site.css", .file [0x61])])]⟩

def mountedServed : MountedStore :=
  (MountedStore.ofMain MemoryStore.empty.toStore .tilde).mount "plug" served.toStore

theorem climbing_refused :
    mountedServed.route "~plug//../secret" = ⟨some "plug", "/../secret"⟩ ∧
      mountedServed.target (mountedServed.route "~plug//../secret") = served.toStore ∧
      ¬Descends "/../secret" ∧
      mountedServed.read "~plug//../secret" = .error (.invalidName "/../secret") := by
  have routed : mountedServed.route "~plug//../secret" = ⟨some "plug", "/../secret"⟩ := by decide
  have leads : mountedServed.target (mountedServed.route "~plug//../secret") = served.toStore := by
    rw [routed]
    rfl
  have leaves : ¬Descends "/../secret" := by
    intro descends
    exact descends.down (by decide)
  have refused := ((directory_never_left served).2 mountedServed "~plug//../secret" leads).2
  rw [routed] at refused
  exact ⟨routed, leads, leaves, refused leaves⟩

end DirectoryStore

end PageAssembly
