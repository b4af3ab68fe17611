import PageAssembly.Store.Mounted

/-!
A name that was marked for a mounted store leads there, and what it leads to is the very path that
was marked. The path can be anything: only the name of the store must not look like a mark itself,
nor begin one that the mark behind it ends.
-/

namespace PageAssembly

namespace Text

theorem exists_cut? (mark before after : List Char) :
    ∃ earlier later, cut? mark (before ++ mark ++ after) = some (earlier, later) ∧
      earlier.length ≤ before.length := by
  induction before with
  | nil =>
      have reached : after? mark (mark ++ after) = some after := after?_eq_some.mpr rfl
      refine ⟨[], after, ?_, Nat.le_refl _⟩
      rw [List.nil_append]
      cases spelled : mark ++ after with
      | nil =>
          rw [spelled] at reached
          rw [cut?, reached]
          rfl
      | cons c text =>
          rw [spelled] at reached
          rw [cut?, reached]
  | cons c before induction =>
      obtain ⟨earlier, later, cut, short⟩ := induction
      rw [List.cons_append, List.cons_append, cut?]
      cases after? mark (c :: (before ++ mark ++ after)) with
      | some rest => exact ⟨[], rest, rfl, Nat.zero_le _⟩
      | none =>
          refine ⟨c :: earlier, later, ?_, ?_⟩
          · rw [cut]
            rfl
          · exact Nat.succ_le_succ short

section

variable {initial earlier later : List Char} {last : Char}

theorem not_infix_of_cut?
    (cut : cut? (initial ++ [last]) (earlier ++ (initial ++ [last]) ++ later) =
      some (earlier, later)) :
    ¬initial ++ [last] <:+: earlier ++ initial := by
  rintro ⟨before, after, inside⟩
  have same : before ++ (initial ++ [last]) ++ (after ++ [last] ++ later) =
      earlier ++ (initial ++ [last]) ++ later := by
    have longer := congrArg (· ++ ([last] ++ later)) inside
    simpa only [List.append_assoc] using longer
  obtain ⟨first, rest, found, short⟩ :=
    exists_cut? (initial ++ [last]) before (after ++ [last] ++ later)
  rw [same, cut] at found
  cases found
  have lengths := congrArg List.length inside
  simp only [List.length_append, List.length_singleton] at lengths
  omega

theorem cut?_of_not_infix (absent : ¬initial ++ [last] <:+: earlier ++ initial) :
    cut? (initial ++ [last]) (earlier ++ (initial ++ [last]) ++ later) = some (earlier, later) := by
  obtain ⟨first, rest, cut, short⟩ := exists_cut? (initial ++ [last]) earlier later
  have same := eq_of_cut? cut
  by_cases equal : earlier.length = first.length
  · obtain ⟨front, rfl⟩ := List.append_inj same (by simp only [List.length_append, equal])
    cases List.append_cancel_right front
    exact cut
  · -- the mark that is found begins before the other one, so it ends before that does
    have begins : first ++ (initial ++ [last]) <+: earlier ++ (initial ++ [last]) ++ later :=
      ⟨rest, same.symm⟩
    have also : earlier ++ initial <+: earlier ++ (initial ++ [last]) ++ later :=
      ⟨[last] ++ later, by simp only [List.append_assoc]⟩
    have within : first ++ (initial ++ [last]) <+: earlier ++ initial := by
      apply List.prefix_of_prefix_length_le begins also
      simp only [List.length_append, List.length_singleton]
      omega
    exact absurd ((List.suffix_append first _).isInfix.trans within.isInfix) absent

/-- A text is cut at a mark exactly if no mark begins before that one: neither in what stands before
it, nor there and in the mark itself. -/
theorem cut?_append_iff {mark : List Char} (nonempty : mark ≠ []) (earlier later : List Char) :
    cut? mark (earlier ++ mark ++ later) = some (earlier, later) ↔
      ¬mark <:+: earlier ++ mark.dropLast := by
  have whole : mark = mark.dropLast ++ [mark.getLast nonempty] :=
    (List.dropLast_concat_getLast nonempty).symm
  generalize mark.dropLast = initial at whole
  generalize mark.getLast nonempty = last at whole
  subst whole
  exact ⟨not_infix_of_cut?, cut?_of_not_infix⟩

end

end Text

namespace Marker

def opening : Marker → List Char
  | .tilde => ['~']
  | .doubleColon => []

def sign : Marker → List Char
  | .tilde => ['/']
  | .doubleColon => [':', ':']

/-- The names of stores that a marker can mark names for. -/
def Fits : Marker → String → Prop
  | .tilde, store => store ≠ "" ∧ '/' ∉ store.toList
  | .doubleColon, store =>
      store ≠ "" ∧ ¬[':', ':'] <:+: store.toList ∧ store.toList.getLast? ≠ some ':'

/-- The name of a store with no character of a mark, so that either marker can mark names for it. -/
structure Usable (store : String) : Prop where
  nonempty : store ≠ ""
  noSlash : '/' ∉ store.toList
  noColon : ':' ∉ store.toList

variable {marker : Marker} {name store path : String}

theorem toList_qualify (marker : Marker) (store path : String) :
    (marker.qualify store path).toList =
      marker.opening ++ (store.toList ++ marker.sign ++ path.toList) := by
  cases marker <;> simp [qualify, opening, sign]

theorem cutStore?_eq_some_iff {sign text : List Char} :
    cutStore? sign text = some (store, path) ↔
      store ≠ "" ∧ Text.cut? sign text = some (store.toList, path.toList) := by
  rw [cutStore?]
  cases Text.cut? sign text with
  | none => simp
  | some found =>
      obtain ⟨first, rest⟩ := found
      simp only [Option.some.injEq, Prod.mk.injEq]
      constructor
      · intro cut
        split at cut
        · cases cut
        · rename_i nonempty
          cases cut
          exact ⟨by simpa using nonempty, String.toList_ofList.symm, String.toList_ofList.symm⟩
      · rintro ⟨nonempty, rfl, rfl⟩
        have filled : store.toList.isEmpty = false := by simpa using nonempty
        simp only [filled, Bool.false_eq_true, if_false, String.ofList_toList]

theorem split_eq (marker : Marker) (name : String) :
    marker.split name =
      ((Text.after? marker.opening name.toList).bind (cutStore? marker.sign)).elim (none, name)
        fun found => (some found.1, found.2) := by
  cases marker with
  | tilde =>
      cases spelled : name.toList with
      | nil => simp [split, spelled, opening, Text.after?]
      | cons c text =>
          by_cases first : c = '~'
          · subst first
            simp only [split, spelled, opening, Text.after?, if_true, Option.bind_some, sign]
            cases cutStore? ['/'] text <;> rfl
          · simp [split, spelled, opening, Text.after?, first, Ne.symm first]
  | doubleColon =>
      simp only [split, opening, Text.after?, Option.bind_some, sign]
      cases cutStore? [':', ':'] name.toList <;> rfl

theorem split_eq_some_iff :
    marker.split name = (some store, path) ↔
      store ≠ "" ∧ ∃ text, name.toList = marker.opening ++ text ∧
        Text.cut? marker.sign text = some (store.toList, path.toList) := by
  have found : marker.split name = (some store, path) ↔
      (Text.after? marker.opening name.toList).bind (cutStore? marker.sign) = some (store, path) := by
    rw [split_eq]
    cases (Text.after? marker.opening name.toList).bind (cutStore? marker.sign) with
    | none => simp
    | some pair => simp [Prod.ext_iff]
  rw [found, Option.bind_eq_some_iff]
  simp only [Text.after?_eq_some, cutStore?_eq_some_iff]
  constructor
  · rintro ⟨text, spelled, nonempty, cut⟩
    exact ⟨nonempty, text, spelled, cut⟩
  · rintro ⟨nonempty, text, spelled, cut⟩
    exact ⟨text, spelled, nonempty, cut⟩

theorem eq_of_split_none (unmarked : marker.split name = (none, path)) : path = name := by
  rw [split_eq] at unmarked
  cases found : (Text.after? marker.opening name.toList).bind (cutStore? marker.sign) with
  | none =>
      rw [found] at unmarked
      exact (congrArg Prod.snd unmarked).symm
  | some pair =>
      rw [found] at unmarked
      cases unmarked

theorem qualify_of_split (marked : marker.split name = (some store, path)) :
    marker.qualify store path = name := by
  obtain ⟨_, text, spelled, cut⟩ := split_eq_some_iff.mp marked
  apply String.toList_injective
  rw [toList_qualify, spelled, Text.eq_of_cut? cut]

/-- Two colons stand across the end of a text exactly if it ends with one. -/
theorem colons_infix_concat_iff (text : List Char) :
    [':', ':'] <:+: text ++ [':'] ↔ [':', ':'] <:+: text ∨ text.getLast? = some ':' := by
  have across : [':', ':'] <:+ text ++ [':'] ↔ text.getLast? = some ':' := by
    rw [List.getLast?_eq_some_iff, List.suffix_concat_iff]
    constructor
    · rintro (empty | ⟨first, same, before, spelled⟩)
      · cases empty
      · cases (List.append_inj_left' same rfl : [':'] = first)
        exact ⟨before, spelled.symm⟩
    · rintro ⟨before, spelled⟩
      exact Or.inr ⟨[':'], rfl, before, spelled.symm⟩
  rw [List.infix_concat_iff, across, or_comm]

theorem fits_iff (marker : Marker) (store : String) :
    marker.Fits store ↔
      store ≠ "" ∧ ¬marker.sign <:+: store.toList ++ marker.sign.dropLast := by
  cases marker with
  | tilde =>
      have single : ['/'] <:+: store.toList ++ [] ↔ '/' ∈ store.toList := by
        rw [List.append_nil, List.mem_iff_append]
        constructor
        · rintro ⟨before, after, spelled⟩
          exact ⟨before, after, by rw [← spelled, List.append_assoc]; rfl⟩
        · rintro ⟨before, after, spelled⟩
          exact ⟨before, after, by rw [spelled, List.append_assoc]; rfl⟩
      exact and_congr_right fun _ => not_congr single.symm
  | doubleColon =>
      have colons := colons_infix_concat_iff store.toList
      exact and_congr_right fun _ => not_or.symm.trans (not_congr colons.symm)

/-- The store and the path are read back from a name that was marked with them exactly if the marker
can mark names for the store. -/
theorem split_qualify_iff (marker : Marker) (store path : String) :
    marker.split (marker.qualify store path) = (some store, path) ↔ marker.Fits store := by
  have nonempty : marker.sign ≠ [] := by
    cases marker <;> exact List.cons_ne_nil _ _
  rw [split_eq_some_iff, fits_iff, ← Text.cut?_append_iff nonempty store.toList path.toList,
    toList_qualify]
  apply and_congr_right
  intro _
  constructor
  · rintro ⟨text, spelled, cut⟩
    rwa [List.append_cancel_left spelled]
  · intro cut
    exact ⟨_, rfl, cut⟩

/-- Marking can be undone exactly for the stores that a marker can mark names for. Splitting can
always be undone: a name that is split was marked with its store and its path, and any other is its
own path. -/
theorem marking_invertible (marker : Marker) :
    (∀ store path,
      marker.split (marker.qualify store path) = (some store, path) ↔ marker.Fits store) ∧
    (∀ name store path, marker.split name = (some store, path) →
      store ≠ "" ∧ marker.qualify store path = name) ∧
    ∀ name path, marker.split name = (none, path) → path = name := by
  refine ⟨marker.split_qualify_iff, ?_, ?_⟩
  · intro name store path marked
    exact ⟨(split_eq_some_iff.mp marked).1, qualify_of_split marked⟩
  · intro name path unmarked
    exact eq_of_split_none unmarked

/-- A store that ends with a colon is not read back. -/
example : Marker.doubleColon.split (Marker.doubleColon.qualify "a:" "b") = (some "a", ":b") := by
  decide

/-- A store and a path that begin with a colon are read back; without a store nothing is marked. -/
theorem colons_inverted :
    Marker.doubleColon.split ":a:::b" = (some ":a", ":b") ∧ Marker.doubleColon.Fits ":a" ∧
      Marker.doubleColon.qualify ":a" ":b" = ":a:::b" ∧
      ∃ path, Marker.tilde.split "~/b" = (none, path) ∧ path = "~/b" := by
  have marked : Marker.doubleColon.split ":a:::b" = (some ":a", ":b") := by decide
  have unmarked : Marker.tilde.split "~/b" = (none, "~/b") := by decide
  obtain ⟨iff_fits, inverted, _⟩ := marking_invertible .doubleColon
  obtain ⟨_, restored⟩ := inverted ":a:::b" ":a" ":b" marked
  have fits : Marker.doubleColon.Fits ":a" := by
    rw [← iff_fits ":a" ":b", restored]
    exact marked
  exact ⟨marked, fits, restored, _, unmarked, (marking_invertible .tilde).2.2 _ _ unmarked⟩

theorem Usable.fits (usable : Usable store) (marker : Marker) : marker.Fits store := by
  cases marker with
  | tilde => exact ⟨usable.nonempty, usable.noSlash⟩
  | doubleColon =>
      refine ⟨usable.nonempty, ?_, ?_⟩
      · intro inside
        exact usable.noColon (inside.subset List.mem_cons_self)
      · intro last
        exact usable.noColon (List.mem_of_getLast? last)

theorem split_qualify (marker : Marker) (usable : Usable store) (path : String) :
    marker.split (marker.qualify store path) = (some store, path) :=
  (marker.split_qualify_iff store path).mpr (usable.fits marker)

theorem dropLeading_qualify (marker : Marker) (usable : Usable store) (path : String) :
    Text.dropLeading '/' (marker.qualify store path).toList =
      (marker.qualify store path).toList := by
  unfold Text.dropLeading
  cases marker with
  | tilde => simp [qualify]
  | doubleColon =>
      obtain ⟨c, rest, spelled⟩ := List.exists_cons_of_ne_nil (l := store.toList)
        (by simpa using usable.nonempty)
      have first : c ≠ '/' := by
        rintro rfl
        exact usable.noSlash (spelled ▸ List.mem_cons_self)
      simp [qualify, spelled, first]

end Marker

theorem MountedStore.read_qualify {store : MountedStore} {name : String} {other : Store}
    (usable : Marker.Usable name) (mounted : Table.get? store.others name = some other)
    {path : String} {data : Bytes} (stored : other.read path = .ok data) :
    store.read (store.marker.qualify name path) = .ok data := by
  have leads : store.route (store.marker.qualify name path) = ⟨some name, path⟩ := by
    simp only [route, Marker.split_qualify _ usable, Table.has, mounted]
    rfl
  have reached : store.target ⟨some name, path⟩ = other := by
    simp only [target, mounted]
    rfl
  simp only [read, leads, reached, stored]

end PageAssembly
