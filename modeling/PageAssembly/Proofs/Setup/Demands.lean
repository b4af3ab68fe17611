/-!
Demands that are looked at one after the other. A computation that stops at the first demand that is
not met comes to a result exactly if all are met, and its error is the fault of the first that is
not; what it demands is put together as its steps are.
-/

namespace PageAssembly

section

variable {δ ε α β : Type}

/-- Of demands in order, the first that is not met has this fault. -/
def FirstFault (met : δ → Prop) (fault : δ → ε → Prop) (demands : List δ) (error : ε) : Prop :=
  ∃ before demand after, demands = before ++ demand :: after ∧
    (∀ earlier ∈ before, met earlier) ∧ fault demand error

/-- A step that comes to a result if the demands are met, and else fails with the first fault. -/
def Decides (met : δ → Prop) (fault : δ → ε → Prop) (demands : List δ) : Except ε α → Prop
  | .ok _ => ∀ demand ∈ demands, met demand
  | .error error => FirstFault met fault demands error

structure Faults (met : δ → Prop) (fault : δ → ε → Prop) : Prop where
  unmet : ∀ demand error, fault demand error → ¬ met demand
  only : ∀ demand one other, fault demand one → fault demand other → one = other

variable {met : δ → Prop} {fault : δ → ε → Prop}

theorem FirstFault.append {demands : List δ} {error : ε}
    (first : FirstFault met fault demands error) (later : List δ) :
    FirstFault met fault (demands ++ later) error := by
  obtain ⟨before, demand, after, rfl, earlier, faulty⟩ := first
  exact ⟨before, demand, after ++ later, by simp, earlier, faulty⟩

theorem FirstFault.behind {demands later : List δ} {error : ε}
    (all : ∀ demand ∈ demands, met demand) (first : FirstFault met fault later error) :
    FirstFault met fault (demands ++ later) error := by
  obtain ⟨before, demand, after, rfl, earlier, faulty⟩ := first
  refine ⟨demands ++ before, demand, after, by simp, ?_, faulty⟩
  intro one member
  rcases List.mem_append.mp member with among | among
  · exact all one among
  · exact earlier one among

theorem FirstFault.unmet (faults : Faults met fault) {demands : List δ} {error : ε}
    (first : FirstFault met fault demands error) : ¬ ∀ demand ∈ demands, met demand := by
  obtain ⟨before, demand, after, rfl, _, faulty⟩ := first
  intro all
  exact faults.unmet demand error faulty (all demand (by simp))

theorem FirstFault.unique (faults : Faults met fault) {demands : List δ} {one other : ε}
    (first : FirstFault met fault demands one) (also : FirstFault met fault demands other) :
    one = other := by
  obtain ⟨before, demand, after, rfl, earlier, faulty⟩ := first
  obtain ⟨before', demand', after', same, earlier', faulty'⟩ := also
  have apart := faults.unmet demand one faulty
  have apart' := faults.unmet demand' other faulty'
  -- neither of the two faulty demands can stand before the other
  rcases List.append_eq_append_iff.mp same with ⟨between, grown, tail⟩ | ⟨between, grown, tail⟩
  · cases between with
    | nil =>
        cases tail
        exact faults.only _ one other faulty faulty'
    | cons head between =>
        cases tail
        exact absurd (earlier' demand (by simp [grown])) apart
  · cases between with
    | nil =>
        cases tail
        exact faults.only _ one other faulty faulty'
    | cons head between =>
        cases tail
        exact absurd (earlier demand' (by simp [grown])) apart'

theorem decides_ok (result : α) : Decides met fault ([] : List δ) (Except.ok result : Except ε α) :=
  fun _ member => absurd member List.not_mem_nil

theorem Decides.bind {read : Except ε α} {next : α → Except ε β} {first later : List δ}
    (decides : Decides met fault first read)
    (rest : ∀ item, read = .ok item → Decides met fault later (next item)) :
    Decides met fault (first ++ later) (read >>= next) := by
  cases read with
  | error error => exact FirstFault.append decides later
  | ok item =>
      have last := rest item rfl
      change Decides met fault (first ++ later) (next item)
      cases ended : next item with
      | error error =>
          rw [ended] at last
          exact FirstFault.behind decides last
      | ok result =>
          rw [ended] at last
          intro demand member
          rcases List.mem_append.mp member with among | among
          · exact decides demand among
          · exact last demand among

theorem Decides.map {read : Except ε α} {demands : List δ} (decides : Decides met fault demands read)
    (make : α → β) : Decides met fault demands (read >>= fun item => .ok (make item)) := by
  have whole := decides.bind fun item _ => decides_ok (make item)
  rwa [List.append_nil] at whole

theorem Decides.mapM {read : α → Except ε β} {demands : α → List δ}
    (one : ∀ item, Decides met fault (demands item) (read item)) (items : List α) :
    Decides met fault (items.flatMap demands) (items.mapM read) := by
  induction items with
  | nil => exact decides_ok []
  | cons item items induction =>
      rw [List.mapM_cons, List.flatMap_cons]
      exact (one item).bind fun result _ => induction.map (result :: ·)

theorem Decides.mapM_single {read : α → Except ε β} {demand : α → δ}
    (one : ∀ item, Decides met fault [demand item] (read item)) (items : List α) :
    Decides met fault (items.map demand) (items.mapM read) := by
  rw [List.map_eq_flatMap]
  exact Decides.mapM one items

theorem Decides.ok_iff (faults : Faults met fault) {read : Except ε α} {demands : List δ}
    (decides : Decides met fault demands read) :
    (∃ result, read = .ok result) ↔ ∀ demand ∈ demands, met demand := by
  cases read with
  | ok result => exact ⟨fun _ => decides, fun _ => ⟨result, rfl⟩⟩
  | error error =>
      constructor
      · rintro ⟨_, same⟩
        cases same
      · intro all
        exact absurd all (FirstFault.unmet faults decides)

theorem Decides.error_iff (faults : Faults met fault) {read : Except ε α} {demands : List δ}
    (decides : Decides met fault demands read) (error : ε) :
    read = .error error ↔ FirstFault met fault demands error := by
  cases read with
  | ok result =>
      constructor
      · intro same
        cases same
      · intro first
        exact absurd decides (first.unmet faults)
  | error given =>
      constructor
      · intro same
        cases same
        exact decides
      · intro first
        rw [FirstFault.unique faults decides first]

end

end PageAssembly
