import PageAssembly.Text.Digits

/-!
A number is spelled in one way, with digits only, and what is spelled is the number.
-/

namespace PageAssembly.Text

theorem digitChar_isDigit : ∀ digit < 10, (digitChar digit).isDigit = true := by
  decide

theorem digitChar_injective : ∀ digit < 10, ∀ other < 10,
    digitChar digit = digitChar other → digit = other := by
  decide

theorem decimal_small {value : Nat} (small : value < 10) : decimal value = [digitChar value] := by
  rw [decimal, digitsIn, if_pos small]

theorem decimal_large {value : Nat} (large : ¬ value < 10) :
    decimal value = decimal (value / 10) ++ [digitChar (value % 10)] := by
  rw [decimal, digitsIn, if_neg large, ← decimal]

theorem isDigit_of_mem_decimal {value : Nat} : ∀ c ∈ decimal value, c.isDigit = true := by
  induction value using Nat.strongRecOn with
  | ind value induction =>
      by_cases small : value < 10
      · rw [decimal_small small]
        exact List.forall_mem_singleton.mpr (digitChar_isDigit value small)
      · rw [decimal_large small]
        intro c member
        rcases List.mem_append.mp member with earlier | last
        · exact induction (value / 10) (by omega) c earlier
        · rw [List.mem_singleton.mp last]
          exact digitChar_isDigit _ (Nat.mod_lt _ (by decide))

theorem decimal_ne_nil (value : Nat) : decimal value ≠ [] := by
  by_cases small : value < 10
  · rw [decimal_small small]
    exact List.cons_ne_nil _ _
  · rw [decimal_large small]
    exact List.append_ne_nil_of_right_ne_nil _ (List.cons_ne_nil _ _)

theorem decimal_injective {value other : Nat} (same : decimal value = decimal other) :
    value = other := by
  induction value using Nat.strongRecOn generalizing other with
  | ind value induction =>
      -- the last digit is the remainder, those before it are the quotient
      by_cases small : value < 10 <;> by_cases also : other < 10
      · rw [decimal_small small, decimal_small also] at same
        exact digitChar_injective value small other also (List.cons.inj same).1
      · rw [decimal_small small, decimal_large also, ← List.nil_append [digitChar value]] at same
        exact absurd (List.append_inj' same rfl).1.symm (decimal_ne_nil _)
      · rw [decimal_large small, decimal_small also, ← List.nil_append [digitChar other]] at same
        exact absurd (List.append_inj' same rfl).1 (decimal_ne_nil _)
      · rw [decimal_large small, decimal_large also] at same
        obtain ⟨quotients, digits⟩ := List.append_inj' same rfl
        have quotient := induction (value / 10) (by omega) quotients
        have remainder := digitChar_injective _ (Nat.mod_lt _ (by decide)) _
          (Nat.mod_lt _ (by decide)) (List.cons.inj digits).1
        omega

theorem digitValue?_digitChar : ∀ digit < 16, digitValue? (digitChar digit) = some digit := by
  decide

theorem isDecimal_eq (c : Char) : isDecimal c = c.isDigit := by
  simp [isDecimal, Char.isDigit, Char.le_def]

theorem decimal_of_zero_first {value : Nat} {rest : List Char} (first : decimal value = '0' :: rest) :
    rest = [] := by
  induction value using Nat.strongRecOn generalizing rest with
  | ind value induction =>
      by_cases small : value < 10
      · rw [decimal_small small] at first
        exact (List.cons.inj first).2.symm
      · rw [decimal_large small] at first
        rcases List.append_eq_cons_iff.mp first with ⟨nothing, _⟩ | ⟨more, quotient, _⟩
        · exact absurd nothing (decimal_ne_nil _)
        · have zero : decimal (value / 10) = decimal 0 := by
            rw [quotient, induction (value / 10) (by omega) quotient]
            exact (decimal_small (by decide : 0 < 10)).symm
          have vanishes : value / 10 = 0 := decimal_injective zero
          omega

theorem digitValue?_isSome_of_valueIn? {base value : Nat} {digits : List Char}
    (spelled : valueIn? base digits = some value) :
    ∀ c ∈ digits, (digitValue? c).isSome = true := by
  rw [valueIn?] at spelled
  generalize 0 = start at spelled
  induction digits generalizing start with
  | nil =>
      intro c member
      cases member
  | cons first digits induction =>
      rw [List.foldlM_cons] at spelled
      obtain ⟨next, read, rest⟩ := Option.bind_eq_some_iff.mp spelled
      obtain ⟨digit, known, _⟩ := Option.bind_eq_some_iff.mp read
      rw [List.forall_mem_cons]
      exact ⟨by rw [known, Option.isSome_some], induction next rest⟩

theorem valueIn?_append_digit {base digit : Nat} (small : digit < base) (few : digit < 16)
    (digits : List Char) :
    valueIn? base (digits ++ [digitChar digit]) =
      (valueIn? base digits).map fun value => value * base + digit := by
  rw [valueIn?, List.foldlM_append, ← valueIn?]
  cases valueIn? base digits with
  | none => rfl
  | some value => simp [digitValue?_digitChar digit few, small]

theorem valueIn?_decimal_eq (value : Nat) : valueIn? 10 (decimal value) = some value := by
  induction value using Nat.strongRecOn with
  | ind value induction =>
      by_cases small : value < 10
      · have single := valueIn?_append_digit small (by omega) []
        rw [decimal_small small]
        simpa [valueIn?] using single
      · have digit : value % 10 < 10 := Nat.mod_lt _ (by decide)
        rw [decimal_large small, valueIn?_append_digit digit (by omega),
          induction (value / 10) (by omega), Option.map_some]
        congr 1
        omega

end PageAssembly.Text
