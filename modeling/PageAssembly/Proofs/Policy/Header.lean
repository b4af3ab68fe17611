import PageAssembly.Policy.Header
import PageAssembly.Proofs.Policy.Words
import PageAssembly.Proofs.Text.Encoding

/-!
A policy that is written to a header field is read back as it was. The other fields stay, and a
policy without directives leaves all of them.
-/

namespace PageAssembly

namespace Headers

theorem find?_without (fields : List (String × Bytes)) (name other : String) :
    ((fields.filter fun field => field.1 ≠ name).find? fun field => field.1 = other) =
      if other = name then none else fields.find? fun field => field.1 = other := by
  induction fields with
  | nil => simp
  | cons field fields induction =>
      by_cases removed : field.1 = name
      · rw [List.filter_cons_of_neg (by simpa using removed), induction, List.find?_cons, removed]
        by_cases same : other = name
        · simp [same]
        · simp [same, Ne.symm same]
      · rw [List.filter_cons_of_pos (by simpa using removed), List.find?_cons, induction,
          List.find?_cons]
        by_cases asked : field.1 = other
        · have different : other ≠ name := asked ▸ removed
          simp [asked, different]
        · simp [asked]

theorem get?_insert (headers : Headers) (name other : String) (value : Bytes) :
    (headers.insert name value).get? other =
      if other = name then some value else headers.get? other := by
  rw [get?, insert, List.find?_append, find?_without]
  by_cases same : other = name
  · simp [same]
  · have alone : ([(name, value)].find? fun field => field.1 = other) = none := by
      simp [Ne.symm same]
    rw [if_neg same, if_neg same, alone, Option.or_none, get?]

theorem visibleByte_iff {byte : UInt8} : visibleByte byte = true ↔
    byte.toNat = 9 ∨ (0x20 ≤ byte.toNat ∧ byte.toNat < 0x7f) := by
  rw [visibleByte, Bool.or_eq_true, Bool.and_eq_true, beq_iff_eq, decide_eq_true_eq,
    decide_eq_true_eq, ← UInt8.toNat_inj, UInt8.le_iff_toNat_le, UInt8.lt_iff_toNat_lt]
  rfl

theorem textOf?_readable {value : Bytes} {text : String} (read : textOf? value = some text) :
    Policy.IsReadable text := by
  rw [textOf?] at read
  split at read
  · rename_i visible
    cases read
    intro c inside
    rw [String.toList_ofList] at inside
    obtain ⟨byte, member, rfl⟩ := List.mem_map.mp inside
    rw [toNat_ofByte]
    exact visibleByte_iff.mp (List.all_eq_true.mp visible byte member)
  · cases read

theorem validByte_of_visibleByte {byte : UInt8} (visible : visibleByte byte = true) :
    validByte byte = true := by
  rw [visibleByte, Bool.or_eq_true, Bool.and_eq_true, decide_eq_true_eq, decide_eq_true_eq,
    UInt8.lt_iff_toNat_lt] at visible
  rw [validByte, Bool.or_eq_true, Bool.and_eq_true, decide_eq_true_eq, bne_iff_ne]
  rcases visible with tab | ⟨low, high⟩
  · exact Or.inl tab
  · refine Or.inr ⟨low, ?_⟩
    rintro rfl
    exact Nat.lt_irrefl _ high

section

variable {text : String} (visible : ∀ c ∈ text.toList, 0x20 ≤ c.toNat ∧ c.toNat < 0x7f)

include visible in
theorem encodeString_visible :
    Text.encodeString text = text.toList.map Char.toUInt8 ∧
      ∀ c ∈ text.toList, c.toUInt8.toNat = c.toNat := by
  have low : ∀ c ∈ text.toList, c.toNat < 0x80 := by
    intro c inside
    have bounds := visible c inside
    omega
  exact ⟨Text.encode_ascii low, fun c inside => toNat_toUInt8 (low c inside)⟩

include visible in
theorem all_visibleByte : (Text.encodeString text).all visibleByte = true := by
  obtain ⟨bytes, numbers⟩ := encodeString_visible visible
  rw [bytes, List.all_map, List.all_eq_true]
  intro c inside
  rw [Function.comp_apply, visibleByte_iff, numbers c inside]
  exact Or.inr (visible c inside)

include visible in
theorem textOf?_encodeString : textOf? (Text.encodeString text) = some text := by
  obtain ⟨bytes, numbers⟩ := encodeString_visible visible
  rw [textOf?, if_pos (all_visibleByte visible), bytes, List.map_map]
  have back : text.toList.map ((fun byte : UInt8 => Char.ofNat byte.toNat) ∘ Char.toUInt8) =
      text.toList := by
    rw [List.map_congr_left (g := id)]
    · exact List.map_id text.toList
    · intro c inside
      rw [Function.comp_apply, numbers c inside, Char.ofNat_toNat, id]
  rw [back, String.ofList_toList]

include visible in
theorem validValue_of_visible : validValue (Text.encodeString text) = true := by
  rw [validValue, List.all_eq_true]
  intro byte member
  exact validByte_of_visibleByte (List.all_eq_true.mp (all_visibleByte visible) byte member)

end

end Headers

namespace Policy

/-- Whatever a field holds, the policy that is read from it is plain. -/
theorem ofHeaders_plain (headers : Headers) : (ofHeaders headers).Plain := by
  rw [ofHeaders, Headers.text?]
  cases headers.get? headerName with
  | none =>
      intro directive member
      cases member
  | some value =>
      rw [Option.bind_some]
      cases read : Headers.textOf? value with
      | none =>
          intro directive member
          cases member
      | some text => exact parse_plain (Headers.textOf?_readable read)

theorem writeTo_plain {policy : Policy} (plain : policy.Plain) (headers : Headers) :
    policy.writeTo headers = .ok (if policy.directives.isEmpty then headers
      else headers.insert headerName (Text.encodeString policy.print)) := by
  rw [writeTo, Headers.insertText,
    Headers.validValue_of_visible fun c inside => plain.of_mem_print inside]
  split <;> rfl

/-- A policy that has directives is read back; one that has none leaves what was there. -/
theorem ofHeaders_writeTo {policy : Policy} (plain : policy.Plain) {headers written : Headers}
    (wrote : policy.writeTo headers = .ok written) :
    ofHeaders written = if policy.directives.isEmpty then ofHeaders headers else policy := by
  rw [writeTo_plain plain, Except.ok.injEq] at wrote
  rw [← wrote]
  split
  · rfl
  · rw [ofHeaders, Headers.text?, Headers.get?_insert, if_pos rfl, Option.bind_some,
      Headers.textOf?_encodeString fun c inside => plain.of_mem_print inside]
    exact parse_print plain.ofWords

end Policy

end PageAssembly
