import PageAssembly.Proofs.Policy.Grants
import PageAssembly.Proofs.Policy.Header

/-!
Adding to the policy of a response. One value of the field is read, the first, and none if it is not
visible text; all of them are replaced. So what is added is there afterwards, with all that was
read, when its words are visible; what other values carried is lost, and words that a field takes
and does not give back as text lose everything.
-/

namespace PageAssembly

namespace Headers

def values (headers : Headers) (name : String) : List Bytes :=
  (headers.fields.filter fun field => field.1 = name).map Prod.snd

theorem head?_values (headers : Headers) (name : String) :
    (headers.values name).head? = headers.get? name := by
  unfold values get?
  rw [List.head?_map, List.head?_filter]

theorem decode?_of_textOf? {value : Bytes} {text : String} (read : textOf? value = some text) :
    Text.decode? value = some text := by
  have readable := textOf?_readable read
  unfold textOf? at read
  split at read
  · rw [Option.some_inj] at read
    have low : ∀ c ∈ value.map fun byte : UInt8 => Char.ofNat byte.toNat, c.toNat < 0x80 := by
      intro c inside
      have shown := readable c (by rwa [← read, String.toList_ofList])
      omega
    have bytes : Text.encode (value.map fun byte : UInt8 => Char.ofNat byte.toNat) = value := by
      rw [Text.encode_ascii low, List.map_map]
      apply List.map_id''
      exact toUInt8_ofByte
    rw [← read, ← Text.decode?_encode, bytes]
  · cases read

theorem readable_of_textOf? {text read : String}
    (back : textOf? (Text.encodeString text) = some read) : Policy.IsReadable text := by
  unfold textOf? at back
  split at back
  · rename_i visible
    intro c inside
    have encoded : String.utf8EncodeChar c ≠ [] := String.utf8EncodeChar_ne_nil
    obtain ⟨byte, member⟩ := List.exists_mem_of_ne_nil _ encoded
    have shown := visibleByte_iff.mp
      (List.all_eq_true.mp visible byte (List.mem_flatMap.mpr ⟨c, inside, member⟩))
    have same : c.toNat = byte.toNat := by
      apply Text.utf8EncodeChar_low member
      omega
    rwa [same]
  · cases back

end Headers

namespace Policy

theorem readable_toLower (c : Char) :
    (c.toLower.toNat = 9 ∨ (0x20 ≤ c.toLower.toNat ∧ c.toLower.toNat < 0x7f)) ↔
      c.toNat = 9 ∨ (0x20 ≤ c.toNat ∧ c.toNat < 0x7f) := by
  unfold Char.toLower
  split
  · rename_i capital
    have low : 65 ≤ c.toNat ∧ c.toNat ≤ 90 := capital
    have lowered : (c.val + ('a'.val - 'A'.val)).toNat = c.toNat + 32 := by
      rw [UInt32.toNat_add]
      exact Nat.mod_eq_of_lt (by change c.toNat + 32 < _; omega)
    have number : ∀ valid, (Char.mk (c.val + ('a'.val - 'A'.val)) valid).toNat = c.toNat + 32 :=
      fun _ => lowered
    rw [number]
    omega
  · rfl

theorem readable_lowerAscii {text : String} :
    IsReadable (Text.lowerAscii text) ↔ IsReadable text := by
  unfold IsReadable Text.lowerAscii
  rw [String.toList_ofList, List.forall_mem_map]
  simp only [readable_toLower]

theorem IsReadable.of_mem {policy : Policy} (readable : IsReadable policy.print)
    {directive : Directive} (member : directive ∈ policy.directives) {word : String}
    (among : word ∈ directive.name :: directive.tokens) : IsReadable word := by
  intro c inside
  apply readable c
  apply Text.mem_join_of_mem (List.mem_map_of_mem member)
  exact Text.mem_join_of_mem among inside

end Policy

namespace Directive

/-- As an addition a directive grants its tokens under its name, up to case. -/
def Grants (directive : Directive) (asked token : String) : Prop :=
  directive.isNamed asked = true ∧ token ∈ directive.tokens

end Directive

namespace Policy

variable {headers written : Headers} {addition : Directive}

/-- Words that are added stand in the text, the name in the way in which it was there before. -/
theorem plain_of_readable_append {policy : Policy} (words : addition.OfWords)
    (nonempty : addition.tokens ≠ [])
    (readable : IsReadable (policy.append addition.name addition.tokens).print) :
    addition.Plain := by
  obtain ⟨directive, member, named, stored⟩ :=
    exists_mem_addToFirst addition.name addition.tokens policy.directives
  have within : directive ∈ (policy.append addition.name addition.tokens).directives := by
    rw [append, if_neg (by simpa using nonempty)]
    exact member
  have nameReadable : IsReadable addition.name := by
    apply readable_lowerAscii.mp
    rw [← Text.sameIgnoringCase_iff.mp named]
    apply readable_lowerAscii.mpr
    exact readable.of_mem within List.mem_cons_self
  constructor
  · exact isPlain_of_readable (words _ List.mem_cons_self) nameReadable
  · intro token known
    apply isPlain_of_readable (words _ (List.mem_cons_of_mem _ known))
    exact readable.of_mem within (List.mem_cons_of_mem _ (stored token known))

/-- What is read after an addition: the words that were added and what was read before, or nothing
if some word is not visible. -/
def afterwards (policy : Policy) (addition : Directive) : Policy :=
  if addition.tokens = [] ∨ addition.Plain then policy.append addition.name addition.tokens
  else empty

theorem append_of_nil {policy : Policy} {name : String} {tokens : List String}
    (nothing : tokens = []) : policy.append name tokens = policy := by
  rw [append, nothing]
  rfl

theorem isEmpty_append {policy : Policy} {name : String} {tokens : List String}
    (nonempty : tokens ≠ []) : (policy.append name tokens).directives.isEmpty = false := by
  rw [append, if_neg (by simpa using nonempty), List.isEmpty_eq_false_iff]
  exact addToFirst_ne_nil name tokens policy.directives

/-- A text with a word that is not visible can be written, but not read. -/
theorem ofHeaders_hidden {policy : Policy} (words : addition.OfWords)
    (nonempty : addition.tokens ≠ []) (hidden : ¬ addition.Plain)
    (wrote : headers.insertText headerName
      (policy.append addition.name addition.tokens).print = .ok written) :
    ofHeaders written = empty := by
  rw [Headers.insertText] at wrote
  split at wrote
  · rw [Except.ok.injEq] at wrote
    rw [ofHeaders, Headers.text?, ← wrote, Headers.get?_insert, if_pos rfl, Option.bind_some]
    cases back : Headers.textOf? (Text.encodeString
        (policy.append addition.name addition.tokens).print) with
    | none => rfl
    | some text =>
        have readable := Headers.readable_of_textOf? back
        exact absurd (plain_of_readable_append words nonempty readable) hidden
  · cases wrote

theorem ofHeaders_appendToHeaders (words : addition.OfWords)
    (wrote : appendToHeaders headers addition.name addition.tokens = .ok written) :
    ofHeaders written = (ofHeaders headers).afterwards addition := by
  unfold appendToHeaders at wrote
  unfold afterwards
  by_cases nothing : addition.tokens = []
  · rw [append_of_nil nothing] at wrote ⊢
    rw [if_pos (Or.inl nothing), ofHeaders_writeTo (ofHeaders_plain headers) wrote, ite_self]
  · by_cases plain : addition.Plain
    · have appended := (ofHeaders_plain headers).append plain.name plain.tokens
      rw [if_pos (Or.inr plain), ofHeaders_writeTo appended wrote, isEmpty_append nothing]
      rfl
    · rw [if_neg (not_or.mpr ⟨nothing, plain⟩)]
      rw [writeTo, isEmpty_append nothing] at wrote
      exact ofHeaders_hidden words nothing plain wrote

theorem appendToHeaders_plain (headers : Headers) (plain : addition.Plain) :
    ∃ written, appendToHeaders headers addition.name addition.tokens = .ok written ∧
      ∀ asked token, (ofHeaders written).contains asked token = true ↔
        (ofHeaders headers).contains asked token = true ∨ addition.Grants asked token := by
  have appended := (ofHeaders_plain headers).append plain.name plain.tokens
  have wrote := writeTo_plain appended headers
  refine ⟨_, wrote, ?_⟩
  intro asked token
  rw [ofHeaders_appendToHeaders plain.ofWords wrote, afterwards, if_pos (Or.inr plain)]
  exact contains_append _ addition.name addition.tokens asked token

/-- Some value of the field grants the token, whether it is the one that is read or not. -/
def Carried (headers : Headers) (asked token : String) : Prop :=
  ∃ value ∈ headers.values headerName, ∃ text,
    Text.decode? value = some text ∧ (parse text).contains asked token = true

/-- The field has no value but the one that is read. -/
def Legible (headers : Headers) : Prop :=
  ∀ value ∈ headers.values headerName,
    headers.get? headerName = some value ∧ ∃ text, Headers.textOf? value = some text

theorem carried_of_contains {asked token : String}
    (granted : (ofHeaders headers).contains asked token = true) : Carried headers asked token := by
  unfold ofHeaders Headers.text? at granted
  rw [← Headers.head?_values] at granted
  cases first : (headers.values headerName).head? with
  | none =>
      rw [first] at granted
      cases granted
  | some value =>
      rw [first, Option.bind_some] at granted
      cases read : Headers.textOf? value with
      | none =>
          rw [read] at granted
          cases granted
      | some text =>
          rw [read] at granted
          have member := List.mem_of_head? first
          exact ⟨value, member, text, Headers.decode?_of_textOf? read, granted⟩

theorem Legible.carried_iff (legible : Legible headers) (asked token : String) :
    Carried headers asked token ↔ (ofHeaders headers).contains asked token = true := by
  constructor
  · rintro ⟨value, member, text, decoded, granted⟩
    obtain ⟨first, shown, read⟩ := legible value member
    rw [Headers.decode?_of_textOf? read, Option.some_inj] at decoded
    rw [ofHeaders, Headers.text?, first, Option.bind_some, read, decoded]
    exact granted
  · exact carried_of_contains

/-- What an addition of words needs to keep what the field carried and what it adds: visible words,
and that the value that is read, or the addition, has all that the field carried. -/
theorem appendToHeaders_keeps_iff (words : addition.OfWords)
    (wrote : appendToHeaders headers addition.name addition.tokens = .ok written) :
    (∀ asked token, Carried headers asked token ∨ addition.Grants asked token →
        (ofHeaders written).contains asked token = true) ↔
      (addition.tokens = [] ∨ addition.Plain) ∧
        ∀ asked token, Carried headers asked token →
          (ofHeaders headers).contains asked token = true ∨ addition.Grants asked token := by
  rw [ofHeaders_appendToHeaders words wrote, afterwards]
  have grants := contains_append (ofHeaders headers) addition.name addition.tokens
  by_cases taken : addition.tokens = [] ∨ addition.Plain
  · rw [if_pos taken]
    constructor
    · intro kept
      refine ⟨taken, ?_⟩
      intro asked token carried
      exact (grants asked token).mp (kept asked token (Or.inl carried))
    · rintro ⟨_, read⟩ asked token (carried | added)
      · exact (grants asked token).mpr (read asked token carried)
      · exact (grants asked token).mpr (Or.inr added)
  · rw [if_neg taken]
    constructor
    · intro kept
      have nonempty : addition.tokens ≠ [] := fun nothing => taken (Or.inl nothing)
      obtain ⟨token, member⟩ := List.exists_mem_of_ne_nil _ nonempty
      have named : addition.isNamed addition.name = true := Text.sameIgnoringCase_iff.mpr rfl
      have lost := kept addition.name token (Or.inr ⟨named, member⟩)
      cases lost
    · rintro ⟨visible, _⟩
      exact absurd visible taken

/-- Additions one after the other. -/
def appendAll (headers : Headers) (additions : List Directive) : Except HeaderError Headers :=
  additions.foldlM (fun headers addition =>
    appendToHeaders headers addition.name addition.tokens) headers

theorem ofHeaders_appendAll {additions : List Directive}
    (words : ∀ addition ∈ additions, addition.OfWords)
    (wrote : appendAll headers additions = .ok written) :
    ofHeaders written = additions.foldl afterwards (ofHeaders headers) := by
  induction additions generalizing headers with
  | nil =>
      rw [appendAll, List.foldlM_nil] at wrote
      cases wrote
      rfl
  | cons addition additions induction =>
      rw [appendAll, List.foldlM_cons] at wrote
      cases first : appendToHeaders headers addition.name addition.tokens with
      | error error =>
          rw [first] at wrote
          cases wrote
      | ok between =>
          rw [first] at wrote
          have one := ofHeaders_appendToHeaders (words addition List.mem_cons_self) first
          rw [List.foldl_cons, ← one]
          exact induction (fun other member => words other (List.mem_cons_of_mem _ member)) wrote

theorem appendAll_plain (headers : Headers) {additions : List Directive}
    (plain : ∀ addition ∈ additions, addition.Plain) :
    ∃ written, appendAll headers additions = .ok written ∧
      ∀ asked token, (ofHeaders written).contains asked token = true ↔
        (ofHeaders headers).contains asked token = true ∨
          ∃ addition ∈ additions, addition.Grants asked token := by
  induction additions generalizing headers with
  | nil =>
      refine ⟨headers, rfl, ?_⟩
      simp
  | cons addition additions induction =>
      obtain ⟨between, first, one⟩ :=
        appendToHeaders_plain headers (plain addition List.mem_cons_self)
      obtain ⟨written, later, all⟩ := induction between
        fun other member => plain other (List.mem_cons_of_mem _ member)
      refine ⟨written, ?_, ?_⟩
      · rw [appendAll, List.foldlM_cons, first]
        exact later
      · intro asked token
        rw [all, one, or_assoc]
        simp only [List.mem_cons, exists_eq_or_imp]

/-- An addition of words keeps what the field carried, and what it adds, exactly if its words are
visible and all that the field carried was in the value that is read or is added again. A run leaves
what its additions make, one after the other, of the value that is read; it loses nothing of that
value, nor any addition, if its words are visible. A field that has no other value carries nothing
else. -/
theorem appended_kept (headers : Headers) :
    (∀ (addition : Directive) (written : Headers), addition.OfWords →
      appendToHeaders headers addition.name addition.tokens = .ok written →
      ((∀ asked token, Carried headers asked token ∨ addition.Grants asked token →
          (ofHeaders written).contains asked token = true) ↔
        (addition.tokens = [] ∨ addition.Plain) ∧
          ∀ asked token, Carried headers asked token →
            (ofHeaders headers).contains asked token = true ∨ addition.Grants asked token)) ∧
      (∀ (additions : List Directive) (written : Headers),
        (∀ addition ∈ additions, addition.OfWords) →
        appendAll headers additions = .ok written →
        ofHeaders written = additions.foldl afterwards (ofHeaders headers)) ∧
      (∀ additions : List Directive, (∀ addition ∈ additions, addition.Plain) →
        ∃ written, appendAll headers additions = .ok written ∧
          ∀ asked token, (ofHeaders written).contains asked token = true ↔
            (ofHeaders headers).contains asked token = true ∨
              ∃ addition ∈ additions, addition.Grants asked token) ∧
      (Legible headers → ∀ asked token,
        Carried headers asked token ↔ (ofHeaders headers).contains asked token = true) := by
  refine ⟨?_, ?_, ?_, ?_⟩
  · intro addition written words wrote
    exact appendToHeaders_keeps_iff words wrote
  · intro additions written words wrote
    exact ofHeaders_appendAll words wrote
  · intro additions plain
    exact appendAll_plain headers plain
  · intro legible asked token
    exact legible.carried_iff asked token

def combined : Headers :=
  ⟨[(headerName, Text.encodeString "img-src a; script-src b")]⟩

theorem combined_kept :
    Legible combined ∧ (∀ addition ∈ [(⟨"style-src", ["c"]⟩ : Directive)], addition.Plain) ∧
      ∃ written, appendAll combined [⟨"style-src", ["c"]⟩] = .ok written ∧
        ∀ asked token, Carried combined asked token →
          (ofHeaders written).contains asked token = true := by
  have legible : Legible combined := by
    intro value member
    have only : value = Text.encodeString "img-src a; script-src b" := List.mem_singleton.mp member
    have visible : ∀ c ∈ "img-src a; script-src b".toList, 0x20 ≤ c.toNat ∧ c.toNat < 0x7f := by
      simp
    exact ⟨only ▸ rfl, _, only ▸ Headers.textOf?_encodeString visible⟩
  have plain : ∀ addition ∈ [(⟨"style-src", ["c"]⟩ : Directive)], addition.Plain :=
    List.forall_mem_singleton.mpr (by decide)
  obtain ⟨_, _, run, read⟩ := appended_kept combined
  obtain ⟨written, wrote, grants⟩ := run _ plain
  refine ⟨legible, plain, written, wrote, ?_⟩
  intro asked token carried
  exact (grants asked token).mpr (Or.inl ((read legible asked token).mp carried))

def divided : Headers :=
  ⟨[(headerName, Text.encodeString "img-src a"), (headerName, Text.encodeString "script-src b")]⟩

/-- What the second value carries is lost, and so is a word that is not visible. -/
theorem additions_lost :
    (∃ written, appendToHeaders divided "style-src" ["c"] = .ok written ∧
        (⟨"style-src", ["c"]⟩ : Directive).OfWords ∧ Carried divided "script-src" "b" ∧
        (ofHeaders written).contains "script-src" "b" = false) ∧
      ∃ written, appendToHeaders .empty "img-src" ["é"] = .ok written ∧
        (⟨"img-src", ["é"]⟩ : Directive).OfWords ∧
        (ofHeaders written).contains "img-src" "é" = false := by
  constructor
  · have plain : (⟨"style-src", ["c"]⟩ : Directive).Plain := by
      decide
    obtain ⟨written, wrote, grants⟩ := appendToHeaders_plain divided plain
    refine ⟨written, wrote, plain.ofWords, ?_, ?_⟩
    · refine ⟨Text.encodeString "script-src b", ?_, "script-src b", ?_, ?_⟩
      · exact List.mem_cons_of_mem _ List.mem_cons_self
      · exact Text.decode?_encode _
      · decide +kernel
    · rw [Bool.eq_false_iff]
      intro kept
      rcases (grants "script-src" "b").mp kept with read | added
      · have hidden : (ofHeaders divided).contains "script-src" "b" = false := by decide +kernel
        rw [hidden] at read
        cases read
      · have other : (⟨"style-src", ["c"]⟩ : Directive).isNamed "script-src" = false := by decide
        rw [added.1] at other
        cases other
  · have words : (⟨"img-src", ["é"]⟩ : Directive).OfWords := by
      decide
    cases wrote : appendToHeaders .empty "img-src" ["é"] with
    | error error =>
        have taken : (appendToHeaders .empty "img-src" ["é"]).toBool = true := by decide +kernel
        rw [wrote] at taken
        cases taken
    | ok written =>
        refine ⟨written, rfl, words, ?_⟩
        have hidden : ¬ (⟨"img-src", ["é"]⟩ : Directive).Plain := by decide
        rw [ofHeaders_appendToHeaders words wrote, afterwards,
          if_neg (not_or.mpr ⟨List.cons_ne_nil _ _, hidden⟩)]
        rfl

end Policy

end PageAssembly
