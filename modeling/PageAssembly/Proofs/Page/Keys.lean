import PageAssembly.Proofs.Page.Caching
import PageAssembly.Proofs.Text.Splitting

/-!
What the key of a request tells about it. A key has the lines of the names in order and not where a
name ends. So a site with a cache answers a request with the page of an earlier one of the same
lines, whatever the names of that were; among requests of names without line breaks only the same
one has them.
-/

namespace PageAssembly

namespace Text

theorem intercalate_splitWhere (separator : Char) (text : List Char) :
    [separator].intercalate (splitWhere (· == separator) text) = text := by
  induction text with
  | nil => rfl
  | cons c text induction =>
      obtain ⟨piece, pieces, split⟩ :=
        List.exists_cons_of_ne_nil (splitWhere_ne_nil (· == separator) text)
      rw [split] at induction
      by_cases same : c = separator
      · rw [splitWhere, if_pos (beq_iff_eq.mpr same), split, List.intercalate_cons_cons, induction,
          same]
        rfl
      · have extended : splitWhere (· == separator) (c :: text) = (c :: piece) :: pieces :=
          splitWhere_cons_of_not (by simpa using same) split
        rw [extended]
        cases pieces with
        | nil => simpa using induction
        | cons next pieces =>
            rw [List.intercalate_cons_cons] at induction ⊢
            rw [← induction]
            rfl

theorem splitWhere_injective (separator : Char) :
    Function.Injective (splitWhere (· == separator)) := by
  intro left right same
  have joined := congrArg ([separator].intercalate ·) same
  simpa only [intercalate_splitWhere] using joined

theorem splitWhere_of_not_mem {separator : Char} {text : List Char} (unbroken : separator ∉ text) :
    splitWhere (· == separator) text = [text] := by
  apply splitWhere_of_none
  intro c inside
  exact beq_eq_false_iff_ne.mpr fun same => unbroken (same ▸ inside)

end Text

namespace PageRequest

def lines (request : PageRequest) : List (List Char) :=
  (request.main :: request.includes).flatMap fun name => Text.splitWhere (· == '\n') name.toList

def OneLine (request : PageRequest) : Prop :=
  ∀ name ∈ request.main :: request.includes, '\n' ∉ name.toList

theorem splitWhere_pageKey (main : String) (includes : List String) :
    Text.splitWhere (· == '\n') (Cache.pageKey main includes).toList =
      (⟨main, includes⟩ : PageRequest).lines := by
  induction includes generalizing main with
  | nil => simp [Cache.pageKey, lines]
  | cons name includes induction =>
      have first : (main ++ "\n" ++ name).toList = main.toList ++ '\n' :: name.toList := by simp
      have later := induction (main ++ "\n" ++ name)
      rw [lines, List.flatMap_cons, first, Text.splitWhere_append rfl] at later
      simpa [lines, Cache.pageKey] using later

theorem key_eq_iff (one other : PageRequest) : one.key = other.key ↔ one.lines = other.lines := by
  rw [key, key, ← String.toList_inj, ← (Text.splitWhere_injective '\n').eq_iff, splitWhere_pageKey,
    splitWhere_pageKey]

theorem OneLine.lines_eq {request : PageRequest} (oneLine : request.OneLine) :
    request.lines = (request.main :: request.includes).map String.toList := by
  have each : ∀ name ∈ request.main :: request.includes,
      Text.splitWhere (· == '\n') name.toList = [name.toList] :=
    fun name member => Text.splitWhere_of_not_mem (oneLine name member)
  rw [lines, List.flatMap_def, List.map_congr_left each, ← List.flatMap_def, List.map_eq_flatMap]

/-- Names without line breaks stand in the key each on a line of its own. -/
theorem OneLine.eq_of_key {one other : PageRequest} (oneLine : one.OneLine)
    (also : other.OneLine) (same : one.key = other.key) : one = other := by
  have lines := (key_eq_iff one other).mp same
  rw [oneLine.lines_eq, also.lines_eq] at lines
  have names := (List.map_inj_right fun _ _ => String.toList_inj.mp).mp lines
  obtain ⟨main, includes⟩ := List.cons.inj names
  cases one
  cases other
  rw [PageRequest.mk.injEq]
  exact ⟨main, includes⟩

theorem lines_alone (main : String) :
    (⟨main, []⟩ : PageRequest).lines = Text.splitWhere (· == '\n') main.toList := by
  rw [lines, List.flatMap_cons, List.flatMap_nil, List.append_nil]

theorem eq_of_key_alone {main : String} (unbroken : '\n' ∉ main.toList) {other : PageRequest}
    (same : other.key = (⟨main, []⟩ : PageRequest).key) : other = ⟨main, []⟩ := by
  obtain ⟨otherMain, includes⟩ := other
  have linesEq := (key_eq_iff _ _).mp same
  cases includes with
  | nil =>
      rw [lines_alone, lines_alone] at linesEq
      rw [String.toList_inj.mp (Text.splitWhere_injective '\n' linesEq)]
  | cons name includes =>
      have count := congrArg List.length linesEq
      have first := List.length_pos_iff.mpr (Text.splitWhere_ne_nil (· == '\n') otherMain.toList)
      have second := List.length_pos_iff.mpr (Text.splitWhere_ne_nil (· == '\n') name.toList)
      rw [lines_alone, Text.splitWhere_of_not_mem unbroken] at count
      simp only [lines, List.flatMap_cons, List.length_append, List.length_singleton] at count
      omega

/-- The main name alone, if it is one line, can be told from its key. -/
theorem identified_iff (request : PageRequest) :
    (∀ other : PageRequest, other.key = request.key → other = request) ↔
      request.includes = [] ∧ '\n' ∉ request.main.toList := by
  constructor
  · intro identified
    have alone : request.includes = [] := by
      have joined := identified ⟨request.key, []⟩ rfl
      rw [← joined]
    refine ⟨alone, ?_⟩
    intro breaks
    -- a name with a line break has the key of two names
    obtain ⟨before, later, cut⟩ := List.append_of_mem breaks
    have conflated : (⟨String.ofList before, [String.ofList later]⟩ : PageRequest).key =
        request.key := by
      rw [key, key, alone, ← String.toList_inj]
      simp [Cache.pageKey, cut]
    have same := identified _ conflated
    rw [← same] at alone
    cases alone
  · obtain ⟨main, includes⟩ := request
    rintro ⟨rfl, unbroken⟩ other same
    exact eq_of_key_alone unbroken same

end PageRequest

namespace Setup

/-- The page of the first of earlier requests that has the lines of this one and can be answered, at
a site that keeps pages. -/
def recalled? (setup : Setup) (earlier : List PageRequest) (request : PageRequest) : Option Page :=
  earlier.findSome? fun past =>
    if setup.settings.cache ∧ past.lines = request.lines then (setup.fresh past).toOption else none

def recalling (setup : Setup) (earlier : List PageRequest) (request : PageRequest) :
    Except LookupError Page :=
  match setup.recalled? earlier request with
  | some page => .ok page
  | none => setup.fresh request

def answersInTurn (setup : Setup) (earlier : List PageRequest) :
    List PageRequest → List (Except LookupError Page)
  | [] => []
  | request :: later =>
      setup.recalling earlier request :: setup.answersInTurn (earlier ++ [request]) later

theorem recalled?_concat (setup : Setup) (earlier : List PageRequest) (last request : PageRequest) :
    setup.recalled? (earlier ++ [last]) request =
      (setup.recalled? earlier request).or
        (if setup.settings.cache ∧ last.lines = request.lines then (setup.fresh last).toOption
          else none) := by
  rw [recalled?, List.findSome?_append, List.findSome?_singleton, recalled?]

theorem recalled?_congr (setup : Setup) (earlier : List PageRequest) {one other : PageRequest}
    (same : one.lines = other.lines) :
    setup.recalled? earlier one = setup.recalled? earlier other := by
  rw [recalled?, recalled?, same]

theorem assemble_enabled (setup : Setup) (main : String) (includes : List String) (cache : Cache) :
    ((setup.assemble main includes).run.run cache).2.enabled = cache.enabled := by
  have fileKept : ∀ (other : Cache) (name : String) (file : SourceFile),
      other.enabled = cache.enabled → (other.insertFile name file).enabled = cache.enabled := by
    intro other name file same
    rw [← same, Cache.insertFile]
    split <;> rfl
  have assetKept : ∀ (other : Cache) (name : String) (asset : Asset),
      other.enabled = cache.enabled → (other.insertAsset name asset).enabled = cache.enabled := by
    intro other name asset same
    rw [← same, Cache.insertAsset]
    split <;> rfl
  exact (setup.assemble_pageOf fileKept assetKept main includes cache rfl).2

end Setup

/-- A site with its cache after `earlier` requests: it has the page that is recalled for a request
under the key of that request, and no other. -/
structure Engine.Recalls (setup : Setup) (earlier : List PageRequest) (engine : Engine) : Prop where
  site : engine.setup = setup
  enabled : engine.cache.enabled = setup.settings.cache
  faithful : engine.cache.Faithful setup
  pages : ∀ request : PageRequest, engine.cache.page? request.key = setup.recalled? earlier request

namespace Engine.Recalls

variable {setup : Setup} {earlier : List PageRequest} {engine : Engine}

theorem start (setup : Setup) : setup.engine.Recalls setup [] := by
  refine ⟨rfl, rfl, Cache.faithful_empty setup setup.settings.cache, ?_⟩
  intro request
  rw [Setup.engine, Cache.empty, Cache.page?]
  split <;> rfl

theorem concat_of_nothing_new (recalls : engine.Recalls setup earlier) {request : PageRequest}
    (nothingNew : setup.recalled? earlier request ≠ none ∨ (setup.fresh request).toOption = none) :
    engine.Recalls setup (earlier ++ [request]) := by
  refine ⟨recalls.site, recalls.enabled, recalls.faithful, ?_⟩
  intro other
  rw [Setup.recalled?_concat, recalls.pages other]
  split
  · rename_i matching
    rcases nothingNew with recalled | failed
    · obtain ⟨page, recalled⟩ := Option.ne_none_iff_exists'.mp recalled
      rw [setup.recalled?_congr earlier matching.2] at recalled
      rw [recalled, Option.some_or]
    · rw [failed, Option.or_none]
  · rw [Option.or_none]

theorem concat_insertPage (recalls : engine.Recalls setup earlier) {request : PageRequest}
    (first : setup.recalled? earlier request = none) {page : Page}
    (fresh : setup.fresh request = .ok page) :
    ({ engine with cache := engine.cache.insertPage request.key page } : Engine).Recalls setup
      (earlier ++ [request]) := by
  have enabled : (engine.cache.insertPage request.key page).enabled = engine.cache.enabled := by
    rw [Cache.insertPage]
    split <;> rfl
  refine ⟨recalls.site, enabled.trans recalls.enabled,
    recalls.faithful.insertPage request.key page, ?_⟩
  intro other
  rw [Cache.page?_insertPage, Setup.recalled?_concat, recalls.pages other, recalls.enabled, fresh]
  simp only [PageRequest.key_eq_iff]
  split
  · rename_i matching
    rw [← setup.recalled?_congr earlier matching.2, first]
    rfl
  · rw [Option.or_none]

/-- One request: it gets the page that is recalled or a fresh one, and the site recalls it from then
on. -/
theorem lookup (recalls : engine.Recalls setup earlier) (request : PageRequest) :
    (engine.lookup request.main request.includes).1 = setup.recalling earlier request ∧
      (engine.lookup request.main request.includes).2.Recalls setup (earlier ++ [request]) := by
  obtain ⟨rfl⟩ := recalls.site
  have recalled := recalls.pages request
  rw [PageRequest.key] at recalled
  rw [Engine.lookup, Setup.recalling, recalled]
  cases found : engine.setup.recalled? earlier request with
  | some page =>
      exact ⟨rfl, recalls.concat_of_nothing_new (.inl (found ▸ Option.some_ne_none page))⟩
  | none =>
      have assembled := engine.setup.assemble_faithful request.main request.includes engine.cache
        recalls.faithful
      have kept := engine.setup.assemble_page? request.main request.includes engine.cache
      have enabled := engine.setup.assemble_enabled request.main request.includes engine.cache
      rcases ended : (engine.setup.assemble request.main request.includes).run.run engine.cache with
        ⟨error | page, cache⟩ <;> rw [ended] at assembled kept enabled
      all_goals
        have left : ({ engine with cache } : Engine).Recalls engine.setup earlier :=
          ⟨rfl, enabled.trans recalls.enabled, assembled.2, kept ▸ recalls.pages⟩
        have fresh : _ = engine.setup.fresh request := assembled.1
      · exact ⟨fresh, left.concat_of_nothing_new (.inr (fresh ▸ rfl))⟩
      · exact ⟨fresh, left.concat_insertPage found fresh.symm⟩

theorem answers_eq (recalls : engine.Recalls setup earlier) (requests : List PageRequest) :
    engine.answers requests = setup.answersInTurn earlier requests := by
  induction requests generalizing engine earlier with
  | nil => rfl
  | cons request requests induction =>
      obtain ⟨answer, later⟩ := recalls.lookup request
      rw [Engine.answers, Setup.answersInTurn, answer, induction later]

end Engine.Recalls

namespace Setup

/-- Two requests have one key exactly if the names have the same lines, so a key identifies a
request exactly if all of the request is one line. A run of requests is answered with pages that are
recalled by their lines. Requests of names without line breaks get what they ask for. -/
theorem pages_kept_by_lines (setup : Setup) :
    (∀ one other : PageRequest, one.key = other.key ↔ one.lines = other.lines) ∧
      (∀ request : PageRequest,
        (∀ other : PageRequest, other.key = request.key → other = request) ↔
          request.includes = [] ∧ '\n' ∉ request.main.toList) ∧
      (∀ requests, setup.engine.answers requests = setup.answersInTurn [] requests) ∧
      ∀ requests, (∀ request ∈ requests, request.OneLine) →
        setup.engine.answers requests = requests.map setup.fresh := by
  refine ⟨PageRequest.key_eq_iff, PageRequest.identified_iff, ?_, ?_⟩
  · exact (Engine.Recalls.start setup).answers_eq
  · intro requests oneLine
    apply setup.answers_fresh
    intro one member other also same
    exact (oneLine one member).eq_of_key (oneLine other also) same

/-- A site with three files; the name of the first is that of the other two on two lines. -/
def broken : Setup :=
  let files := MemoryStore.ofList [("a\nb", [0x78]), ("a", [0x79]), ("b", [0x7a])]
  start files.toStore Settings.standard

def mains (answers : List (Except LookupError Page)) : List (Option String) :=
  answers.map fun answer => answer.toOption.map Page.main

theorem broken_apart :
    (∀ request ∈ [⟨"a", ["b"]⟩, ⟨"a", []⟩, ⟨"b", ["a"]⟩], PageRequest.OneLine request) ∧
      broken.engine.answers [⟨"a", ["b"]⟩, ⟨"a", []⟩, ⟨"b", ["a"]⟩] =
        [⟨"a", ["b"]⟩, ⟨"a", []⟩, ⟨"b", ["a"]⟩].map broken.fresh := by
  have oneLine : ∀ request ∈ [⟨"a", ["b"]⟩, ⟨"a", []⟩, ⟨"b", ["a"]⟩],
      PageRequest.OneLine request := by
    simp [PageRequest.OneLine]
  exact ⟨oneLine, broken.pages_kept_by_lines.2.2.2 _ oneLine⟩

/-- Who asks for the second file with the third gets the first one. -/
theorem broken_conflated :
    (⟨"a\nb", []⟩ : PageRequest).key = (⟨"a", ["b"]⟩ : PageRequest).key ∧
      mains (broken.engine.answers [⟨"a\nb", []⟩, ⟨"a", ["b"]⟩]) = [some "a\nb", some "a\nb"] ∧
      mains ([⟨"a\nb", []⟩, ⟨"a", ["b"]⟩].map broken.fresh) = [some "a\nb", some "a"] := by
  refine ⟨rfl, ?_, ?_⟩
  · decide +kernel
  · decide +kernel

end Setup

end PageAssembly
