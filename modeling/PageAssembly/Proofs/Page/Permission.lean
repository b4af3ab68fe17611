import PageAssembly.Proofs.Page.Rendering
import PageAssembly.Proofs.Policy.Grants
import PageAssembly.Proofs.Policy.Header

/-!
The policy that goes with a page grants what its blocks need, what was granted before, and nothing
else. A browser reads it back from the header field, so it is followed through the text.
-/

namespace PageAssembly

theorem Base64.sign_plain (value : Nat) :
    0x20 < (sign value).toNat ∧ (sign value).toNat < 0x7f ∧ sign value ≠ ';' := by
  have letters : ∀ value < 62, 0x20 < (sign value).toNat ∧ (sign value).toNat < 0x7f ∧
      sign value ≠ ';' := by
    decide
  by_cases small : value < 62
  · exact letters value small
  · rw [sign, if_neg (by omega), if_neg (by omega), if_neg small]
    split <;> decide

theorem Base64.encode_plain (bytes : Bytes) :
    ∀ c ∈ encode bytes, 0x20 < c.toNat ∧ c.toNat < 0x7f ∧ c ≠ ';' := by
  have padding : 0x20 < '='.toNat ∧ '='.toNat < 0x7f ∧ '=' ≠ ';' := by decide
  fun_induction encode bytes with
  | case1 => simp
  | case2 a => simp [sign_plain, padding]
  | case3 a b => simp [sign_plain, padding]
  | case4 a b c rest induction => simpa [sign_plain] using induction

theorem hashSource_plain (digest : Digest) : IsPlain (hashSource digest) := by
  constructor
  · simp [hashSource]
  · intro c inside
    rw [hashSource, String.toList_append, String.toList_append] at inside
    rcases List.mem_append.mp inside with front | last
    · rcases List.mem_append.mp front with first | encoded
      · have signs : IsPlain "'sha256-" := by decide
        exact signs.2 c first
      · rw [String.toList_ofList] at encoded
        exact Base64.encode_plain digest.bytes c encoded
    · have sign : IsPlain "'" := by decide
      exact sign.2 c last

namespace Block

/-- What stands between the tags of style elements; linked assets have none. -/
def styles (assets : List Asset) : Delivery → List Bytes
  | .inline => assets.map Asset.data
  | .linked _ => []

/-- What stands between the tags of script elements. The script with the values is among them,
however assets are delivered. -/
def scripts (assets : List Asset) (environment : List (String × Json)) (delivery : Delivery) :
    List Bytes :=
  (if environment.isEmpty then [] else [environmentScript environment]) ++ styles assets delivery

def styleLinks (assets : List Asset) : Delivery → List Bytes
  | .inline => []
  | .linked place => assets.map fun asset =>
      wrap "<link rel=\"stylesheet\" href=\"" (linkTo place asset) "\">"

def scriptLinks (assets : List Asset) : Delivery → List Bytes
  | .inline => []
  | .linked place => assets.map fun asset =>
      wrap "<script src=\"" (linkTo place asset) "\"></script>"

/-- What a block needs a policy to grant: the digests of these contents, and the place of the page
itself if there are assets that are linked. -/
def Needs (contents : List Bytes) (assets : List Asset) (delivery : Delivery) (token : String) :
    Prop :=
  (token ∈ contents.map fun content => hashSource (sha256 content)) ∨
    (token = "'self'" ∧ assets ≠ [] ∧ ∃ place, delivery = .linked place)

theorem css_elements (assets : List Asset) (delivery : Delivery) (policy : Policy) :
    (css assets delivery policy).1 =
      lines ((styles assets delivery).map styleElement ++ styleLinks assets delivery) := by
  cases delivery with
  | inline => simp [css, styles, styleLinks, Function.comp_def]
  | linked place => rfl

theorem js_elements (assets : List Asset) (environment : List (String × Json))
    (delivery : Delivery) (policy : Policy) :
    (js assets environment delivery policy).1 =
      lines ((scripts assets environment delivery).map scriptElement ++
        scriptLinks assets delivery) := by
  cases delivery with
  | inline => simp [js, scripts, styles, scriptLinks, Function.comp_def]
  | linked place => simp [js, scripts, styles, scriptLinks]

theorem map_source (assets : List Asset) :
    assets.map Asset.source = (assets.map Asset.data).map fun content =>
      hashSource (sha256 content) := by
  rw [List.map_map]
  apply List.map_congr_left
  intro asset _
  rw [Asset.source, asset.digest_eq, Function.comp_apply]

theorem mem_linkSources {assets : List Asset} {token : String} :
    token ∈ linkSources assets ↔ token = "'self'" ∧ assets ≠ [] := by
  rw [linkSources]
  cases assets <;> simp

theorem css_policy (assets : List Asset) (delivery : Delivery) (policy : Policy) :
    ∃ tokens, (css assets delivery policy).2 = policy.append "style-src" tokens ∧
      ∀ token, token ∈ tokens ↔ Needs (styles assets delivery) assets delivery token := by
  cases delivery with
  | inline =>
      refine ⟨assets.map Asset.source, rfl, ?_⟩
      intro token
      rw [map_source]
      simp [Needs, styles]
  | linked place =>
      refine ⟨linkSources assets, rfl, ?_⟩
      intro token
      rw [mem_linkSources]
      simp [Needs, styles]

theorem js_policy (assets : List Asset) (environment : List (String × Json))
    (delivery : Delivery) (policy : Policy) :
    ∃ tokens, (js assets environment delivery policy).2 = policy.append "script-src" tokens ∧
      ∀ token, token ∈ tokens ↔
        Needs (scripts assets environment delivery) assets delivery token := by
  cases delivery with
  | inline =>
      refine ⟨_, rfl, ?_⟩
      intro token
      rw [map_source]
      cases environment <;> simp [Needs, scripts, styles]
  | linked place =>
      refine ⟨_, rfl, ?_⟩
      intro token
      rw [List.mem_append, mem_linkSources]
      cases environment <;> simp [Needs, scripts, styles, or_comm]

theorem Needs.plain {contents : List Bytes} {assets : List Asset} {delivery : Delivery}
    {token : String} (needed : Needs contents assets delivery token) : IsPlain token := by
  rcases needed with hashed | ⟨rfl, _⟩
  · obtain ⟨content, _, rfl⟩ := List.mem_map.mp hashed
    exact hashSource_plain (sha256 content)
  · decide

end Block

namespace Policy

theorem ofHeaders_insert {name : String} (other : headerName ≠ name) (headers : Headers)
    (value : Bytes) : ofHeaders (headers.insert name value) = ofHeaders headers := by
  rw [ofHeaders, ofHeaders, Headers.text?, Headers.text?, Headers.get?_insert, if_neg other]

end Policy

namespace Page

/-- What the blocks of a page need to be granted under a name. -/
def Needs (page : Page) (values : List (String × Json)) (delivery : Delivery)
    (name token : String) : Prop :=
  (Text.sameIgnoringCase "style-src" name = true ∧
    Block.Needs (Block.styles page.css delivery) page.css delivery token) ∨
  (Text.sameIgnoringCase "script-src" name = true ∧
    Block.Needs (Block.scripts page.js values delivery) page.js delivery token)

/-- Between header fields before and after a rendering: the policy after it grants what the policy
before it did, what the options ask for and what the blocks of the page need, and nothing else. -/
def Widens (page : Page) (values : List (String × Json)) (options : RenderOptions)
    (before after : Headers) : Prop :=
  ∀ name token, (Policy.ofHeaders after).contains name token = true ↔
    (Policy.ofHeaders before).contains name token = true ∨
    (∃ directive ∈ options.policy.directives, directive.isNamed name = true ∧
      token ∈ directive.tokens) ∨
    page.Needs values (page.delivery options.inline) name token

/-- The slots have the contents that the policy is about, each in an element of its own. -/
structure Places (page : Page) (values : List (String × Json)) (delivery : Delivery)
    (slots : Slots) : Prop where
  css_eq : slots.css = Block.lines ((Block.styles page.css delivery).map Block.styleElement ++
    Block.styleLinks page.css delivery)
  js_eq : slots.js = Block.lines ((Block.scripts page.js values delivery).map
    Block.scriptElement ++ Block.scriptLinks page.js delivery)

section

variable (page : Page) (left : Writer) (values : List (String × Json)) (options : RenderOptions)

theorem compose_places :
    page.Places values (page.delivery options.inline) (page.compose left values options).slots :=
  ⟨Block.css_elements page.css (page.delivery options.inline) _,
    Block.js_elements page.js values (page.delivery options.inline) _⟩

theorem compose_policy :
    ∃ css js, (page.compose left values options).policy =
        ((policyFor left options).append "style-src" css).append "script-src" js ∧
      (∀ token, token ∈ css ↔ Block.Needs (Block.styles page.css (page.delivery options.inline))
        page.css (page.delivery options.inline) token) ∧
      ∀ token, token ∈ js ↔ Block.Needs
        (Block.scripts page.js values (page.delivery options.inline)) page.js
        (page.delivery options.inline) token := by
  obtain ⟨css, styled, needsCss⟩ := Block.css_policy page.css (page.delivery options.inline)
    (policyFor left options)
  obtain ⟨js, scripted, needsJs⟩ := Block.js_policy page.js values (page.delivery options.inline)
    (Block.css page.css (page.delivery options.inline) (policyFor left options)).2
  refine ⟨css, js, ?_, needsCss, needsJs⟩
  rw [← styled, ← scripted]
  rfl

theorem contains_compose {headers : Headers} (given : left.headers = some headers)
    (name token : String) :
    (page.compose left values options).policy.contains name token = true ↔
      (Policy.ofHeaders headers).contains name token = true ∨
      (∃ directive ∈ options.policy.directives, directive.isNamed name = true ∧
        token ∈ directive.tokens) ∨
      page.Needs values (page.delivery options.inline) name token := by
  obtain ⟨css, js, same, needsCss, needsJs⟩ := page.compose_policy left values options
  have start : policyFor left options = (Policy.ofHeaders headers).merge options.policy := by
    rw [policyFor, given]
  rw [same, Policy.contains_append, Policy.contains_append, start, Policy.contains_merge,
    needsCss, needsJs, or_assoc, or_assoc]
  rfl

theorem compose_plain (plain : options.policy.Plain) :
    (page.compose left values options).policy.Plain := by
  obtain ⟨css, js, same, needsCss, needsJs⟩ := page.compose_policy left values options
  have start : (policyFor left options).Plain := by
    rw [policyFor]
    cases left.headers with
    | none =>
        apply Policy.Plain.merge _ plain
        intro directive member
        cases member
    | some headers => exact (Policy.ofHeaders_plain headers).merge plain
  rw [same]
  apply Policy.Plain.append
  · apply start.append (by decide)
    intro token member
    exact ((needsCss token).mp member).plain
  · decide
  · intro token member
    exact ((needsJs token).mp member).plain

end

theorem widens_writeTo {page : Page} {left : Writer} {values : List (String × Json)}
    {options : RenderOptions} {before after : Headers} (given : left.headers = some before)
    (plain : options.policy.Plain)
    (wrote : (page.compose left values options).policy.writeTo before = .ok after) :
    page.Widens values options before after := by
  intro name token
  have granted := page.contains_compose left values options given name token
  rw [Policy.ofHeaders_writeTo (page.compose_plain left values options plain) wrote]
  split
  · rename_i empty
    -- a policy without directives grants nothing, so nothing was granted or needed
    constructor
    · exact Or.inl
    · intro widened
      have nothing := granted.mpr widened
      rw [List.isEmpty_iff] at empty
      rw [Policy.contains, Policy.tokens?, Policy.find?, empty] at nothing
      cases nothing
  · exact granted

/-- The policy in the header field of a page that was rendered is the one that the hooks left,
widened by what is needed, and the digests in it are those of the very bytes that stand in the
page. -/
theorem rendered_policy {page : Page} {pool : Pool} {writer left : Writer} {request : Request}
    {data prepared : Json} {options : RenderOptions} {headers : Headers}
    (run : HooksRun request page.hooks writer (startData data) left prepared)
    (given : left.headers = some headers) (asked : options.asJson = false)
    (plain : options.policy.Plain)
    (succeeded : (page.render pool writer request data options).result = .ok ()) :
    ∃ final values slots,
      (page.render pool writer request data options).writer.headers = some final ∧
      (page.environmentFor request options).result = .ok values ∧
      page.Widens values options headers final ∧
      page.Places values (page.delivery options.inline) slots ∧
      (page.render pool writer request data options).writer.body =
        left.body ++ (execute page.fragments page.main prepared slots).bytes := by
  obtain ⟨final, buffer, calls, result, ends, rendered⟩ := run.html_ends asked pool
  rw [rendered] at succeeded ⊢
  cases succeeded
  cases ends.writes pool.get_empty with
  | @written values policied found executed wrote =>
      obtain ⟨_, _, ⟨_, bare⟩ | ⟨before, fields, present, set, stored⟩⟩ := writePolicy_ok wrote
      · rw [given] at bare
        cases bare
      · rw [given] at present
        cases present
        refine ⟨fields.insert contentTypeName (Text.encodeString htmlType), values,
          (page.compose left values options).slots, ?_, found, ?_,
          page.compose_places left values options, rfl⟩
        · change (setContentType policied htmlType).headers = _
          rw [setContentType, set]
          rfl
        · intro name token
          rw [Policy.ofHeaders_insert (by decide)]
          exact widens_writeTo given plain stored name token

def linking : Page :=
  { main := "main", fragments := FragmentSet.empty.insert ⟨"main", [.text ⟨0, 0⟩ "b"]⟩,
    css := [.ofData "a.css" [0x61]], js := [], hooks := [], environment := [], inline := false,
    place := "" }

def restricted : Headers :=
  Headers.empty.insert Policy.headerName (Text.encodeString "style-src example.org")

def allowing : RenderOptions :=
  RenderOptions.standard.allow "img-src" ["data:"]

theorem linking_policy :
    ∃ final values slots,
      (linking.render (.ofSize 1) (.response restricted) ⟨"GET", "/", .empty⟩ .null
        allowing).writer.headers = some final ∧
      (linking.environmentFor ⟨"GET", "/", .empty⟩ allowing).result = .ok values ∧
      linking.Widens values allowing restricted final ∧
      linking.Places values (linking.delivery none) slots ∧
      (linking.render (.ofSize 1) (.response restricted) ⟨"GET", "/", .empty⟩ .null
        allowing).writer.body =
          [] ++ (execute linking.fragments linking.main (.object []) slots).bytes := by
  have plain : allowing.policy.Plain := by decide
  have succeeded : (linking.render (.ofSize 1) (.response restricted) ⟨"GET", "/", .empty⟩ .null
      allowing).result = .ok () := rfl
  exact rendered_policy .none rfl rfl plain succeeded

end Page

end PageAssembly
