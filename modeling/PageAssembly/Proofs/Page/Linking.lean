import PageAssembly.Proofs.Html.Decoding
import PageAssembly.Proofs.Page.Permission
import PageAssembly.Proofs.Page.Unreferenced

/-!
An asset that is linked is asked for again, by the name that follows the place in its address. For
an asset of a plugin this name, as it is read from the attribute of the link, is the one that the
asset was given when the plugin was registered, so the site answers with the very bytes.
-/

namespace PageAssembly

namespace Block

def lead (place : String) : List Char :=
  let place := Text.dropTrailing '/' (Text.dropLeading '/' place.toList)
  if place.isEmpty then ['/'] else '/' :: place ++ ['/']

theorem address_eq (place name : String) :
    (address place name).toList = lead place ++ Text.dropLeading '/' name.toList := by
  unfold address lead
  dsimp only
  split
  · rw [String.toList_ofList, List.singleton_append]
  · rw [String.toList_ofList, List.append_assoc, List.singleton_append]

def href (place : String) (asset : Asset) : List Char :=
  Html.escapeAttribute (address place asset.name).toList

/-- Nothing but slashes before the name is lost when a link is written and read. -/
theorem decode_href (place : String) (asset : Asset) :
    Html.decode Html.attributeEntities (href place asset) =
      lead place ++ Text.dropLeading '/' asset.name.toList := by
  unfold href
  rw [Html.decode_escapeAttribute, address_eq]

end Block

namespace Engine

theorem setup_lookup (engine : Engine) (main : String) (includes : List String) :
    (engine.lookup main includes).2.setup = engine.setup := by
  rw [lookup]
  cases engine.cache.page? (Cache.pageKey main includes) with
  | some page => rfl
  | none =>
      rcases (engine.setup.assemble main includes).run.run engine.cache with
        ⟨error | page, cache⟩ <;> rfl

theorem read_after (engine : Engine) (asked : List PageRequest) (name : String) :
    (engine.after asked).read name = engine.read name := by
  have site : (engine.after asked).setup = engine.setup := by
    unfold after
    induction asked generalizing engine with
    | nil => rfl
    | cons request asked induction =>
        exact (induction _).trans (engine.setup_lookup request.main request.includes)
  unfold read
  rw [site]

end Engine

theorem SetupStep.Contributed.dropLeading_name {calls : List SetupStep} {marker : Marker}
    {asset : Asset} (contributed : SetupStep.Contributed calls marker asset)
    (ids : SetupStep.OwnIds calls) :
    Text.dropLeading '/' asset.name.toList = asset.name.toList := by
  obtain ⟨id, plugin, listed, contributes⟩ := contributed
  obtain ⟨path, data, _, rfl⟩ := contributes.owns
  exact Marker.dropLeading_qualify marker (ids.usable _ listed) path

namespace Setup

/-- A page whose assets are linked names each of them in one attribute of one element. For an asset
that a plugin contributed, on whatever page it is, the attribute cannot be left before its end, and
it is read as the place and a name under which the site, whatever it has answered before, gives the
bytes of the very asset. -/
theorem linked_asset_served {main : Store} {settings : Settings} {calls : List SetupStep}
    {setup : Setup} (built : (start main settings).build calls = .ok setup)
    (ids : SetupStep.OwnIds calls) (page : Page) (place : String) :
    ∃ href : Asset → List Char,
      (∀ policy, (Block.css page.css (.linked place) policy).1 =
        Block.lines (page.css.map fun asset =>
          Block.wrap "<link rel=\"stylesheet\" href=\"" (Text.encode (href asset)) "\">")) ∧
      (∀ values policy, (Block.js page.js values (.linked place) policy).1 =
        Block.lines ((Block.scripts page.js values (.linked place)).map Block.scriptElement ++
          page.js.map fun asset =>
            Block.wrap "<script src=\"" (Text.encode (href asset)) "\"></script>")) ∧
      ∀ asset, SetupStep.Contributed calls settings.marker asset →
        (∀ c ∈ href asset, c ≠ '"' ∧ c ≠ '<' ∧ c ≠ '>') ∧
        ∃ name, Html.decode Html.attributeEntities (href asset) =
            Block.lead place ++ name.toList ∧
          ∀ asked, (setup.engine.after asked).read name = .ok asset.data := by
  refine ⟨Block.href place, ?_, ?_, ?_⟩
  · intro policy
    rfl
  · intro values policy
    exact Block.js_elements page.js values (.linked place) policy
  · intro asset contributed
    refine ⟨Html.unmarked_escapeAttribute _, asset.name, ?_, ?_⟩
    · rw [Block.decode_href, contributed.dropLeading_name ids]
    · intro asked
      rw [Engine.read_after]
      exact read_contributed built ids contributed

/-- A plugin that has two files under one path, and a path with signs that mean something in marked
names, in addresses and in markup. -/
def shop : Plugin :=
  { lamp with
    name := "shop"
    sources := []
    components := []
    assets := [("/~a::b\"&.css", [0x61]), ("/~a::b\"&.css", [0x62])]
    everyPageCss := ["/~a::b\"&.css"] }

def shopCalls : List SetupStep :=
  [.mount "other" MemoryStore.empty.toStore, .plugins [("shop", shop)]]

theorem shopCalls_ownIds : SetupStep.OwnIds shopCalls := by
  constructor
  · intro entry listed
    obtain rfl := List.mem_singleton.mp listed
    exact ⟨by decide, by decide, by decide⟩
  · exact List.nodup_singleton _
  · intro entry listed
    obtain rfl := List.mem_singleton.mp listed
    decide

theorem shop_contributes (marker : Marker) : SetupStep.Contributed shopCalls marker
    (Asset.ofData (marker.qualify "shop" "/~a::b\"&.css") [0x62]) := by
  refine ⟨"shop", shop, List.mem_cons_self, ?_⟩
  exact ⟨_, .everyPage, rfl, List.mem_cons_self⟩

theorem shop_linked :
    let asset := Asset.ofData "shop::/~a::b\"&.css" [0x62]
    ∃ setup href name,
      (start MemoryStore.empty.toStore { Settings.standard with marker := .doubleColon }).build
        shopCalls = .ok setup ∧
      SetupStep.Contributed shopCalls .doubleColon asset ∧
      (Block.css [asset] (.linked "/static/") .empty).1 =
        Block.wrap "<link rel=\"stylesheet\" href=\"" (Text.encode href) "\">" ∧
      Html.decode Html.attributeEntities href = "/static/".toList ++ name.toList ∧
      ∀ asked, (setup.engine.after asked).read name = .ok [0x62] := by
  intro asset
  obtain ⟨setup, built⟩ : ∃ setup, (start MemoryStore.empty.toStore
      { Settings.standard with marker := .doubleColon }).build shopCalls = .ok setup := ⟨_, rfl⟩
  have contributed := shop_contributes .doubleColon
  obtain ⟨href, styles, _, served⟩ := linked_asset_served built shopCalls_ownIds
    { Page.linking with css := [asset] } "/static/"
  obtain ⟨_, name, read, answers⟩ := served asset contributed
  exact ⟨setup, href asset, name, built, contributed, styles .empty, read, answers⟩

end Setup

end PageAssembly
