import PageAssembly.Config.Settings
import PageAssembly.Text.Bytes
import PageAssembly.Toml.Reader

/-!
Settings from a TOML document. What the document leaves out is as in the standard settings; names
that are unknown and values of a wrong kind are refused.
-/

namespace PageAssembly

inductive ConfigError where
  | missing
  | notText
  | malformed
deriving DecidableEq

def ConfigError.message : ConfigError → String
  | .missing => "Failed to read config file: No such file or directory (os error 2)"
  | .notText => "Failed to read config file: stream did not contain valid UTF-8"
  | .malformed => "Failed to parse config TOML"

namespace Toml

def truth? : Toml → Option Bool
  | .truth value => some value
  | _ => none

def string? : Toml → Option String
  | .string content => some content
  | _ => none

def count? : Toml → Option Nat
  | .whole (.ofNat value) => some value
  | _ => none

def isEmpty : Toml → Bool
  | .array items => items.isEmpty
  | .table _ entries => entries.isEmpty
  | _ => false

/-- A marker by its name, or by a table in which nothing but an empty value has that name. -/
def marker? : Toml → Option Marker
  | .string name => Marker.ofName? name
  | .table _ [(name, value)] => if value.isEmpty then Marker.ofName? name else none
  | _ => none

/-- A field of a record, with the value it has when it is left out. -/
def field? {α : Type} (fields : Entries) (name : String) (read : Toml → Option α) (standard : α) :
    Option α :=
  match Table.get? fields name with
  | some value => read value
  | none => some standard

def record? (fields : Entries) (name : String) (names : List String) : Option Entries :=
  field? fields name (Toml.fields? names) []

end Toml

namespace Settings

def ofToml? (document : Toml.Entries) : Option Settings := do
  let fields ← Toml.fields? ["cache", "assets", "store", "render"] (.table .opened document)
  let cacheFields ← Toml.record? fields "cache" ["enabled"]
  let assetFields ← Toml.record? fields "assets" ["inline", "url_prefix"]
  let storeFields ← Toml.record? fields "store" ["marker"]
  let renderFields ← Toml.record? fields "render" ["buffer_pool_size"]
  let cache ← Toml.field? cacheFields "enabled" Toml.truth? standard.cache
  let inline ← Toml.field? assetFields "inline" Toml.truth? standard.inline
  let place ← Toml.field? assetFields "url_prefix" Toml.string? standard.place
  let marker ← Toml.field? storeFields "marker" Toml.marker? standard.marker
  let poolSize ← Toml.field? renderFields "buffer_pool_size" Toml.count? standard.poolSize
  some ⟨cache, inline, place, marker, poolSize⟩

def ofText (text : String) : Except ConfigError Settings :=
  match Toml.read? text.toList >>= ofToml? with
  | some settings => .ok settings
  | none => .error .malformed

def ofFile (content : Option Bytes) : Except ConfigError Settings :=
  match content with
  | none => .error .missing
  | some bytes =>
      match Text.decode? bytes with
      | some text => ofText text
      | none => .error .notText

end Settings

end PageAssembly
