import PageAssembly.Asset.Basic
import PageAssembly.Asset.Block
import PageAssembly.Config.Reading
import PageAssembly.Config.Settings
import PageAssembly.Decimal.Binary64
import PageAssembly.Decimal.Scaled
import PageAssembly.Digest.Base64
import PageAssembly.Digest.Sha256
import PageAssembly.Fragment.Basic
import PageAssembly.Fragment.Closure
import PageAssembly.Fragment.Collection
import PageAssembly.Fragment.Execution
import PageAssembly.Fragment.Source
import PageAssembly.Html.Escape
import PageAssembly.Http.Headers
import PageAssembly.Http.Request
import PageAssembly.Http.Writer
import PageAssembly.Json.Printer
import PageAssembly.Json.Reader
import PageAssembly.Json.Value
import PageAssembly.Language.Diagnostic
import PageAssembly.Language.Fault
import PageAssembly.Language.Grammar
import PageAssembly.Language.Node
import PageAssembly.Language.Scanner
import PageAssembly.Language.Token
import PageAssembly.Page.Basic
import PageAssembly.Page.Cache
import PageAssembly.Page.Engine
import PageAssembly.Page.Pool
import PageAssembly.Page.Render
import PageAssembly.Policy.Basic
import PageAssembly.Policy.Header
import PageAssembly.Setup.Builder
import PageAssembly.Setup.Contribution
import PageAssembly.Setup.Hook
import PageAssembly.Setup.Plugin
import PageAssembly.Setup.Script
import PageAssembly.Store.Basic
import PageAssembly.Store.Directory
import PageAssembly.Store.Marker
import PageAssembly.Store.Memory
import PageAssembly.Store.Mounted
import PageAssembly.Store.Path
import PageAssembly.Table
import PageAssembly.Text.Blank
import PageAssembly.Text.Bounds
import PageAssembly.Text.Bytes
import PageAssembly.Text.Digits
import PageAssembly.Text.Printable
import PageAssembly.Text.Quoted
import PageAssembly.Text.Search
import PageAssembly.Text.Width
import PageAssembly.Toml.Basic
import PageAssembly.Toml.Quoted
import PageAssembly.Toml.Reader
import PageAssembly.Toml.Scalar
import PageAssembly.Proofs.Fragment.Collection
import PageAssembly.Proofs.Fragment.Discovery
import PageAssembly.Proofs.Fragment.Execution
import PageAssembly.Proofs.Page.Assembling
import PageAssembly.Proofs.Page.Completeness
import PageAssembly.Proofs.Page.Assembly
import PageAssembly.Proofs.Policy.Grants
import PageAssembly.Proofs.Policy.Words
import PageAssembly.Proofs.Policy.Header
import PageAssembly.Proofs.Page.Outcome
import PageAssembly.Proofs.Page.Permission
import PageAssembly.Proofs.Fragment.Values
import PageAssembly.Proofs.Fragment.Semantics
import PageAssembly.Proofs.Fragment.Refinement
import PageAssembly.Proofs.Setup.Building
import PageAssembly.Proofs.Page.Caching
import PageAssembly.Proofs.Language.Derivation
import PageAssembly.Proofs.Language.Reading
import PageAssembly.Proofs.Language.Printing
import PageAssembly.Proofs.Language.Scanning
import PageAssembly.Proofs.Language.Lexemes
import PageAssembly.Proofs.Language.RoundTrip
import PageAssembly.Proofs.Fragment.Markup
import PageAssembly.Proofs.Fragment.Reaching
import PageAssembly.Proofs.Fragment.BreadthFirst
import PageAssembly.Proofs.Setup.Contribution
import PageAssembly.Proofs.Setup.Registration
import PageAssembly.Proofs.Page.Unreferenced
import PageAssembly.Proofs.Fragment.Splitting
import PageAssembly.Proofs.Fragment.Confinement
import PageAssembly.Proofs.Html.Decoding
import PageAssembly.Proofs.Page.Document
import PageAssembly.Proofs.Store.Marking
import PageAssembly.Proofs.Page.Linking
import PageAssembly.Proofs.Setup.SelfContained
import PageAssembly.Proofs.Page.Keys
import PageAssembly.Proofs.Policy.Appending
import PageAssembly.Proofs.Html.RawText
import PageAssembly.Proofs.Page.Inlining
import PageAssembly.Proofs.Policy.Merging
import PageAssembly.Proofs.Policy.Extending
import PageAssembly.Proofs.Policy.Conversion
import PageAssembly.Proofs.Language.Strips
import PageAssembly.Proofs.Language.Coverage
import PageAssembly.Proofs.Language.Pieces
import PageAssembly.Proofs.Language.Correspondence
import PageAssembly.Proofs.Language.Nesting
import PageAssembly.Proofs.Language.Parting
import PageAssembly.Proofs.Language.ViablePrefix
import PageAssembly.Proofs.Text.Digits
import PageAssembly.Proofs.Language.Lines
import PageAssembly.Proofs.Language.Locations
import PageAssembly.Proofs.Language.Commenting
import PageAssembly.Proofs.Fragment.Commenting
import PageAssembly.Proofs.Fragment.Declarations
import PageAssembly.Proofs.Fragment.Closing
import PageAssembly.Proofs.Page.Reordering
import PageAssembly.Proofs.Json.RoundTrip
import PageAssembly.Proofs.Page.Guarding
import PageAssembly.Proofs.Store.Paths
import PageAssembly.Proofs.Page.Pooling
