import PageAssembly.Table

/-!
Values of the TOML format, and the tables that assignments below headers build up. Each table knows
how it came to be, because that decides what can still be added to it.
-/

namespace PageAssembly

/-- A table is written out as a value, opened by a header, passed on the way to a deeper header, or
made by a key of several parts. -/
inductive TableOrigin where
  | written
  | opened
  | passed
  | joined
deriving DecidableEq

/-- Numbers with a point or an exponent and moments in time keep their texts. Tables that one header
opens again and again stand with the newest apart and the others before it, the later ones first. -/
inductive Toml where
  | string (content : String)
  | whole (value : Int)
  | truth (value : Bool)
  | real (spelling : String)
  | moment (spelling : String)
  | array (items : List Toml)
  | table (origin : TableOrigin) (entries : List (String × Toml))
  | tables (newest : List (String × Toml)) (earlier : List (List (String × Toml)))

namespace Toml

abbrev Entries := List (String × Toml)

structure Assignment where
  path : List String
  key : String
  value : Toml

structure Header where
  path : List String
  key : String
  repeated : Bool
deriving DecidableEq

structure Section where
  header : Header
  assignments : List Assignment

structure Document where
  assignments : List Assignment
  sections : List Section

/-- Whether a key whose path goes through a table can add to it. The table that takes the value must
have been made by such keys; one that a header passed can only be gone through. -/
def admits (origin : TableOrigin) (furtherPath : List String) : Bool :=
  match origin with
  | .joined => true
  | .passed => !furtherPath.isEmpty
  | .opened | .written => false

def assign (entries : Entries) (path : List String) (key : String) (value : Toml) :
    Option Entries :=
  match path with
  | [] => if Table.has entries key then none else some (Table.put entries key value)
  | step :: path =>
      match Table.get? entries step with
      | none => do
          let inner ← assign [] path key value
          some (Table.put entries step (.table .joined inner))
      | some (.table origin inner) =>
          if admits origin path then do
            let inner ← assign inner path key value
            some (Table.put entries step (.table origin inner))
          else
            none
      | some (.tables newest earlier) =>
          if path.isEmpty then
            none
          else do
            let newest ← assign newest path key value
            some (Table.put entries step (.tables newest earlier))
      | some _ => none

def assignAll (entries : Entries) (assignments : List Assignment) : Option Entries :=
  assignments.foldlM (fun entries one => assign entries one.path one.key one.value) entries

/-- Changes the table that the path of a header leads to. Of repeated tables the newest is meant. -/
def atPath (entries : Entries) (path : List String) (change : Entries → Option Entries) :
    Option Entries :=
  match path with
  | [] => change entries
  | step :: path =>
      match Table.get? entries step with
      | none => do
          let inner ← atPath [] path change
          some (Table.put entries step (.table .passed inner))
      | some (.table .written _) => none
      | some (.table origin inner) => do
          let inner ← atPath inner path change
          some (Table.put entries step (.table origin inner))
      | some (.tables newest earlier) => do
          let newest ← atPath newest path change
          some (Table.put entries step (.tables newest earlier))
      | some _ => none

/-- Opens a table once. One that was only passed before is opened with what it has. -/
def openTable (key : String) (assignments : List Assignment) (entries : Entries) :
    Option Entries := do
  let start ←
    match Table.get? entries key with
    | none => some []
    | some (.table .passed inner) => some inner
    | some _ => none
  let inner ← assignAll start assignments
  some (Table.put entries key (.table .opened inner))

def openNext (key : String) (assignments : List Assignment) (entries : Entries) :
    Option Entries := do
  let earlier ←
    match Table.get? entries key with
    | none => some []
    | some (.tables newest earlier) => some (newest :: earlier)
    | some _ => none
  let newest ← assignAll [] assignments
  some (Table.put entries key (.tables newest earlier))

def addSection (entries : Entries) (part : Section) : Option Entries :=
  let change := if part.header.repeated then openNext else openTable
  atPath entries part.header.path (change part.header.key part.assignments)

def Document.entries? (document : Document) : Option Entries := do
  let start ← assignAll [] document.assignments
  document.sections.foldlM addSection start

def items? : Toml → Option (List Toml)
  | .array items => some items
  | .tables newest earlier => some ((newest :: earlier).reverse.map (.table .opened))
  | _ => none

/-- The values of a record whose fields have these names, in this order: a table that has no other
names, or an array with the values in order, where those behind the last field do not count. -/
def fields? (names : List String) : Toml → Option Entries
  | .table _ entries => if entries.all fun (name, _) => name ∈ names then some entries else none
  | value => value.items?.map names.zip

end Toml

end PageAssembly
