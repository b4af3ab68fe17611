import PageAssembly.Store.Basic
import PageAssembly.Store.Path
import PageAssembly.Table

/-!
Files below a directory. Names that would lead out of it are refused before anything is read; other
names are followed segment by segment.
-/

namespace PageAssembly

inductive FileTree where
  | file (data : Bytes)
  | directory (entries : List (String × FileTree))

namespace FileTree

instance : Inhabited FileTree := ⟨.directory []⟩

def insert (tree : FileTree) (path : List String) (data : Bytes) : FileTree :=
  match path with
  | [] => .file data
  | segment :: path =>
      let entries :=
        match tree with
        | .directory entries => entries
        | .file _ => []
      let inner := (Table.get? entries segment).getD (.directory [])
      .directory (Table.put entries segment (insert inner path data))

def maxSegment : Nat := 255

inductive WalkFault where
  | missing
  | fault (fault : ReadFault)

def walk : FileTree → List String → Except WalkFault FileTree
  | tree, [] => .ok tree
  | .file _, _ :: _ => .error (.fault .notDirectory)
  | .directory entries, segment :: path =>
      if StorePath.stays segment then
        walk (.directory entries) path
      else if maxSegment < (Text.encodeString segment).length then
        .error (.fault .nameTooLong)
      else
        match Table.get? entries segment with
        | some tree => walk tree path
        | none => .error .missing

end FileTree

structure DirectoryStore where
  root : String
  tree : FileTree

namespace DirectoryStore

/-- A name counts from the root, with or without slashes before it. -/
def relative (name : String) : String :=
  String.ofList (Text.dropLeading '/' name.toList)

/-- The path of a name; names that are empty or go up have none. -/
def pathFor (store : DirectoryStore) (name : String) : Except StoreError String :=
  let relative := relative name
  if name = "" ∨ !(StorePath.components relative).all StorePath.Component.descends then
    .error (.invalidName name)
  else
    .ok (StorePath.join store.root relative)

def pathLimit : Nat := 4096

def read (store : DirectoryStore) (name : String) : Except StoreError Bytes := do
  let path ← store.pathFor name
  if path.toList.contains '\x00' then
    .error (.unreadable name .zeroByte)
  else if pathLimit ≤ (Text.encodeString path).length then
    .error (.unreadable name .nameTooLong)
  else
    match store.tree.walk (StorePath.segments (relative name)) with
    | .ok (.file data) => .ok data
    | .ok (.directory _) => .error (.unreadable name .isDirectory)
    | .error (.fault fault) => .error (.unreadable name fault)
    | .error .missing => .error (.notFound name)

def ofList (root : String) (files : List (String × Bytes)) : DirectoryStore :=
  ⟨root, files.foldl (fun tree (name, data) =>
    tree.insert ((StorePath.segments name).filter fun segment => !StorePath.stays segment) data)
    (.directory [])⟩

def toStore (store : DirectoryStore) : Store := ⟨store.read⟩

end DirectoryStore

end PageAssembly
