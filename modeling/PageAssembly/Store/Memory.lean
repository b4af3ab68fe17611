import PageAssembly.Store.Basic
import PageAssembly.Table

/-!
Files held in memory.
-/

namespace PageAssembly

structure MemoryStore where
  files : List (String × Bytes)

namespace MemoryStore

def empty : MemoryStore := ⟨[]⟩

def insert (store : MemoryStore) (name : String) (data : Bytes) : MemoryStore :=
  ⟨Table.put store.files name data⟩

def remove (store : MemoryStore) (name : String) : MemoryStore :=
  ⟨Table.remove store.files name⟩

def contains (store : MemoryStore) (name : String) : Bool :=
  Table.has store.files name

def ofList (files : List (String × Bytes)) : MemoryStore :=
  ⟨Table.ofList files⟩

def read (store : MemoryStore) (name : String) : Except StoreError Bytes :=
  match Table.get? store.files name with
  | some data => .ok data
  | none => .error (.notFound name)

def toStore (store : MemoryStore) : Store := ⟨store.read⟩

end MemoryStore

end PageAssembly
