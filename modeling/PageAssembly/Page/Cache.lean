import PageAssembly.Page.Basic

/-!
Source files, assets and pages that have been made once. A cache that is turned off holds nothing.
-/

namespace PageAssembly

structure Cache where
  enabled : Bool
  files : List (String × SourceFile)
  assets : List (String × Asset)
  pages : List (String × Page)

namespace Cache

def empty (enabled : Bool) : Cache := ⟨enabled, [], [], []⟩

/-- The names of a request, one on a line. -/
def pageKey (main : String) (includes : List String) : String :=
  includes.foldl (fun key name => key ++ "\n" ++ name) main

def file? (cache : Cache) (name : String) : Option SourceFile :=
  if cache.enabled then Table.get? cache.files name else none

def asset? (cache : Cache) (name : String) : Option Asset :=
  if cache.enabled then Table.get? cache.assets name else none

def page? (cache : Cache) (key : String) : Option Page :=
  if cache.enabled then Table.get? cache.pages key else none

def insertFile (cache : Cache) (name : String) (file : SourceFile) : Cache :=
  if cache.enabled then { cache with files := Table.put cache.files name file } else cache

def insertAsset (cache : Cache) (name : String) (asset : Asset) : Cache :=
  if cache.enabled then { cache with assets := Table.put cache.assets name asset } else cache

def insertPage (cache : Cache) (key : String) (page : Page) : Cache :=
  if cache.enabled then { cache with pages := Table.put cache.pages key page } else cache

end Cache

end PageAssembly
