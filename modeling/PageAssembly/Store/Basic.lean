import PageAssembly.Text.Bytes

/-!
Stores give the contents of files by name.
-/

namespace PageAssembly

inductive ReadFault where
  | isDirectory
  | notDirectory
  | nameTooLong
  | zeroByte
deriving DecidableEq

def ReadFault.message : ReadFault → String
  | .isDirectory => "Is a directory (os error 21)"
  | .notDirectory => "Not a directory (os error 20)"
  | .nameTooLong => "File name too long (os error 36)"
  | .zeroByte => "file name contained an unexpected NUL byte"

inductive StoreError where
  | notFound (name : String)
  | invalidName (name : String)
  | unreadable (name : String) (fault : ReadFault)
deriving DecidableEq

def StoreError.message : StoreError → String
  | .notFound name => "file not found: " ++ name
  | .invalidName name => "invalid file name: " ++ name
  | .unreadable name fault => "error reading " ++ name ++ ": " ++ fault.message

structure Store where
  read : String → Except StoreError Bytes

end PageAssembly
