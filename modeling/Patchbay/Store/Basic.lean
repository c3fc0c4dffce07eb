import Patchbay.Store.Path
/-!
# Stores

Where files are kept. What a program does with files is written against this interface, so that it
can be run on a real file system as well as on a folder that is only a value.
-/

namespace Patchbay

namespace Store

/-- Why a file operation fails. -/
inductive Fault where
  | notFound
  | alreadyThere
  | notAFolder
  | isAFolder
  | nameTooLong
  | other (text : String)
deriving DecidableEq, Repr

def Fault.message : Fault → String
  | .notFound => "No such file or directory (os error 2)"
  | .alreadyThere => "File exists (os error 17)"
  | .notAFolder => "Not a directory (os error 20)"
  | .isAFolder => "Is a directory (os error 21)"
  | .nameTooLong => "File name too long (os error 36)"
  | .other text => text

/-- What a path leads to. -/
inductive Entry where
  | file
  | folder
deriving DecidableEq, Repr

end Store

/-- Files and folders, by their paths. -/
class Store (m : Type → Type) where
  /-- What is at a path, if anything is. -/
  entry? : String → m (Option Store.Entry)
  read : String → m (Except Store.Fault String)
  /-- Puts a text into a file, which is made when it is not there. -/
  write : String → String → m (Except Store.Fault Unit)
  /-- Makes one folder. -/
  makeFolder : String → m (Except Store.Fault Unit)
  removeFile : String → m (Except Store.Fault Unit)
  /-- The names in a folder, in no particular order. -/
  names : String → m (Except Store.Fault (List String))

namespace Store

variable {m : Type → Type} [Monad m] [Store m]

def isThere (path : String) : m Bool := return (← entry? path).isSome

def isFile (path : String) : m Bool := return (← entry? path) == some .file

def isFolder (path : String) : m Bool := return (← entry? path) == some .folder

/-- Makes a folder, after the folders that it lies in where these are missing. `depth` bounds how
many that can be. -/
def makeFolders : (depth : Nat) → (path : String) → m (Except Fault Unit)
  | 0, _ => return .ok ()
  | depth + 1, path => do
    if path.isEmpty then return .ok ()
    let settled (made : Except Fault Unit) : m (Except Fault Unit) := do
      if made matches .error _ then
        if ← isFolder path then return .ok ()
      return made
    let made ← makeFolder path
    match made, Path.parent? path with
    | .error .notFound, some parent =>
      match ← makeFolders depth parent with
      | .error fault => return .error fault
      | .ok () => settled (← makeFolder path)
    | .error .notFound, none => return .error (.other "failed to create whole tree")
    | _, _ => settled made

/-- Makes a folder and all folders that it lies in. -/
def makeAll (path : String) : m (Except Fault Unit) := makeFolders (path.length + 1) path

end Store

end Patchbay
