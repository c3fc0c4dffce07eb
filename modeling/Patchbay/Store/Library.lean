import Patchbay.Preset
import Patchbay.Settings
import Patchbay.Store.Basic
/-!
# Libraries

Documents and settings as files. A user has a folder for them; a document is named by a preset, by
a path, or by its file's name in that folder.
-/

namespace Patchbay.Library

inductive Fault where
  | unreadable (path : String) (cause : Store.Fault)
  | unwritable (path : String) (cause : Store.Fault)
  | folder (path : String) (cause : Store.Fault)
  | document (cause : Json.Fault)
  | settings (cause : Settings.Fault)
  | notFound (name : String)

namespace Fault

def message : Fault → String
  | .unreadable path cause => "failed to read file '" ++ path ++ "': " ++ cause.message
  | .unwritable path cause => "failed to write file '" ++ path ++ "': " ++ cause.message
  | .folder path cause => "failed to create directory '" ++ path ++ "': " ++ cause.message
  | .document cause => Document.faultMessage cause
  | .settings cause => cause.message
  | .notFound name => "document not found: " ++ name

/-- The messages of what lies behind a fault. -/
def causes : Fault → List String
  | .unreadable _ cause | .unwritable _ cause | .folder _ cause => [cause.message]
  | .document _ | .settings _ | .notFound _ => []

end Fault

/-- The folder of a user's settings and documents. -/
structure Home where
  folder : String

namespace Home

/-- The folder of the program within the folder that holds the settings of all programs. -/
def within (folder : String) : Home := ⟨Path.join folder "resonode"⟩

def documents (h : Home) : String := Path.join h.folder "documents"

def settings (h : Home) : String := Path.join h.folder "settings.toml"

/-- The file of a document of the user. -/
def document (h : Home) (name : String) : String := Path.join h.documents (name ++ ".json")

end Home

variable {m : Type → Type} [Monad m] [Store m]

/-! ## Reading and writing files -/

def readFile (path : String) : m (Except Fault String) :=
  return (← Store.read path).mapError (.unreadable path)

/-- Writes a file. The folder it lies in is made when it is not there. -/
def writeFile (path text : String) : m (Except Fault Unit) := do
  let parent := (Path.parent? path).getD ""
  if !parent.isEmpty && !(← Store.isThere parent) then
    if let .error cause ← Store.makeAll parent then return .error (.folder parent cause)
  return (← Store.write path text).mapError (.unwritable path)

def loadDocument (path : String) : m (Except Fault Document) := do
  match ← readFile path with
  | .error fault => return .error fault
  | .ok text => return (Document.ofText text).mapError .document

def saveDocument (path : String) (d : Document) : m (Except Fault Unit) := writeFile path d.toText

def loadSettings (path : String) : m (Except Fault Settings) := do
  match ← readFile path with
  | .error fault => return .error fault
  | .ok text => return (Settings.ofText text).mapError .settings

/-- The settings of a file, or the standard settings when there is no such file. -/
def loadSettingsOrStandard (path : String) : m (Except Fault Settings) := do
  if ← Store.isFile path then loadSettings path else return .ok {}

def saveSettings (path : String) (s : Settings) : m (Except Fault Unit) := writeFile path s.toText

/-! ## Finding documents -/

/-- The file of a document in a folder, whether or not the name has the extension. -/
def findIn (folder name : String) : m (Option String) := do
  let path := Path.join folder (if name.endsWith ".json" then name else name ++ ".json")
  return if ← Store.isFile path then some path else none

/-- A file by its path, or else a document of the user by its name. -/
def find (h : Home) (name : String) : m (Option String) := do
  if ← Store.isFile name then return some name else findIn h.documents name

/-- A preset, or else a document that is found under the name. -/
def resolve (h : Home) (name : String) : m (Except Fault Document) := do
  match Preset.find? name with
  | some preset => return .ok preset.document
  | none => match ← find h name with
    | some path => loadDocument path
    | none => return .error (.notFound name)

/-- The documents in a folder, by their paths in order. A folder that cannot be read has none. -/
def list (folder : String) : m (List String) := do
  match ← Store.names folder with
  | .error _ => return []
  | .ok names =>
    let paths := (names.mergeSort fun a b => !(b < a)).map (Path.join folder)
    paths.filterM fun path =>
      return Path.extension? path == some "json" && (← Store.isFile path)

/-- The name of a document, given its path. -/
def nameOf (path : String) : Option String := Path.stem? path

/-- The folder of the user's documents, which is made when it is not there. -/
def documentsFolder (h : Home) : m (Except Fault String) := do
  if ← Store.isThere h.documents then return .ok h.documents
  return (← Store.makeAll h.documents).map (fun () => h.documents) |>.mapError
    (.folder h.documents)

end Patchbay.Library
