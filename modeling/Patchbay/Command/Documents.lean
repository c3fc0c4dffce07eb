import Patchbay.Command.Output
/-!
# The commands about documents and settings

List, show, copy and delete documents, and show or create settings.
-/

namespace Patchbay.Command

variable {m : Type → Type} [Monad m] [Store m]

/-! ## Loading -/

def loadDocument (home : Library.Home) (name : String) : Action m Document :=
  Action.orFail (fun f => (Failure.ofFault f).behind ("could not load document '" ++ name ++ "'"))
    (Library.resolve home name)

/-- The settings of a file, or the user's settings. -/
def loadSettings (home : Library.Home) (path : Option String) : Action m Settings :=
  let failure (path : String) (f : Library.Fault) : Failure :=
    (Failure.ofFault f).behind ("could not load settings '" ++ path ++ "'")
  match path with
  | some path => Action.orFail (failure path) (Library.loadSettings path)
  | none => Action.orFail (failure home.settings) (Library.loadSettingsOrStandard home.settings)

/-! ## Documents -/

def summary (d : Document) : String :=
  toString d.nodes.length ++ " nodes, " ++ toString d.connections.length ++ " connections"

def listPresets : Action m Unit := do
  Action.say "Factory Documents:"
  Action.say "=================="
  Preset.all.forM fun p => Action.say ("  " ++ left 20 p.displayName ++ " - " ++ summary p.document)
  Action.say ""

def listUserDocuments (home : Library.Home) : Action m Unit := do
  Action.say "User Documents:"
  Action.say "==============="
  let paths ← Library.list (m := m) home.documents
  if paths.isEmpty then
    Action.say "  (none)"
    Action.say ""
    Action.say "  Start from a factory document with: resonode documents copy <name>\n"
  paths.forM fun path => do
    let about := match ← Library.loadDocument (m := m) path with
      | .ok d => summary d
      | .error _ => "(error loading)"
    Action.say ("  " ++ left 20 ((Library.nameOf path).getD "unknown") ++ " - " ++ about)
  Action.say ""

def listDocuments (home : Library.Home) (presetsOnly userOnly : Bool) : Action m Unit := do
  if !userOnly then listPresets
  if !presetsOnly then listUserDocuments home

def nodeLine (n : NodeRecord) : String := "  " ++ left 6 n.id ++ " " ++ n.name

def commentLine (c : Comment) : String :=
  "  " ++ c.id ++ " [" ++ ", ".intercalate c.links ++ "] " ++ c.text

/-- What a document holds, under its name. -/
def documentLines (name : String) (d : Document) : List String :=
  ["Document: " ++ name, underline (10 + name.utf8ByteSize), "",
      "Nodes (" ++ toString d.nodes.length ++ "):"] ++
    d.nodes.map nodeLine ++
    ["", "Connections (" ++ toString d.connections.length ++ "):"] ++
    d.connections.map (fun c => "  " ++ c.text) ++
    (if d.comments.isEmpty then [] else
      ["", "Comments (" ++ toString d.comments.length ++ "):"] ++ d.comments.map commentLine)

def showDocument (home : Library.Home) (name : String) (json : Bool) : Action m Unit := do
  let d ← loadDocument home name
  if json then Action.say d.toText else Action.sayAll (documentLines name d)

def alreadyThere {β : Type} (path : String) : Action m β :=
  Action.fail ("'" ++ path ++ "' already exists. Use --force to overwrite.")

/-- Where a copy of a preset goes. -/
def copyPath (home : Library.Home) (source : String) (name output : Option String) :
    Action m String :=
  match output with
  | some path => return path
  | none => do
    let name := name.getD source
    if (Preset.find? name).isSome && name != source then
      Action.fail ("'" ++ name ++ "' would shadow a factory document")
    let folder ← Action.orFail Failure.ofFault (Library.documentsFolder (m := m) home)
    return Path.join folder (name ++ ".json")

def copyDocument (home : Library.Home) (source : String) (name output : Option String)
    (force : Bool) : Action m Unit := do
  match Preset.find? source with
  | none => Action.fail ("'" ++ source ++ "' is not a factory document")
  | some preset =>
    let path ← copyPath home source name output
    if !force && (← Store.isThere (m := m) path) then alreadyThere path
    Action.orFail Failure.ofFault (Library.saveDocument (m := m) path preset.document)
    Action.say ("Copied '" ++ source ++ "' to " ++ path)

def deleteDocument (home : Library.Home) (name : String) : Action m Unit := do
  if (Preset.find? name).isSome then
    Action.fail ("cannot delete factory document '" ++ name ++ "'")
  let path := home.document name
  if !(← Store.isThere (m := m) path) then
    Action.fail ("user document '" ++ name ++ "' not found")
  Action.orFail (fun f => ⟨"could not delete '" ++ path ++ "'", [f.message]⟩)
    (Store.removeFile (m := m) path)
  Action.say ("Deleted " ++ path)

def pathLine (title path : String) : Action m Unit := do
  let missing := !(← Store.isThere (m := m) path)
  Action.say (title ++ path ++ (if missing then " (not created)" else ""))

def showPaths (home : Library.Home) : Action m Unit := do
  pathLine "Config directory:    " home.folder
  pathLine "Documents directory: " home.documents
  pathLine "Settings file:       " home.settings

/-! ## Settings -/

def showSettings (home : Library.Home) (path : Option String) : Action m Unit := do
  match (← loadSettings home path).toToml? with
  | some text => Action.write text
  | none =>
    let cause := "out-of-range value for u64 type"
    throw ⟨"failed to serialize TOML: " ++ cause, [cause]⟩

def initSettings (home : Library.Home) (path : Option String) (force : Bool) : Action m Unit := do
  let path := path.getD home.settings
  if !force && (← Store.isThere (m := m) path) then alreadyThere path
  Action.orFail Failure.ofFault (Library.saveSettings (m := m) path {})
  Action.say ("Wrote " ++ path)

end Patchbay.Command
