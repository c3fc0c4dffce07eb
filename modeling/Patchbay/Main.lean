import Patchbay.Command.Basic
/-!
# The program

Runs a command line on the files of the system: standard output is what the command has written,
and a failure goes to standard error.
-/

namespace Patchbay

/-- The fault that an error of the system is. -/
def Store.Fault.ofError : IO.Error → Store.Fault
  | .noFileOrDirectory .. => .notFound
  | .alreadyExists .. => .alreadyThere
  | .inappropriateType _ code details =>
    if code = 20 then .notAFolder else if code = 21 then .isAFolder else .other details
  | error => .other (toString error)

/-- The result of an operation of the system. -/
def Store.attempt {β : Type} (operation : IO β) : IO (Except Store.Fault β) := do
  match ← operation.toBaseIO with
  | .ok b => return .ok b
  | .error e => return .error (.ofError e)

instance : Store IO where
  entry? path := do
    match ← Store.attempt (IO.FS.DirEntry.mk path "").root.metadata with
    | .ok found => return some (if found.type matches .dir then .folder else .file)
    | .error _ => return none
  read path := Store.attempt (IO.FS.readFile path)
  write path text := Store.attempt (IO.FS.writeFile path text)
  makeFolder path := Store.attempt (IO.FS.createDir path)
  removeFile path := Store.attempt (IO.FS.removeFile path)
  names path := Store.attempt do
    return (← (IO.FS.DirEntry.mk path "").root.readDir).toList.map (·.fileName)

/-- The folder that holds the settings of all programs. -/
def settingsFolder : IO String := do
  match (← IO.getEnv "XDG_CONFIG_HOME").filter (·.startsWith "/"), ← IO.getEnv "HOME" with
  | some folder, _ => return folder
  | none, some home => return if home.isEmpty then "." else Path.join home ".config"
  | none, none => return "."

end Patchbay

def main (arguments : List String) : IO UInt32 := do
  let outcome ← Patchbay.Command.run (m := IO) (.within (← Patchbay.settingsFolder)) arguments
  IO.print outcome.output
  if let some text := outcome.error then IO.eprintln text
  return outcome.exit.toUInt32
