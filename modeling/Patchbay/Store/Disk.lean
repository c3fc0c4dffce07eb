import Patchbay.Store.Basic
/-!
# Disks

A folder as a value. Paths lead from that folder on; a path that leads out of it stays at it.
-/

namespace Patchbay

/-- A place on a disk: the names that lead to it. -/
abbrev Disk.Place := List String

/-- The files and folders under a folder. `none` marks a folder. -/
structure Disk where
  entries : List (Disk.Place × Option String)

namespace Disk

def empty : Disk := ⟨[]⟩

/-- What is at a place. -/
def entry? (d : Disk) (place : Place) : Option (Option String) :=
  if place.isEmpty then some none else (d.entries.find? (·.1 == place)).map (·.2)

/-- The files with their paths. -/
def files (d : Disk) : List (String × String) :=
  d.entries.filterMap fun (place, content) => content.map (("/".intercalate place), ·)

/-- Puts a file or a folder at a place. -/
def put (d : Disk) (place : Place) (content : Option String) : Disk :=
  if d.entries.any (·.1 == place) then
    ⟨d.entries.map fun e => if e.1 == place then (place, content) else e⟩
  else ⟨d.entries ++ [(place, content)]⟩

def erase (d : Disk) (place : Place) : Disk := ⟨d.entries.filter (·.1 != place)⟩

/-- The bytes that a name can have. -/
def longestName : Nat := 255

/-- Follows names from a folder. All but the last must lead to folders; what the last leads to
need not be there. -/
def follow (d : Disk) : Place → List String → Except Store.Fault Place
  | place, [] => .ok place
  | place, name :: rest =>
    if name.isEmpty || name == "." then follow d place rest
    else if name == ".." then follow d place.dropLast rest
    else if longestName < name.utf8ByteSize then .error .nameTooLong
    else
      let next := place ++ [name]
      if rest.isEmpty then .ok next
      else match d.entry? next with
        | some none => follow d next rest
        | some (some _) => .error .notAFolder
        | none => .error .notFound

/-- The place that a path leads to. -/
def locate (d : Disk) (path : String) : Except Store.Fault Place :=
  if path.isEmpty then .error .notFound
  else if '\x00' ∈ path.toList then
    .error (.other "file name contained an unexpected NUL byte")
  else d.follow [] (Path.pieces path)

def kindOf? (d : Disk) (path : String) : Option Store.Entry :=
  match d.locate path with
  | .ok place => (d.entry? place).map fun content =>
      if content.isSome then .file else .folder
  | .error _ => none

def read (d : Disk) (path : String) : Except Store.Fault String := do
  match d.entry? (← d.locate path) with
  | some (some text) => .ok text
  | some none => .error .isAFolder
  | none => .error .notFound

/-- Puts a text into a file. A path that ends in a slash names no file. -/
def write (d : Disk) (path text : String) : Except Store.Fault Disk :=
  match d.locate path with
  | .ok place =>
    if d.entry? place == some none then .error .isAFolder else .ok (d.put place (some text))
  | .error .notFound =>
    match path.endsWith "/", d.locate (Path.withoutSlashes path) with
    | true, .ok _ => .error .isAFolder
    | _, _ => .error .notFound
  | .error fault => .error fault

def makeFolder (d : Disk) (path : String) : Except Store.Fault Disk := do
  let place ← d.locate (Path.withoutSlashes path)
  if (d.entry? place).isSome then .error .alreadyThere else .ok (d.put place none)

def removeFile (d : Disk) (path : String) : Except Store.Fault Disk := do
  let place ← d.locate path
  match d.entry? place with
  | some (some _) => .ok (d.erase place)
  | some none => .error .isAFolder
  | none => .error .notFound

/-- The names of what lies directly in a folder. -/
def names (d : Disk) (path : String) : Except Store.Fault (List String) := do
  let place ← d.locate path
  match d.entry? place with
  | some none => .ok <| d.entries.filterMap fun e =>
      if e.1.dropLast == place then e.1.getLast? else none
  | some (some _) => .error .notAFolder
  | none => .error .notFound

/-- Runs an operation that changes a disk; one that fails leaves it as it is. -/
def change (f : Disk → Except Store.Fault Disk) : StateM Disk (Except Store.Fault Unit) := fun d =>
  match f d with
  | .ok d => (.ok (), d)
  | .error fault => (.error fault, d)

instance : Store (StateM Disk) where
  entry? path := return (← get).kindOf? path
  read path := return (← get).read path
  write path text := change (·.write path text)
  makeFolder path := change (·.makeFolder path)
  removeFile path := change (·.removeFile path)
  names path := return (← get).names path

/-- Puts a file, or a folder where there is no text, at a path, making the folders it lies in. -/
def place (d : Disk) (path : String) (content : Option String) : Disk :=
  let names := (Path.pieces path).filter fun name => !name.isEmpty && name != "."
  let above := (List.range names.length).filterMap fun n =>
    if n = 0 then none else some (names.take n)
  let d := above.foldl (fun d folder =>
    if (d.entry? folder).isSome then d else d.put folder none) d
  if content.isNone && (d.entry? names).isSome then d else d.put names content

end Disk

end Patchbay
