/-!
# Paths

Paths are texts whose names are separated by slashes. Empty names and dots say nothing, except for
a slash or a dot at the very front.
-/

namespace Patchbay.Path

/-- Puts a path behind a folder. An absolute path stays as it is. -/
def join (folder path : String) : String :=
  if path.startsWith "/" || folder.isEmpty || folder.endsWith "/" then
    if path.startsWith "/" then path else folder ++ path
  else folder ++ "/" ++ path

/-- The names between the slashes of a path. -/
def pieces (path : String) : List String := (path.toList.splitOn '/').map .ofList

/-- A path without the slashes at its end. -/
def withoutSlashes (path : String) : String :=
  .ofList (path.toList.reverse.dropWhile (· == '/')).reverse

/-- The names between the slashes, the last first, without those at the end that say nothing. The
name at the front always stays. -/
def trimmed : List String → List String
  | [] => []
  | [front] => [front]
  | name :: rest => if name == "" || name == "." then trimmed rest else name :: rest

/-- The names of a path, the last first. -/
def names (path : String) : List String := trimmed (pieces path).reverse

/-- The path of names that are listed the last first. A single empty name is the root. -/
def ofNames : List String → String
  | [""] => "/"
  | names => "/".intercalate names.reverse

/-- The path of the folder that a path lies in; empty for a single name, and nothing for the root
and for the empty path. -/
def parent? (path : String) : Option String :=
  match names path with
  | [] | [""] => none
  | [_] => some ""
  | _ :: rest => some (ofNames (trimmed rest))

/-- The last name of a path, unless it stands for another place. -/
def fileName? (path : String) : Option String :=
  match (names path).head? with
  | none | some "" | some "." | some ".." => none
  | some name => some name

/-- A name cut at its last dot. A dot at the front cuts nothing off. -/
def cut (name : String) : String × Option String :=
  let after := (name.toList.reverse.takeWhile (· != '.')).reverse
  let before := name.toList.take (name.toList.length - after.length - 1)
  if before.isEmpty || name == ".." then (name, none)
  else (String.ofList before, some (String.ofList after))

/-- The last name without its extension. -/
def stem? (path : String) : Option String := (fileName? path).map fun name => (cut name).1

/-- What stands behind the last dot of the last name. -/
def extension? (path : String) : Option String := (fileName? path).bind fun name => (cut name).2

end Patchbay.Path
