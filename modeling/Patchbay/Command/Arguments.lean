import Patchbay.Number.Nearest
/-!
# Arguments

What the command line can ask for, and how it is read. Options are given by a long name behind two
dashes or by one letter behind a dash; letters can be given together, and a value can follow its
option directly, behind an equals sign or as the next argument. Behind two bare dashes nothing is
an option any more.
-/

namespace Patchbay.Command

/-- Something that is asked for. -/
inductive Request where
  | kinds (kind category : Option String)
  | check (document : String) (output settings : Option String)
  | program (document : String) (output settings : Option String)
  | simulate (document : String) (keys : List String) (hold : Float) (samples : Nat)
      (settings : Option String)
  | listDocuments (presetsOnly userOnly : Bool)
  | showDocument (name : String) (json : Bool)
  | copyDocument (source : String) (name output : Option String) (force : Bool)
  | deleteDocument (name : String)
  | showPaths
  | showSettings (path : Option String)
  | initSettings (path : Option String) (force : Bool)

/-- Why there is nothing to be done. -/
inductive Stop where
  | help
  | version
  | wrong
deriving DecidableEq, Repr

/-- An option. Without a test of its value it takes none. -/
structure Switch where
  long : String
  short : Option Char := none
  accepts : Option (String → Bool) := none
  repeats : Bool := false

/-- What a command takes. -/
structure Form where
  switches : List Switch
  leastWords : Nat
  mostWords : Nat
  showsVersion : Bool := false

/-- What has been given: options with their values, and other words, in order. -/
structure Given where
  values : List (String × String) := []
  words : List String := []

namespace Given

def has (g : Given) (long : String) : Bool := g.values.any (·.1 == long)

def all (g : Given) (long : String) : List String :=
  (g.values.filter (·.1 == long)).map (·.2)

def value? (g : Given) (long : String) : Option String := (g.all long).head?

def word? (g : Given) (n : Nat) : Option String := g.words[n]?

/-- Notes an option. Most can be given once. -/
def put (g : Given) (s : Switch) (value : String) : Except Stop Given :=
  if g.has s.long && !s.repeats then .error .wrong
  else if s.accepts.any fun accepts => !accepts value then .error .wrong
  else .ok { g with values := g.values ++ [(s.long, value)] }

end Given

/-! ## Switches -/

def anyText : String → Bool := fun _ => true

def isPath (s : String) : Bool := !s.isEmpty

def isNumber (s : String) : Bool := (Number.parseFloat? s).isSome

/-- A number without sign that a word of 64 bits can hold. A plus may stand before it. -/
def count? (s : String) : Option Nat :=
  let digits := match s.toList with
    | '+' :: rest => rest
    | chars => chars
  if digits.isEmpty || !digits.all Char.isDigit then none
  else
    let n := Number.digitsValue 0 digits
    if n < Nat.pow 2 64 then some n else none

def flag (long : String) (short : Option Char := none) : Switch := ⟨long, short, none, false⟩

def taking (accepts : String → Bool) (long : String) (short : Option Char := none) : Switch :=
  ⟨long, short, some accepts, false⟩

/-- Every command can be told to say more; what is said then goes to a log. -/
def verbose : Switch := flag "verbose" (some 'v')

def Form.switch? (f : Form) (p : Switch → Bool) : Option Switch := (f.switches ++ [verbose]).find? p

/-! ## Reading -/

/-- Whether an argument can only be an option. -/
def isOption (argument : String) : Bool := argument.startsWith "-" && argument != "-"

/-- A long option, split at its equals sign. -/
def splitLong (text : String) : String × Option String :=
  let name := text.toList.takeWhile (· != '=')
  let rest := text.toList.drop name.length
  (String.ofList name, if rest.isEmpty then none else some (String.ofList rest.tail))

/-- Options that are given together by their letters. One that still needs a value is left over. -/
def readLetters (f : Form) : List Char → Given → Except Stop (Given × Option Switch)
  | [], g => .ok (g, none)
  | c :: rest, g =>
    if c == 'h' then .error .help
    else if c == 'V' && f.showsVersion then .error .version
    else match f.switch? (·.short == some c) with
      | none => .error .wrong
      | some s =>
        if s.accepts.isNone then do readLetters f rest (← g.put s "")
        else match rest with
          | [] => .ok (g, some s)
          | '=' :: value => do return (← g.put s (String.ofList value), none)
          | value => do return (← g.put s (String.ofList value), none)

/-- An option, and whether it still needs a value. -/
def readOption (f : Form) (argument : String) (g : Given) :
    Except Stop (Given × Option Switch) :=
  match argument.toList with
  | '-' :: '-' :: long => do
    let (name, value) := splitLong (String.ofList long)
    if name == "help" && value.isNone then .error .help
    else if name == "version" && value.isNone && f.showsVersion then .error .version
    else match f.switch? (·.long == name), value with
      | none, _ => .error .wrong
      | some s, some value => if s.accepts.isNone then .error .wrong else
          return (← g.put s value, none)
      | some s, none => if s.accepts.isNone then return (← g.put s "", none) else return (g, some s)
  | letters => readLetters f letters.tail g

def takeWord (f : Form) (g : Given) (word : String) : Except Stop Given :=
  if g.words.length < f.mostWords then .ok { g with words := g.words ++ [word] }
  else .error .wrong

/-- Reads the arguments of a command. -/
def scan (f : Form) : List String → Given → Except Stop Given
  | [], g => .ok g
  | argument :: rest, g => do
    if argument == "--" then rest.foldlM (takeWord f) g
    else if isOption argument then
      let (g, waiting) ← readOption f argument g
      match waiting, rest with
      | none, rest => scan f rest g
      | some _, [] => .error .wrong
      | some s, value :: rest =>
        if isOption value then .error .wrong else scan f rest (← g.put s value)
    else scan f rest (← takeWord f g argument)

/-- Reads the arguments of a command that must have all its words. -/
def gather (f : Form) (arguments : List String) : Except Stop Given := do
  let g ← scan f arguments {}
  if g.words.length < f.leastWords then .error .wrong else .ok g

/-- Reads the options before the name of a command, and finds that name. -/
def commandName (f : Form) : List String → Given → Except Stop (String × List String)
  | [], _ => .error .wrong
  | argument :: rest, g => do
    if argument == "--" then .error .wrong
    else if isOption argument then
      let (g, _) ← readOption f argument g
      commandName f rest g
    else return (argument, rest)

/-- The form of what stands before the name of a command. -/
def programForm : Form := ⟨[], 0, 0, true⟩

def groupForm : Form := ⟨[], 0, 0, false⟩

/-- The commands, with the commands of those that are groups. -/
def commands : List (String × List String) :=
  [("kinds", []), ("check", []), ("codegen", []), ("simulate", []),
    ("documents", ["list", "show", "copy", "delete", "paths"]), ("settings", ["show", "init"])]

/-- What a request for help with some commands comes to. -/
def helpOn : List String → Stop
  | [] => .help
  | name :: rest =>
    match commands.find? (·.1 == name), rest with
    | some _, [] => .help
    | some (_, group), [inner] => if inner ∈ group then .help else .wrong
    | _, _ => .wrong

/-! ## Commands -/

def settingsSwitch : Switch := taking isPath "settings"

def outputSwitch : Switch := taking isPath "output" (some 'o')

def documentForm : Form := ⟨[outputSwitch, settingsSwitch], 1, 1, false⟩

def simulateForm : Form :=
  ⟨[{ long := "keys", short := some 'k', accepts := some anyText, repeats := true },
      taking isNumber "hold", taking (fun s => (count? s).isSome) "samples", settingsSwitch],
    1, 1, false⟩

def copyForm : Form :=
  ⟨[taking anyText "name" (some 'n'), outputSwitch, flag "force"], 1, 1, false⟩

/-- Reads a command about documents. -/
def parseDocuments (name : String) (arguments : List String) : Except Stop Request :=
  match name with
  | "list" => do
    let g ← gather ⟨[flag "factory", flag "user"], 0, 0, false⟩ arguments
    return .listDocuments (g.has "factory") (g.has "user")
  | "show" => do
    let g ← gather ⟨[flag "json"], 1, 1, false⟩ arguments
    return .showDocument ((g.word? 0).getD "") (g.has "json")
  | "copy" => do
    let g ← gather copyForm arguments
    if g.has "name" && g.has "output" then .error .wrong
    return .copyDocument ((g.word? 0).getD "") (g.value? "name") (g.value? "output")
      (g.has "force")
  | "delete" => do
    let g ← gather ⟨[], 1, 1, false⟩ arguments
    return .deleteDocument ((g.word? 0).getD "")
  | "paths" => do
    let _ ← gather ⟨[], 0, 0, false⟩ arguments
    return .showPaths
  | "help" => .error (helpOn ("documents" :: arguments))
  | _ => .error .wrong

/-- Reads a command about settings. -/
def parseSettings (name : String) (arguments : List String) : Except Stop Request :=
  match name with
  | "show" => do
    let g ← gather ⟨[taking isPath "path"], 0, 0, false⟩ arguments
    return .showSettings (g.value? "path")
  | "init" => do
    let g ← gather ⟨[taking isPath "path", flag "force"], 0, 0, false⟩ arguments
    return .initSettings (g.value? "path") (g.has "force")
  | "help" => .error (helpOn ("settings" :: arguments))
  | _ => .error .wrong

/-- Reads a command line. -/
def parse (arguments : List String) : Except Stop Request := do
  let (name, rest) ← commandName programForm arguments {}
  match name with
  | "kinds" => do
    let g ← gather ⟨[taking anyText "category" (some 'c')], 0, 1, false⟩ rest
    return .kinds (g.word? 0) (g.value? "category")
  | "check" => do
    let g ← gather documentForm rest
    return .check ((g.word? 0).getD "") (g.value? "output") (g.value? "settings")
  | "codegen" => do
    let g ← gather documentForm rest
    return .program ((g.word? 0).getD "") (g.value? "output") (g.value? "settings")
  | "simulate" => do
    let g ← gather simulateForm rest
    return .simulate ((g.word? 0).getD "")
      ((g.all "keys").flatMap fun keys => keys.splitOn ",")
      (((g.value? "hold").bind Number.parseFloat?).getD 0.5)
      (((g.value? "samples").bind count?).getD 8)
      (g.value? "settings")
  | "documents" => do
    let (name, rest) ← commandName groupForm rest {}
    parseDocuments name rest
  | "settings" => do
    let (name, rest) ← commandName groupForm rest {}
    parseSettings name rest
  | "help" => .error (helpOn rest)
  | _ => .error .wrong

end Patchbay.Command
