import Patchbay.Command.Arguments
import Patchbay.Command.Kinds
import Patchbay.Command.Sound
/-!
# The command line

Runs what the arguments ask for.
-/

namespace Patchbay.Command

def versionText : String := "resonode 0.1.0\n"

def helpText : String :=
  "Resonode node graph CLI\n\nUsage: resonode [OPTIONS] <COMMAND>\n\nCommands:\n" ++
    String.join (commands.map fun (name, group) =>
      "  " ++ name ++ (if group.isEmpty then "" else " <" ++ "|".intercalate group ++ ">") ++ "\n")

variable {m : Type → Type} [Monad m] [Store m]

/-- Does what is asked for. -/
def perform (home : Library.Home) : Request → Action m Unit
  | .kinds kind category => kinds kind category
  | .check document output settings => check home document output settings
  | .program document output settings => program home document output settings
  | .simulate document keys hold samples settings =>
    simulate home document keys hold samples settings
  | .listDocuments presetsOnly userOnly => listDocuments home presetsOnly userOnly
  | .showDocument name json => showDocument home name json
  | .copyDocument source name output force => copyDocument home source name output force
  | .deleteDocument name => deleteDocument home name
  | .showPaths => showPaths home
  | .showSettings path => showSettings home path
  | .initSettings path force => initSettings home path force

/-- Runs a command line. One that cannot be read does nothing and exits with 2. -/
def run (home : Library.Home) (arguments : List String) : m Outcome :=
  match parse arguments with
  | .ok request => (perform home request).outcome
  | .error .help => return ⟨0, helpText, none⟩
  | .error .version => return ⟨0, versionText, none⟩
  | .error .wrong => return ⟨2, "", none⟩

end Patchbay.Command
