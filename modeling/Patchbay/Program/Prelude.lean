import Patchbay.Keyboard.Key
import Patchbay.Noise
import Patchbay.Program.Script
/-!
# The prelude of generated programs

The parts of a program that do not depend on the values of a graph: the generators of noise, and
what plays the voices of a keyboard. A program holds only those that it uses.
-/

namespace Patchbay.Program

open Script

variable {α : Type} [Scalar α]

/-! ## Noise -/

/-- The function that fills a buffer with a colour. -/
def noiseFunction : Noise.Color → String
  | .white => "whiteNoise"
  | .brown => "brownNoise"
  | .pink => "pinkNoise"
  | .blue => "blueNoise"
  | .violet => "violetNoise"
  | .grey => "greyNoise"
  | .velvet => "velvetNoise"

/-- The colours whose functions the function of a colour calls. -/
def noiseNeeds : Noise.Color → List Noise.Color
  | .blue | .violet => [.white]
  | _ => []

def random : Expr α := .send (.name "Math") "random" []

/-- A random number around zero. -/
def noiseDraw : Expr α := .minus (.times random (.number 2.0)) (.number 1.0)

def dataLength : Expr α := .member (.name "data") "length"

def dataAt (index : Expr α) : Expr α := .item (.name "data") index

/-- The sample that a loop has come to. -/
def sample : Expr α := dataAt (.name "i")

/-- The sample before it. -/
def sampleBefore : Expr α := dataAt (.minus (.name "i") (.number 1.0))

/-- Goes through the samples from a place on. -/
def forSamples (start : α) (braced : Bool) (body : List (Stmt α)) : Stmt α :=
  .forCount "i" (.number start) (.lessThan (.name "i") dataLength) "++" braced body

/-- `sum = factor * sum + white * share;` -/
def pinkSum (sum : String) (factor share : α) (operator : String) : Stmt α :=
  .set (.name sum) <| .binary operator (.times (.number factor) (.name sum))
    (.times (.name "white") (.number share))

def noiseBody : Noise.Color → List (Stmt α)
  | .white => [forSamples 0.0 false [.set sample noiseDraw]]
  | .brown =>
    [.variables [("last", .number 0.0)],
      forSamples 0.0 true
        [.set (.name "last") (.binary "/"
            (.paren (.plus (.name "last") (.times (.number 0.02) (.paren noiseDraw))))
            (.number 1.02)),
          .set sample (.times (.name "last") (.number 3.5))]]
  | .pink =>
    let sums := ["b0", "b1", "b2", "b3", "b4", "b5", "b6"]
    let total : Expr α := (sums.drop 1).foldl (fun e b => .plus e (.name b)) (.name "b0")
    [.variables (sums.map fun b => (b, .number 0.0)),
      forSamples 0.0 true
        [.const "white" noiseDraw,
          pinkSum "b0" 0.99886 0.0555179 "+",
          pinkSum "b1" 0.99332 0.0750759 "+",
          pinkSum "b2" 0.969 0.153852 "+",
          pinkSum "b3" 0.8665 0.3104856 "+",
          pinkSum "b4" 0.55 0.5329522 "+",
          pinkSum "b5" (-(0.7616 : α)) 0.016898 "-",
          .set sample (.times
            (.paren (.plus total (.times (.name "white") (.number 0.5362)))) (.number 0.11)),
          .set (.name "b6") (.times (.name "white") (.number 0.115926))]]
  | .blue =>
    [.run (.apply "whiteNoise" [.name "data"]),
      .variables [("previous", .number 0.0)],
      forSamples 1.0 true
        [.set sample (.plus
            (.times (.number 0.1) (.paren (.minus sample (.name "previous")))) sampleBefore),
          .set (.name "previous") sample]]
  | .violet =>
    [.run (.apply "whiteNoise" [.name "data"]),
      .forCount "i" (.minus dataLength (.number 1.0)) (.binary ">" (.name "i") (.number 0.0)) "--"
        false [.assign "-=" sample sampleBefore]]
  | .grey =>
    [.variables [("previous", .number 0.0)],
      forSamples 0.0 true
        [.set sample (.plus (.times (.number 0.02) (.paren noiseDraw))
            (.times (.number 0.98) (.name "previous"))),
          .set (.name "previous") sample]]
  | .velvet =>
    let floor (e : Expr α) : Expr α := .send (.name "Math") "floor" [e]
    [.forCount "n" (.number 0.0)
        (.lessThan (.name "n") (floor (.binary "/" dataLength (.number 100.0)))) "++" true
        [.set (dataAt (floor (.times random dataLength))) noiseDraw]]

def noiseHelper (color : Noise.Color) : Stmt α :=
  .function (noiseFunction color) ["data"] (noiseBody color)

/-! ## The keyboard -/

def silence : Expr α := .name "EPSILON"

/-- The gain of the voice that a loop has come to. -/
def voiceGain : Expr α := .member (.name "voice") "gain"

/-- A number of its envelope profile. -/
def voiceProfile (field : String) : Expr α := .member (.name "p") field

/-- A length of its profile from now. -/
def fromNow (length : String) : Expr α := .plus (.name "now") (voiceProfile length)

def rampGain (level time : Expr α) : Stmt α :=
  .run (.send voiceGain "exponentialRampToValueAtTime" [level, time])

def setGain (level time : Expr α) : Stmt α :=
  .run (.send voiceGain "setValueAtTime" [level, time])

def gainIsSilent : Expr α := .lessThan (.member voiceGain "value") silence

/-- A level of the profile, at least the level of silence. -/
def audible (level : String) : Expr α := .send (.name "Math") "max" [voiceProfile level, silence]

/-- Does something to every voice of a key. -/
def forVoices (body : List (Stmt α)) : List (Stmt α) :=
  [.const "now" (.member (.name "ctx") "currentTime"),
    .forItems ["voice"] (.item (.name "keyboard") (.name "key")) true <|
      [.const "p" (.item (.name "profiles") (.member (.name "voice") "profile")),
        .run (.send voiceGain "cancelAndHoldAtTime" [.name "now"])] ++ body]

def playNote : Stmt α :=
  .function "playNote" ["key"] <| forVoices
    [.guard gainIsSilent (setGain silence (.name "now")),
      .variables [("t", fromNow "attackLength")],
      rampGain (audible "attack") (.name "t"),
      .assign "+=" (.name "t") (voiceProfile "decayLength"),
      rampGain (audible "decay") (.name "t"),
      .assign "+=" (.name "t") (voiceProfile "sustainLength"),
      rampGain (audible "sustain") (.name "t"),
      .assign "+=" (.name "t") (voiceProfile "releaseLength"),
      rampGain silence (.name "t")]

def releaseNote : Stmt α :=
  .function "releaseNote" ["key"] <| forVoices
    [.cases gainIsSilent [setGain (.number 0.0) (.name "now"), .skip] [] [],
      rampGain silence (fromNow "releaseLength"),
      setGain (.number 0.0) (fromNow "releaseLength")]

def stateOf (key : String) : Expr α := .item (.name "keyState") (.name key)

def setState (key state : String) : Stmt α := .set (stateOf key) (.text state)

/-- Lets the notes of a key go. -/
def letGo (key : String) : List (Stmt α) :=
  [.run (.apply "releaseNote" [.name key]), setState key "idle"]

def setSustaining (on : Bool) : Stmt α := .set (.name "sustaining") (.bool on)

/-- Whether the key of an event has voices and its state is, or is not, held. -/
def eventKeyIs (relation : String) : Expr α :=
  .binary "&&" (.item (.name "keyboard") (.name "key"))
    (.binary relation (stateOf "key") (.text "held"))

def eventKey : Stmt α := .const "key" (.member (.name "event") "code")

def shiftIsDown : Expr α := .member (.name "event") "shiftKey"

def onKeyDown : Stmt α :=
  .listen "keydown" "event"
    [eventKey,
      .cases (eventKeyIs "!==") [.run (.apply "playNote" [.name "key"]), setState "key" "held"]
        [(shiftIsDown, [setSustaining true])] []]

def onKeyUp : Stmt α :=
  .listen "keyup" "event"
    [eventKey,
      .cases (eventKeyIs "===")
        [.cases (.name "sustaining") [setState "key" "deferred"] [] (letGo "key")]
        [(.negated shiftIsDown,
          [setSustaining false,
            .forKeys "k" (.name "keyState")
              [.cases (.binary "===" (stateOf "k") (.text "deferred")) (letGo "k") [] []]])]
        []]

/-- What plays voices when keys are pressed: a key that is held is not played again, shift holds
the notes of keys that are let go, and letting shift go lets those notes go. -/
def keyboardHelper : Paragraphs α :=
  [[.const "EPSILON" (.number 1e-5),
      .const "profiles" (.list []),
      .const "keyboard" (.record []),
      .const "keyState" (.record []),
      .variables [("sustaining", .bool false)]],
    [.function "addProfile" ["profile"]
      [.run (.send (.name "profiles") "push" [.name "profile"]),
        .result (.minus (.member (.name "profiles") "length") (.number 1.0))]],
    [.function "addVoice" ["key", "gain", "profile"]
      [.run (.send
        (.paren (.binary "??=" (.item (.name "keyboard") (.name "key")) (.list []))) "push"
        [.bundle ["gain", "profile"]])]],
    [playNote],
    [releaseNote],
    [onKeyDown],
    [onKeyUp]]

/-- The note keys with their frequencies. -/
def noteMap : Stmt α :=
  .const "NOTE_MAP" <| .list <| (Key.pitches (α := α)).map fun (key, frequency) =>
    .list [.text key.code, .number frequency]

end Patchbay.Program
