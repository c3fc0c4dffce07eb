import Patchbay.Primitive
/-!
# Keys

The letters and digits of a computer keyboard, and the two octaves that are laid out on them.
-/

namespace Patchbay

inductive Key where
  | a | b | c | d | e | f | g | h | i | j | k | l | m
  | n | o | p | q | r | s | t | u | v | w | x | y | z
  | d0 | d1 | d2 | d3 | d4 | d5 | d6 | d7 | d8 | d9
deriving DecidableEq, Repr

namespace Key

/-- All keys, the letters before the digits. -/
def all : List Key :=
  [a, b, c, d, e, f, g, h, i, j, k, l, m, n, o, p, q, r, s, t, u, v, w, x, y, z,
    d0, d1, d2, d3, d4, d5, d6, d7, d8, d9]

/-- The code that a key event carries. -/
def code : Key → String
  | a => "KeyA" | b => "KeyB" | c => "KeyC" | d => "KeyD" | e => "KeyE" | f => "KeyF"
  | g => "KeyG" | h => "KeyH" | i => "KeyI" | j => "KeyJ" | k => "KeyK" | l => "KeyL"
  | m => "KeyM" | n => "KeyN" | o => "KeyO" | p => "KeyP" | q => "KeyQ" | r => "KeyR"
  | s => "KeyS" | t => "KeyT" | u => "KeyU" | v => "KeyV" | w => "KeyW" | x => "KeyX"
  | y => "KeyY" | z => "KeyZ"
  | d0 => "Digit0" | d1 => "Digit1" | d2 => "Digit2" | d3 => "Digit3" | d4 => "Digit4"
  | d5 => "Digit5" | d6 => "Digit6" | d7 => "Digit7" | d8 => "Digit8" | d9 => "Digit9"

def ofCode? (s : String) : Option Key := findByName? all code s

theorem mem_all (key : Key) : key ∈ all := by cases key <;> decide

theorem ofCode?_code (key : Key) : ofCode? key.code = some key := by cases key <;> decide

theorem code_of_ofCode? {s : String} {key : Key} (h : ofCode? s = some key) : key.code = s :=
  eq_of_beq (List.find?_some (p := fun key => code key == s) h)

theorem code_inj {key key' : Key} (h : key.code = key'.code) : key = key' :=
  Option.some.inj ((ofCode?_code key).symm.trans (h ▸ ofCode?_code key'))

/-- The keys in the order of their codes, the digits before the letters. -/
def byCode : List Key := all.drop 26 ++ all.take 26

/-- The keys of the two octaves, from the lowest note up by half steps. -/
def notes : List Key :=
  [z, s, x, d, c, v, g, b, h, n, j, m, q, d2, w, d3, e, r, d5, t, d6, y, d7, u, i]

variable {α : Type} [Scalar α]

/-- The frequency of the lowest note. -/
def lowestFrequency : α := 261.6256

/-- The frequency so many half steps above the lowest note. -/
def frequencyAbove (steps : Nat) : α :=
  lowestFrequency * Scalar.pow 2.0 (Scalar.ofNat steps / (12.0 : α))

/-- Every note key with its frequency, from the lowest up. -/
def pitches : List (Key × α) := notes.zipIdx.map fun (key, step) => (key, frequencyAbove step)

/-- The frequency of a key, if it is a note key. -/
def frequency? (key : Key) : Option α := (pitches.find? (·.1 == key)).map (·.2)

end Key

end Patchbay
