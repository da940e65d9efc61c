import WordMachine.Settings.Basic
import WordMachine.Toml.Document

/-! # Settings as a document

A TOML document with one line for each setting that is not absent. Reading ignores keys that it does
not know. Integers of a document have 64 bits and a sign, so a limit of `2 ^ 63` or more can be held
but not written. -/

namespace WordMachine.Settings

/-- The line of a limit, none if there is no limit. -/
def limitLine (key : String) : Option Nat → List Char
  | none => []
  | some n => key.toList ++ " = ".toList ++ Numeral.chars 10 n ++ ['\n']

/-- The document of the settings. -/
def document (s : Settings) : String :=
  String.ofList <|
    strictKey.toList ++ " = ".toList ++ (switchText s.strictOpcodes).toList ++ ['\n'] ++
      limitLine stackKey s.stackLimit ++ limitLine memoryKey s.memoryLimit ++
      limitLine stepKey s.stepLimit

/-- Whether a limit fits in an integer of the file. -/
def fits (limit : Option Nat) : Bool := limit.all (· < Toml.integerBound)

/-- Whether every limit fits in an integer of the file. -/
def storable (s : Settings) : Bool := fits s.stackLimit && fits s.memoryLimit && fits s.stepLimit

/-- The document of the settings, if they can be saved. That an integer of `2 ^ 63` or more is
refused, rather than written and not read back, is an assumption about the writer of TOML
documents. -/
def toDocument (s : Settings) : Except SettingsError String :=
  if s.storable then .ok s.document else .error .outOfRange

/-- The value of a switch, false if it is absent. -/
def switchOf (es : Toml.Entries) (key : String) : Option Bool :=
  match es.lookup key with
  | none => some false
  | some (.scalar (.boolean b)) => some b
  | some _ => none

/-- The value of a limit, none if it is absent. -/
def limitOf (es : Toml.Entries) (key : String) : Option (Option Nat) :=
  match es.lookup key with
  | none => some none
  | some (.scalar (.integer (.ofNat n))) => some (some n)
  | some _ => none

/-- The settings of a document. -/
def ofEntries (es : Toml.Entries) : Option Settings := do
  let strictOpcodes ← switchOf es strictKey
  let stackLimit ← limitOf es stackKey
  let memoryLimit ← limitOf es memoryKey
  let stepLimit ← limitOf es stepKey
  return { strictOpcodes, stackLimit, memoryLimit, stepLimit }

/-- The settings of the text of a document. -/
def ofDocument (text : String) : Except SettingsError Settings :=
  match Toml.read text >>= ofEntries with
  | some s => .ok s
  | none => .error .malformed

end WordMachine.Settings
