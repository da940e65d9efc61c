import WordMachine.Settings.Storage

/-! # Changing settings

One setting is changed by its name and a text for its value, then all of them are saved. Settings
held in memory keep the change when the file cannot be written. -/

namespace WordMachine.Settings

/-- The value that clears a limit. -/
def unset : String := "none"

/-- The limit that a text stands for. -/
def limitOfText (key value : String) : Except SettingsError (Option Nat) :=
  if String.ofList (value.toList.map Char.toLower) = unset then .ok none
  else match Numeral.readUnsigned value with
    | .ok n => .ok (some n)
    | .error cause =>
      .error (.invalidValue key
        ("expected a non-negative integer or '" ++ unset ++ "': " ++ cause.message))

/-- The switch that a text stands for. -/
def switchOfText (key value : String) : Except SettingsError Bool :=
  if value = switchText true then .ok true
  else if value = switchText false then .ok false
  else .error (.invalidValue key "expected 'true' or 'false'")

/-- The settings with one of them changed. -/
def assign (s : Settings) (key value : String) : Except SettingsError Settings :=
  if key = strictKey then return { s with strictOpcodes := ← switchOfText key value }
  else if key = stackKey then return { s with stackLimit := ← limitOfText key value }
  else if key = memoryKey then return { s with memoryLimit := ← limitOfText key value }
  else if key = stepKey then return { s with stepLimit := ← limitOfText key value }
  else .error (.unknownKey key)

/-- Changes one of the settings held in memory and saves all of them. -/
def update [Disk] (path key value : String) : EStateM SettingsError (Settings × FileSystem) Unit :=
  fun (s, fs) =>
    match s.assign key value with
    | .error e => .error e (s, fs)
    | .ok s =>
      match save path s fs with
      | .ok _ fs => .ok () (s, fs)
      | .error e fs => .error e (s, fs)

/-- Changes one of the settings in the file. -/
def change [Disk] (path key value : String) : EStateM SettingsError FileSystem Unit := fun fs =>
  match load path fs with
  | .error e fs => .error e fs
  | .ok s fs =>
    match update path key value (s, fs) with
    | .ok _ (_, fs) => .ok () fs
    | .error e (_, fs) => .error e fs

end WordMachine.Settings
