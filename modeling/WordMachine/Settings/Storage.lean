import WordMachine.Log.Record
import WordMachine.Settings.Document

/-! # Settings in a file

Where settings are kept, and how they are read and written.

* **Loading** from a path that leads nowhere first creates the file with the default settings.
* **Saving** settings that cannot be written as a document leaves the files alone. A document that
  cannot be written whole leaves behind what the disk has taken of it. -/

namespace WordMachine.Settings

/-- The path of the file: the one that the environment names, or one below the home directory. -/
def pathOf (chosen : Option String) (home : String) : String :=
  match chosen.filter (· ≠ "") with
  | some path => path
  | none => (Path.join (Path.join home ".minievm") "config.toml")

/-- The settings in the file. -/
def read (path : String) (fs : FileSystem) : Except SettingsError Settings :=
  match fs.readText (Path.ofText path) with
  | .error failure => .error (.unreadable failure)
  | .ok text => ofDocument text

/-- Writes the settings to the file. -/
def save [Disk] (path : String) (s : Settings) : EStateM SettingsError FileSystem Unit := fun fs =>
  match s.toDocument with
  | .error e => .error e fs
  | .ok text =>
    match FileAction.writeText path text fs with
    | .ok _ fs => .ok () fs
    | .error failure fs => .error (.unwritable failure) fs

/-- The settings in the file, which is created if it does not exist. -/
def load [Disk] (path : String) : EStateM SettingsError FileSystem Settings := fun fs =>
  let created := if fs.contains (Path.ofText path) then .ok () fs else save path {} fs
  match created with
  | .error e fs => .error e fs
  | .ok _ fs =>
    match read path fs with
    | .ok s => .ok s fs
    | .error e => .error e fs

/-- The part of the program that keeps settings. -/
def logTarget : String := "minievm_config"

/-- What is noted while settings are loaded. -/
def notices (path : String) (fs : FileSystem) : List Log.Record :=
  if fs.contains (Path.ofText path) then []
  else
    [{ level := .debug, target := logTarget, message := "creating default config file",
       fields := [("path", .text path)] }]

/-- Deletes the file. -/
def delete (path : String) (fs : FileSystem) : FileSystem :=
  match FileAction.delete path fs with
  | .ok _ fs => fs
  | .error _ fs => fs

end WordMachine.Settings
