import Std.Time.DateTime.PlainDateTime
import Std.Time.DateTime.Timestamp
import WordMachine.Log.Moment
import WordMachine.Program.Basic

/-! # The command line

The outer layer: it looks up what a call of the program depends on, calls it, and carries out what
it asks for. -/

namespace WordMachine.CommandLine

/-- The moment that the clock shows. -/
def now : IO Log.Moment := do
  let stamp ← Std.Time.Timestamp.now
  let wall : Std.Time.WallTime := .ofNanoseconds stamp.toNanosecondsSinceUnixEpoch
  let t := Std.Time.PlainDateTime.ofWallTime wall
  return {
    year := t.date.year.toInt.toNat, month := t.date.month.val.toNat, day := t.date.day.val.toNat
    hour := t.time.hour.val.toNat, minute := t.time.minute.val.toNat
    second := t.time.second.val.toNat, microsecond := t.time.nanosecond.val.toNat / 1000 }

/-- The variables of the environment that count. -/
def environmentVariables : IO (List (String × String)) :=
  Environment.variableNames.filterMapM fun name =>
    return (← IO.getEnv name).map (name, ·)

/-- Adds what lies at a place on the disk. -/
def observe (fs : FileSystem) (place : Place) : IO FileSystem := do
  let path := (← IO.currentDir) / Path.textOf true place
  if place.isEmpty then return fs
  else if ← path.isDir then return fs.put place .directory
  else if ← path.pathExists then return fs.put place (.file (← IO.FS.readBinFile path))
  else return fs

/-- The files on the disk, as far as paths lead to them. -/
def snapshot (paths : List String) : IO FileSystem := do
  let directory := (Path.ofText (← IO.currentDir).toString).names
  let empty : FileSystem := { workingDirectory := directory }
  let places := FileSystem.route [] directory ++
    paths.flatMap fun path => empty.placesOf (Path.ofText path)
  places.foldlM observe empty

/-- Writes an entry to the disk. -/
def record (place : Place) : Entry → IO Unit
  | .directory => IO.FS.createDirAll (Path.textOf true place)
  | .file content => IO.FS.writeBinFile (Path.textOf true place) content

end WordMachine.CommandLine

open WordMachine

/-- Calls the program and yields its exit code. -/
def main (args : List String) : IO UInt32 := do
  let output ← IO.getStdout
  let found ← CommandLine.environmentVariables
  let environment := Environment.ofVariables (List.lookup · found) (← output.isTty)
  let fs ← CommandLine.snapshot (Program.pathsOf environment args)
  let outcome := Program.call environment (← CommandLine.now).text args fs
  for (place, entry) in outcome.files.changesSince fs do
    CommandLine.record place entry
  output.putStr outcome.stdout
  (← IO.getStderr).putStr outcome.stderr
  return outcome.exit.toUInt32
