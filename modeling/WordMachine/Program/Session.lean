import WordMachine.Log.Record
import WordMachine.Program.Error

/-! # Sessions

What a command changes while it works: the files, and the transcript of what it said. A command that
fails leaves both behind. -/

namespace WordMachine

/-- Something that a command says. -/
inductive Output where
  /-- A note for the log. -/
  | note (r : Log.Record)
  /-- A text of its own. -/
  | text (s : String)
deriving DecidableEq, Repr

/-- The files, and what has been said so far. -/
structure Session where
  files : FileSystem
  transcript : List Output := []
deriving DecidableEq

/-- What a command does. -/
abbrev Action (α : Type) := EStateM ProgramError Session α

namespace Action

/-- Adds to the transcript. -/
def say (outputs : List Output) : Action Unit :=
  modify fun s => { s with transcript := s.transcript ++ outputs }

/-- Notes something in the log. -/
def notes (rs : List Log.Record) : Action Unit := say (rs.map .note)

/-- Prints a text. -/
def print (text : String) : Action Unit := say [.text text]

/-- The files as they are now. -/
def files : Action FileSystem := return (← get).files

/-- An outcome that may be a failure of one of the parts. -/
def orFail {ε α : Type} (wrap : ε → ProgramError) : Except ε α → Action α
  | .ok a => pure a
  | .error e => throw (wrap e)

/-- Works on the files. -/
def onFiles {ε α : Type} (wrap : ε → ProgramError) (f : EStateM ε FileSystem α) : Action α :=
  fun s =>
    match f s.files with
    | .ok a files => .ok a { s with files }
    | .error e files => .error (wrap e) { s with files }

end Action

end WordMachine
