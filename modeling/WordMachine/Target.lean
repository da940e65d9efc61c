import WordMachine.Files.System
import WordMachine.Hex
import WordMachine.Log.Record

/-! # Targets

A target names code: either it is the code, written in hexadecimal, or it is the path of a file that
holds such a text.

* **Code.** An optional `0x` and hexadecimal digits, possibly none, and nothing else.
* **Files.** All blanks in a file are dropped, then its content has to be code.
* **Notices.** What is noted on the way depends on the target, the file and the outcome alone. -/

namespace WordMachine

/-- Why a target yields no code. -/
inductive TargetError where
  /-- The file cannot be read. -/
  | unreadable (failure : Failure)
  /-- The target is no whole number of bytes. -/
  | malformed (cause : Hex.Malformed)
  /-- The file holds no whole number of bytes. -/
  | malformedFile (path : String) (cause : Hex.Malformed)
  /-- The file holds something else. -/
  | notCode (path : String)
deriving DecidableEq, Repr

namespace TargetError

/-- What is wrong with the text of a target or of its file. -/
def reason : TargetError → String
  | unreadable failure => failure.message
  | malformed cause => cause.message
  | malformedFile path cause => "file '" ++ path ++ "': " ++ cause.message
  | notCode path => "file '" ++ path ++ "' doesn't contain valid bytecode."

/-- What a user is told. -/
def message (e : TargetError) : String :=
  match e with
  | unreadable _ => "filesystem error: " ++ e.reason
  | _ => "parse error: " ++ e.reason

/-- The cause with its fields by name. -/
def debug (e : TargetError) : String :=
  match e with
  | unreadable failure => "FilesystemError(" ++ failure.debug ++ ")"
  | _ => "ParseError(" ++ Quoted.quoted e.reason ++ ")"

end TargetError

namespace Target

/-- Whether a character is a hexadecimal digit, in either case. -/
def isDigit (c : Char) : Bool := (Numeral.digit? 16 c).isSome

/-- Whether a text is code. -/
def isCode (cs : List Char) : Bool := (Hex.dropMark cs).all isDigit

/-- The text of a file without its blanks. -/
def compacted (content : String) : String := String.ofList (Blank.strip content.toList)

/-- The code that the content of a file stands for. -/
def ofContent (path content : String) : Except TargetError Bytes :=
  let text := compacted content
  if isCode text.toList then
    match Hex.decode text with
    | .ok bs => .ok bs
    | .error cause => .error (.malformedFile path cause)
  else .error (.notCode path)

/-- The code that a target stands for. -/
def resolve (fs : FileSystem) (target : String) : Except TargetError Bytes :=
  if isCode target.toList then
    match Hex.decode target with
    | .ok bs => .ok bs
    | .error cause => .error (.malformed cause)
  else match fs.readText (Path.ofText target) with
    | .error failure => .error (.unreadable failure)
    | .ok content => ofContent target content

/-- The part of the program that resolves targets. -/
def logTarget : String := "minievm_common::input"

/-- What is noted while a target is resolved. -/
def notices (fs : FileSystem) (target : String) : List Log.Record :=
  let read : Log.Record :=
    { level := .debug, target := logTarget, message := "read bytecode from file",
      fields := [("path", .text (fs.shorten target))] }
  let invalid : Log.Record :=
    { level := .error, target := logTarget,
      message := "file '" ++ target ++ "' doesn't contain valid bytecode." }
  if isCode target.toList then
    [{ level := .debug, target := logTarget, message := "target is raw bytecode" }]
  else match resolve fs target with
    | .ok _ => [read]
    | .error (.malformedFile _ _) => [read, invalid]
    | .error (.unreadable _) =>
      [{ level := .error, target := logTarget,
         message := "failed to open file '" ++ target ++ "' ." }]
    | .error _ => [invalid]

end Target

end WordMachine
