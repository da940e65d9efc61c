import WordMachine.Files.Path

/-! # File systems

A file system as a value: a table from absolute places to files and directories, and the working
directory that relative paths start from.

* **Looking up.** `locate` follows the names of a path. Every name but the last must lead to a
  directory; `.` stays, `..` goes up, and the last name may be missing.
* **The disk.** What the table does not say is up to the `Disk`: it may refuse to open a file or to
  create a directory, and a write that it has begun may end before all of the content is written.
* **Actions.** Reading, writing, creating and deleting are actions that fail with a `Failure` and
  leave a file system behind in either case, since directories that were created on the way to a
  failure stay, and a file that was opened is empty before anything is written to it. -/

namespace WordMachine

/-- Why an action on files failed. -/
inductive Failure where
  | notFound
  | notADirectory
  | isADirectory
  | alreadyExists
  | nameTooLong
  | permissionDenied
  | readOnly
  | noSpace
  /-- The disk fails to read or write. -/
  | deviceError
  /-- The path holds a NUL character. -/
  | nulInPath
  /-- The content is not valid UTF-8. -/
  | notText
  /-- The path has no directory that it lies in. -/
  | noParent
deriving DecidableEq, Repr

namespace Failure

/-- The wording of a failure, without the number of the error. -/
def sentence : Failure → String
  | notFound => "No such file or directory"
  | notADirectory => "Not a directory"
  | isADirectory => "Is a directory"
  | alreadyExists => "File exists"
  | nameTooLong => "File name too long"
  | permissionDenied => "Permission denied"
  | readOnly => "Read-only file system"
  | noSpace => "No space left on device"
  | deviceError => "Input/output error"
  | nulInPath => "file name contained an unexpected NUL byte"
  | notText => "stream did not contain valid UTF-8"
  | noParent => "unable to create directory"

/-- The number and the kind of an error that the operating system reports. -/
def code? : Failure → Option (String × String)
  | notFound => some ("2", "NotFound")
  | deviceError => some ("5", "Uncategorized")
  | permissionDenied => some ("13", "PermissionDenied")
  | alreadyExists => some ("17", "AlreadyExists")
  | notADirectory => some ("20", "NotADirectory")
  | isADirectory => some ("21", "IsADirectory")
  | noSpace => some ("28", "StorageFull")
  | readOnly => some ("30", "ReadOnlyFilesystem")
  | nameTooLong => some ("36", "InvalidFilename")
  | _ => none

/-- What a user is told. -/
def message (f : Failure) : String :=
  match f.code? with
  | some (code, _) => f.sentence ++ " (os error " ++ code ++ ")"
  | none => f.sentence

/-- The failure with its fields by name. -/
def debug (f : Failure) : String :=
  match f.code? with
  | some (code, kind) =>
    "Os \x7b code: " ++ code ++ ", kind: " ++ kind ++ ", message: \"" ++ f.sentence ++ "\" \x7d"
  | none =>
    let kind := match f with
      | .nulInPath => "InvalidInput"
      | .notText => "InvalidData"
      | _ => "Other"
    "Error \x7b kind: " ++ kind ++ ", message: \"" ++ f.sentence ++ "\" \x7d"

end Failure

/-- What lies at a place. -/
inductive Entry where
  | file (content : ByteArray)
  | directory

instance : DecidableEq Entry
  | .directory, .directory => isTrue rfl
  | .file a, .file b =>
    decidable_of_iff (a.data = b.data)
      ⟨fun h => congrArg Entry.file (ByteArray.ext h), fun h => by cases h; rfl⟩
  | .directory, .file _ => isFalse nofun
  | .file _, .directory => isFalse nofun

/-- An absolute place: the names from the root. -/
abbrev Place := List String

/-- The files and directories below the root, and the working directory. -/
structure FileSystem where
  entries : List (Place × Entry) := []
  workingDirectory : Place := []
deriving DecidableEq

namespace FileSystem

/-- What lies at a place; the root is a directory. -/
def get? (fs : FileSystem) : Place → Option Entry
  | [] => some .directory
  | place => fs.entries.lookup place

/-- Puts an entry at a place, instead of what was there. -/
def put (fs : FileSystem) (place : Place) (e : Entry) : FileSystem :=
  { fs with entries := (place, e) :: fs.entries.filter (·.1 ≠ place) }

/-- Removes the places that satisfy a test. -/
def removeWhere (fs : FileSystem) (p : Place → Bool) : FileSystem :=
  { fs with entries := fs.entries.filter fun e => !p e.1 }

/-- The text of the working directory. -/
def workingText (fs : FileSystem) : String := Path.textOf true fs.workingDirectory

/-! ### Looking up -/

/-- The place of a name in a directory. -/
def step (dir : Place) (name : String) : Except Failure Place :=
  if name = Path.here then .ok dir
  else if name = Path.above then .ok dir.dropLast
  else if Path.maxName < name.utf8ByteSize then .error .nameTooLong
  else .ok (dir ++ [name])

/-- The directory of a name in a directory. -/
def enter (fs : FileSystem) (dir : Place) (name : String) : Except Failure Place := do
  let next ← step dir name
  match fs.get? next with
  | none => .error .notFound
  | some (.file _) => .error .notADirectory
  | some .directory => .ok next

/-- The directory that names lead to, one after the other. -/
def walk (fs : FileSystem) : Place → List String → Except Failure Place
  | dir, [] => .ok dir
  | dir, name :: names => do
    let next ← fs.enter dir name
    fs.walk next names

/-- The directory that a path starts from. -/
def origin (fs : FileSystem) (p : Path) : Place :=
  if p.absolute then [] else fs.workingDirectory

/-- The directory that the last name of a path is looked up in. -/
def base (fs : FileSystem) (p : Path) : Except Failure Place :=
  if p.text.toList.contains '\x00' then .error .nulInPath
  else if p.names.isEmpty && !p.absolute then .error .notFound
  else if Path.maxText ≤ p.text.utf8ByteSize then .error .nameTooLong
  else fs.walk (fs.origin p) p.names.dropLast

/-- The places that names lead to, one after the other, whatever lies there. -/
def route (dir : Place) : List String → List Place
  | [] => []
  | name :: names =>
    match step dir name with
    | .error _ => []
    | .ok next => next :: route next names

/-- The places that looking up a path may ask for. -/
def placesOf (fs : FileSystem) (p : Path) : List Place := route (fs.origin p) p.names

/-- The place of a path; its last name may lead nowhere. -/
def locate (fs : FileSystem) (p : Path) : Except Failure Place := do
  let dir ← fs.base p
  match p.names.getLast? with
  | none => .ok dir
  | some name => step dir name

/-- What a path leads to; a path that asks for a directory leads to no file. -/
def find (fs : FileSystem) (p : Path) : Except Failure Entry := do
  let place ← fs.locate p
  match fs.get? place with
  | none => .error .notFound
  | some (.file content) => if p.directory then .error .notADirectory else .ok (.file content)
  | some .directory => .ok .directory

/-- Whether a path leads to anything. -/
def contains (fs : FileSystem) (p : Path) : Bool := (fs.find p).isOk

/-- Whether a path leads to a directory. -/
def isDirectory (fs : FileSystem) (p : Path) : Bool :=
  match fs.find p with
  | .ok .directory => true
  | _ => false

/-- The bytes of a file. -/
def readBytes (fs : FileSystem) (p : Path) : Except Failure ByteArray := do
  match ← fs.find p with
  | .file content => .ok content
  | .directory => .error .isADirectory

/-- The text of a file. -/
def readText (fs : FileSystem) (p : Path) : Except Failure String := do
  let content ← fs.readBytes p
  match String.fromUTF8? content with
  | some text => .ok text
  | none => .error .notText

end FileSystem

/-! ### The disk -/

/-- What becomes of a write to a file. -/
inductive Written where
  /-- All of the content is written. -/
  | whole
  /-- The file is not opened, and what was there stays. -/
  | refused (cause : Failure)
  /-- The file is opened, which empties it, and only the first `count` bytes are written. -/
  | cutShort (count : Nat) (cause : Failure)
deriving DecidableEq, Repr

/-- What files are kept on. -/
class Disk where
  /-- What becomes of a write to a place. -/
  write : FileSystem → Place → ByteArray → Written
  /-- Why no directory is created at a place, if none is. -/
  refusal? : FileSystem → Place → Option Failure

/-- A disk that takes everything. -/
instance : Disk := ⟨fun _ _ _ => .whole, fun _ _ => none⟩

/-! ### Actions -/

/-- An action on a file system. -/
abbrev FileAction (α : Type) := EStateM Failure FileSystem α

namespace FileAction

open FileSystem

section

variable [Disk]

/-- Creates one directory where there is nothing. -/
def createDirectory (p : Path) : FileAction Unit := fun fs =>
  match fs.locate p with
  | .error e => .error e fs
  | .ok place =>
    match fs.get? place with
    | some _ => .error .alreadyExists fs
    | none =>
      match Disk.refusal? fs place with
      | some cause => .error cause fs
      | none => .ok () (fs.put place .directory)

/-- Creates one directory unless it exists. -/
def ensureDirectory (p : Path) : FileAction Unit := fun fs =>
  match createDirectory p fs with
  | .ok _ fs => .ok () fs
  | .error e fs => if fs.isDirectory p then .ok () fs else .error e fs

/-- Creates a directory and those above it, as far as they are missing. The names are given last
name first. -/
def createDirectories (absolute : Bool) : List String → FileAction Unit
  | [] => pure ()
  | name :: names => fun fs =>
    let p := Path.ofNames absolute (name :: names).reverse
    match createDirectory p fs with
    | .error .notFound fs => (createDirectories absolute names *> ensureDirectory p) fs
    | _ => ensureDirectory p fs

/-- Creates or replaces one file, as far as the disk lets it. -/
def putFile (p : Path) (content : ByteArray) : FileAction Unit := fun fs =>
  match fs.base p with
  | .error e => .error e fs
  | .ok _ =>
    if p.directory then .error .isADirectory fs
    else match fs.locate p with
      | .error e => .error e fs
      | .ok place =>
        match fs.get? place with
        | some .directory => .error .isADirectory fs
        | _ =>
          match Disk.write fs place content with
          | .whole => .ok () (fs.put place (.file content))
          | .refused cause => .error cause fs
          | .cutShort count cause =>
            .error cause (fs.put place (.file (content.extract 0 count)))

/-- Writes a text to a file and creates the directories that it lies in. -/
def writeText (path text : String) : FileAction Unit := do
  let p := Path.ofText path
  match p.parentNames? with
  | none => throw .noParent
  | some names =>
    createDirectories p.absolute names.reverse
    putFile p text.toUTF8

end

/-- Deletes a file, or a directory with all that it holds. A path that ends in `.` or `..` names a
directory that can be emptied but not removed. The result says whether the path is gone. -/
def delete (path : String) : FileAction Bool := fun fs =>
  let p := Path.ofText path
  match fs.find p, fs.locate p with
  | .ok .directory, .ok place =>
    let emptied := fs.removeWhere fun q => place.isPrefixOf q && q ≠ place
    match p.names.getLast? with
    | none => .ok false emptied
    | some name =>
      if name = Path.here ∨ name = Path.above then .ok false emptied
      else .ok true (emptied.removeWhere (· = place))
  | .ok (.file _), .ok place => .ok true (fs.removeWhere (· = place))
  | _, _ => .ok false fs

end FileAction

namespace FileSystem

/-- The entries that differ from those of an earlier file system, those above others first. -/
def changesSince (fs earlier : FileSystem) : List (Place × Entry) :=
  (fs.entries.filter fun e => decide (earlier.get? e.1 ≠ some e.2)).mergeSort
    fun a b => a.1.length ≤ b.1.length

/-- A path with the working directory written as a dot. -/
def shorten (fs : FileSystem) (path : String) : String := path.replace fs.workingText "."

/-! ### The view after each action -/

@[simp] theorem get?_put_self (fs : FileSystem) {place : Place} (h : place ≠ []) (e : Entry) :
    (fs.put place e).get? place = some e := by
  cases place with
  | nil => exact absurd rfl h
  | cons n ns => simp [get?, put]

theorem get?_put_of_ne (fs : FileSystem) {place other : Place} (h : other ≠ place) (e : Entry) :
    (fs.put place e).get? other = fs.get? other := by
  cases other with
  | nil => rfl
  | cons n ns =>
    simp only [get?, put, List.lookup_cons]
    rw [beq_false_of_ne h]
    simp only
    induction fs.entries with
    | nil => rfl
    | cons a as ih =>
      by_cases ha : a.1 = place
      · rw [List.filter_cons_of_neg (by simpa using ha), ih, List.lookup_cons,
          beq_false_of_ne (by rw [ha]; exact h)]
      · rw [List.filter_cons_of_pos (by simpa using ha), List.lookup_cons, List.lookup_cons, ih]

end FileSystem

end WordMachine
