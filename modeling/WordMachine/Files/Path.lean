/-! # Paths

A path is the names between the slashes of a text. Repeated slashes count as one; a slash in front
makes the path absolute, and one at the end asks for a directory. -/

namespace WordMachine

/-- A path, taken apart at its slashes. -/
structure Path where
  /-- The path as it was written. -/
  text : String
  absolute : Bool
  names : List String
  /-- Whether the text ends in a slash. -/
  directory : Bool
deriving DecidableEq, Repr

namespace Path

/-- The directory itself. -/
def here : String := "."

/-- The directory above. -/
def above : String := ".."

/-- The largest number of bytes in a name. -/
def maxName : Nat := 255

/-- The number of bytes from which on a path is too long. -/
def maxText : Nat := 4096

/-- The path that a text denotes. -/
def ofText (text : String) : Path where
  text
  absolute := text.toList.head? == some '/'
  names := ((text.toList.splitOn '/').map String.ofList).filter (· ≠ "")
  directory := text.toList.getLast? == some '/'

/-- The text of a path made of names. -/
def textOf (absolute : Bool) (names : List String) : String :=
  (if absolute then "/" else "") ++ "/".intercalate names

/-- The path of a list of names. -/
def ofNames (absolute : Bool) (names : List String) : Path where
  text := textOf absolute names
  absolute
  names
  directory := false

/-- The names without those that stay in place, except for one that a relative path starts with. -/
def normalNames (p : Path) : List String :=
  match p.absolute, p.names with
  | false, "." :: names => here :: names.filter (· ≠ here)
  | _, names => names.filter (· ≠ here)

/-- The names of the path that the last name is relative to; root and empty path have none. -/
def parentNames? (p : Path) : Option (List String) :=
  match p.normalNames with
  | [] => none
  | names => some names.dropLast

/-- A path with one more name, which replaces the path if it is absolute itself. -/
def join (path name : String) : String :=
  if name.toList.head? == some '/' then name
  else if path = "" ∨ path.toList.getLast? == some '/' then path ++ name
  else path ++ "/" ++ name

end Path

end WordMachine
