/-! # Grammars of command lines

What a program accepts as its arguments, and the reading of arguments by it.

* **Options** are written `--name value`, `--name=value`, `-n value`, `-nvalue` or `-n=value`;
  switches take no value, and short ones may share a dash. Two dashes alone end the options.
* **Values in waiting.** An option without an attached value waits for the next argument. Whether it
  got one, whether the value is good and whether the option was given before is found out when the
  next option or positional argument arrives, or at the end. Arguments behind a subcommand are read
  before the end of the arguments in front of it.
* **Subcommands.** The first argument that names a subcommand, where no value is awaited, hands the
  arguments after it over to that subcommand. -/

namespace WordMachine

/-- Why arguments are not accepted, or what they ask for instead of the program's work. -/
inductive UsageError where
  | unknownArgument
  | missingRequiredArgument
  | invalidValue
  | valueValidation
  | argumentConflict
  | invalidSubcommand
  | missingSubcommand
  | tooManyValues
  | displayHelp
  | displayVersion
  /-- Nothing was given, where a subcommand is needed. -/
  | displayHelpOnMissing
deriving DecidableEq, Repr

/-- What an option does. -/
inductive OptionAction where
  /-- Takes a value, which a check may refuse. -/
  | value (check : String → Option UsageError)
  /-- Is on if it is given, at most once. -/
  | toggle
  /-- Counts how often it is given. -/
  | count
  /-- Ends the reading at once. -/
  | stop (answer : UsageError)

/-- An option of a program. -/
structure OptionSpec where
  id : String
  longs : List String
  short : Option Char := none
  action : OptionAction

/-- A positional argument. -/
structure PositionalSpec where
  id : String
  required : Bool

/-- What a program or a subcommand accepts. -/
structure Grammar where
  options : List OptionSpec
  positionals : List PositionalSpec := []
  /-- The names of the subcommands. -/
  commands : List String := []

/-- What has been given: the option or position, and its value, if it has one. -/
abbrev Given := List (String × Option String)

namespace Given

def has (g : Given) (id : String) : Bool := g.any (·.1 == id)

/-- How often an option was given. -/
def count (g : Given) (id : String) : Nat := (g.filter (·.1 == id)).length

/-- The value of an option or position. -/
def value? (g : Given) (id : String) : Option String := (g.lookup id).join

end Given

namespace Grammar

/-- An option or position that may still get its value. -/
inductive Waiting where
  | option (id : String) (check : String → Option UsageError) (value : Option String)
  | positional (id value : String)

/-- How far the arguments have been read. -/
structure Reading where
  given : Given := []
  waiting : Option Waiting := none
  /-- Whether the next argument is the value of the option that waits. -/
  awaited : Bool := false
  /-- The number of positional arguments so far. -/
  position : Nat := 0
  /-- Whether the options have ended. -/
  trailing : Bool := false

namespace Reading

/-- Takes over a value, unless the option was given before or the value is refused. -/
def store (r : Reading) (id : String) (check : String → Option UsageError) (value : String) :
    Except UsageError Reading :=
  if r.given.has id then .error .argumentConflict
  else match check value with
    | some e => .error e
    | none => .ok { r with given := r.given ++ [(id, some value)] }

/-- Takes over what waits. -/
def settle (r : Reading) : Except UsageError Reading :=
  let r' := { r with waiting := none }
  match r.waiting with
  | none => .ok r'
  | some (.option _ _ none) => .error .invalidValue
  | some (.option id check (some value)) => r'.store id check value
  | some (.positional id value) => r'.store id (fun _ => none) value

/-- Takes over an option that has no value. -/
def react (r : Reading) (o : OptionSpec) : Except UsageError Reading := do
  let r ← r.settle
  match o.action with
  | .toggle =>
    if r.given.has o.id then .error .argumentConflict
    else .ok { r with given := r.given ++ [(o.id, none)], awaited := false }
  | .count => .ok { r with given := r.given ++ [(o.id, none)], awaited := false }
  | .stop answer => .error answer
  | .value _ => .ok r

/-- Takes over an option that takes a value: the one attached to it, or one that is to come. -/
def expect (r : Reading) (o : OptionSpec) (check : String → Option UsageError)
    (attached : Option String) : Except UsageError Reading := do
  let r ← r.settle
  match attached with
  | some value => return { ← r.store o.id check value with awaited := false }
  | none => return { r with waiting := some (.option o.id check none), awaited := true }

end Reading

/-- The name of a long option and the value attached to it. -/
def splitLong (arg : String) : String × Option String :=
  let cs := arg.toList.drop 2
  let name := cs.takeWhile (· ≠ '=')
  (String.ofList name,
    match cs.dropWhile (· ≠ '=') with
    | [] => none
    | _ :: value => some (String.ofList value))

/-- Reads an option written with two dashes. -/
def readLong (g : Grammar) (r : Reading) (arg : String) : Except UsageError Reading :=
  let (name, attached) := splitLong arg
  match g.options.find? (·.longs.contains name) with
  | none => .error .unknownArgument
  | some o =>
    match o.action, attached with
    | .value check, _ => r.expect o check attached
    | _, some _ => .error .tooManyValues
    | _, none => r.react o

/-- The value attached to a short option, without the sign that may stand in front of it. -/
def attachedShort : List Char → Option String
  | [] => none
  | '=' :: cs => some (String.ofList cs)
  | cs => some (String.ofList cs)

/-- Reads the options that share one dash. -/
def readShorts (g : Grammar) (r : Reading) : List Char → Except UsageError Reading
  | [] => .ok r
  | c :: cs =>
    match g.options.find? (·.short == some c) with
    | none => .error .unknownArgument
    | some o =>
      match o.action with
      | .value check => r.expect o check (attachedShort cs)
      | _ => do
        let r ← r.react o
        g.readShorts r cs

/-- Reads an argument that is no option: an awaited value, or the next positional argument. -/
def readPlain (g : Grammar) (r : Reading) (arg : String) : Except UsageError Reading :=
  match r.awaited && !r.trailing, r.waiting with
  | true, some (.option id check _) =>
    .ok { r with waiting := some (.option id check (some arg)), awaited := false }
  | _, _ =>
    match g.positionals[r.position]? with
    | some p => do
      let r ← r.settle
      return { r with
        waiting := some (.positional p.id arg), awaited := false, position := r.position + 1 }
    | none =>
      if g.commands.isEmpty || (r.trailing && g.commands.contains arg) then .error .unknownArgument
      else .error .invalidSubcommand

/-- The subcommand that explains the others. -/
def helpCommand : String := "help"

/-- The answer to a request for help on the subcommands named. -/
def helpAnswer (g : Grammar) : List String → UsageError
  | [] => .displayHelp
  | [name] => if g.commands.contains name then .displayHelp else .invalidSubcommand
  | _ => .invalidSubcommand

/-- Reads arguments up to the end or to a subcommand; yields its name and the arguments after it. -/
def scan (g : Grammar) (r : Reading) :
    List String → Except UsageError (Reading × Option (String × List String))
  | [] => .ok (r, none)
  | arg :: args =>
    if r.trailing then do
      let r ← g.readPlain r arg
      g.scan r args
    else if !r.awaited && g.commands.contains arg then
      if arg = helpCommand then .error (g.helpAnswer args) else .ok (r, some (arg, args))
    else if arg = "--" then g.scan { r with trailing := true } args
    else if arg.startsWith "--" then do
      let r ← g.readLong r arg
      g.scan r args
    else if arg.startsWith "-" && arg ≠ "-" then do
      let r ← g.readShorts r (arg.toList.drop 1)
      g.scan r args
    else do
      let r ← g.readPlain r arg
      g.scan r args

/-- What has been given, once nothing more can come; `hasCommand` says that a subcommand was. -/
def finish (g : Grammar) (r : Reading) (hasCommand : Bool) : Except UsageError Given := do
  let r ← r.settle
  if !g.commands.isEmpty && !hasCommand then
    .error (if r.given.isEmpty then .displayHelpOnMissing else .missingSubcommand)
  else if g.positionals.any fun p => p.required && !r.given.has p.id then
    .error .missingRequiredArgument
  else .ok r.given

/-- Reads the arguments of a grammar without subcommands. -/
def read (g : Grammar) (args : List String) : Except UsageError Given := do
  let (r, _) ← g.scan {} args
  g.finish r false

end Grammar

end WordMachine
