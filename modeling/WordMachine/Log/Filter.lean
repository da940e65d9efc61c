import WordMachine.Log.Record
import WordMachine.Text.Blank

/-! # Log filters

A filter is a list of directives, each of which sets the most detailed level for some records.

* **Directives.** `target=level`, a level alone, or a target alone, which stands for every level. A
  bracket after the target binds the directive to spans, in braces to fields. This program opens no
  spans, so a directive bound to a span, or to the value of a field, never concerns a record.
* **Choice.** Of the directives that concern a record the most specific decides: the one with the
  longer target, then the one with more fields. Of two alike the later one counts.
* **Absence.** A record that no directive concerns is not shown. -/

namespace WordMachine.Log

/-- The most detailed level shown; none shows nothing. -/
abbrev Threshold := Option Level

namespace Threshold

def rank : Threshold → Nat
  | none => 0
  | some l => l.rank

def name : Threshold → String
  | none => "off"
  | some l => l.name

/-- Lowercase ASCII letters for uppercase ones. -/
def lowered (s : String) : String := String.ofList (s.toList.map Char.toLower)

/-- The threshold of a number from 0 to 5, or of a name in either case. -/
def ofText? (s : String) : Option Threshold :=
  let thresholds : List Threshold := none :: Level.all.map some
  match Numeral.readUnsigned s with
  | .ok n => thresholds.find? (·.rank == n)
  | .error .empty => some (some .error)
  | .error _ => thresholds.find? (·.name == lowered s)

end Threshold

/-- Sets the threshold for some records. -/
structure Directive where
  /-- What the target of a record has to start with. -/
  target : Option String := none
  /-- The fields that a record has to have. -/
  fields : List String := []
  /-- Whether the directive is bound to a span or to the value of a field. -/
  bound : Bool := false
  threshold : Threshold := some .trace
deriving DecidableEq, Repr

/-- Why a text is no directive. -/
inductive DirectiveFault where
  | malformed
  | unknownLevel
deriving DecidableEq, Repr

/-- What a user is told. -/
def DirectiveFault.message : DirectiveFault → String
  | malformed => "invalid filter directive"
  | unknownLevel =>
    "error parsing level filter: expected one of \"off\", \"error\", \"warn\", \"info\", " ++
      "\"debug\", \"trace\", or a number 0-5"

namespace Directive

/-- How far the text of a directive has been read; numbers are positions where a part starts. -/
inductive Reading where
  | start
  | levelOrTarget (start : Nat)
  | span (start : Nat)
  | field (start : Nat)
  | fields
  | target
  | level (start : Nat)

/-- The characters between two positions. -/
def slice (text : List Char) (start stop : Nat) : String :=
  String.ofList ((text.drop start).take (stop - start))

/-- Adds a field, which may ask for a value behind `=`. -/
def addField (d : Directive) (field : String) : Except DirectiveFault Directive :=
  if field = "" then .error .malformed
  else
    let name := field.toList.takeWhile (· ≠ '=')
    .ok { d with
      fields := d.fields ++ [String.ofList name]
      bound := d.bound || field.toList.contains '=' }

/-- A word alone is a level if it can be one, and a target otherwise. -/
def ofWord (d : Directive) (word : String) : Directive :=
  match Threshold.ofText? word with
  | some threshold => { d with threshold, target := none }
  | none => { d with threshold := some .trace, target := some word }

/-- The level behind `=`; nothing there stands for every level. -/
def withLevel (d : Directive) (word : String) : Except DirectiveFault Directive :=
  if word = "" then .ok { d with threshold := some .trace }
  else match Threshold.ofText? word with
    | some threshold => .ok { d with threshold }
    | none => .error .unknownLevel

/-- Whether a target may start with a character. -/
def startsTarget (c : Char) : Bool :=
  c.isAlphanum || c == '-' || c == ':' || c == '_' || 0x80 ≤ c.toNat

/-- Reads one character at a position. -/
def readChar (text : List Char) (i : Nat) (c : Char) (d : Directive) :
    Reading → Except DirectiveFault (Reading × Directive)
  | .start =>
    if c = '[' then .ok (.span (i + 1), d)
    else if startsTarget c then .ok (.levelOrTarget i, d)
    else .error .malformed
  | .levelOrTarget start =>
    if c = '=' then .ok (.level (i + 1), { d with target := some (slice text start i) })
    else if c = '[' then .ok (.span (i + 1), { d with target := some (slice text start i) })
    else .ok (.levelOrTarget start, d)
  | .span start =>
    if c = ']' then .ok (.target, { d with bound := true })
    else if c = '\x7b' then
      .ok (.field (i + 1), { d with bound := d.bound || slice text start i ≠ "" })
    else .ok (.span start, d)
  | .field start =>
    if c = '\x7d' then (d.addField (slice text start i)).map (Reading.fields, ·)
    else .ok (.field start, d)
  | .fields => if c = ']' then .ok (.target, d) else .error .malformed
  | .target => if c = '=' then .ok (.level (i + 1), d) else .error .malformed
  | .level start => .ok (.level start, d)

/-- Reads the characters from a position on. -/
def readChars (text : List Char) : Nat → List Char → Reading → Directive →
    Except DirectiveFault (Reading × Directive)
  | _, [], reading, d => .ok (reading, d)
  | i, c :: cs, reading, d => do
    let (reading, d) ← readChar text i c d reading
    readChars text (i + 1) cs reading d

/-- Reads a directive. Blanks around the text are passed over, but count as part of its words. -/
def ofText (s : String) : Except DirectiveFault Directive := do
  let text := s.toList
  let (reading, d) ← readChars text 0 (Blank.trim text) .start {}
  match reading with
  | .levelOrTarget start => .ok (d.ofWord (slice text start text.length))
  | .level start => d.withLevel (slice text start text.length)
  | .target => .ok d
  | _ => .error .malformed

/-- Whether a directive concerns a record. -/
def concerns (d : Directive) (r : Record) : Bool :=
  !d.bound && (d.target.all fun t => r.target.startsWith t) &&
    d.fields.all fun f => f == "message" || r.fields.any (·.1 == f)

/-- Whether the second directive counts before the first. -/
def yieldsTo (d e : Directive) : Bool :=
  let length (x : Directive) := (x.target.map (·.utf8ByteSize + 1)).getD 0
  length d < length e ||
    (length d == length e && (d.fields.length < e.fields.length ||
      (d.fields.length == e.fields.length && !(e.fields < d.fields))))

end Directive

/-- The directives in the order in which they were given. -/
abbrev Filter := List Directive

namespace Filter

/-- The directive that decides on a record. -/
def decisive (f : Filter) (r : Record) : Option Directive :=
  (f.filter (·.concerns r)).foldl
    (fun best d => some (match best with
      | some b => if b.yieldsTo d then d else b
      | none => d)) none

/-- Whether a record is shown. -/
def shows (f : Filter) (r : Record) : Bool :=
  (f.decisive r).any fun d => r.level.rank ≤ d.threshold.rank

/-- The parts of a comma-separated list that are not empty. -/
def parts (s : String) : List String := (s.splitOn ",").filter (· ≠ "")

/-- The directives of a list, and a complaint for every part that is none. -/
def lenient (s : String) : Filter × List String :=
  let read := (parts s).map fun p => (p, Directive.ofText p)
  (read.filterMap fun x => x.2.toOption,
    read.filterMap fun x => match x.2 with
      | .error fault => some ("ignoring \x60" ++ x.1 ++ "\x60: " ++ fault.message)
      | .ok _ => none)

/-- The filter of an environment setting, or of a threshold if the setting has no directive, with
further directives added to it. -/
def build (default : Threshold) (setting : String) (added : String) :
    Except DirectiveFault Filter := do
  let given := (lenient setting).1
  let further ← (parts added).mapM Directive.ofText
  let first : Filter := if given.isEmpty then [{ threshold := default }] else given
  return first ++ further

end Filter

end WordMachine.Log
