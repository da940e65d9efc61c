import WordMachine.Toml.Table

/-! # TOML documents

Readers for values of every kind and for whole documents. A document is read line by line: a header
opens a table, and a key with its value is assigned in the table that was opened last. -/

namespace WordMachine.Toml

/-! ### Arrays and inline tables -/

/-- The elements of an array up to its closing bracket, at most `n` of them. -/
def arrayItems (item : Reader Item) : Nat → Reader (List Item)
  | 0, _ => none
  | n + 1, cs =>
    match skipSpace false cs with
    | ']' :: cs => some ([], cs)
    | cs => do
      let (first, cs) ← item cs
      match skipSpace false cs with
      | ',' :: cs => do
        let (others, cs) ← arrayItems item n cs
        return (first :: others, cs)
      | ']' :: cs => return ([first], cs)
      | _ => none

/-- A key, an equals sign and a value. -/
def keyAndItem (item : Reader Item) : Reader (List String × Item) := fun cs => do
  let (path, cs) ← key cs
  match cs with
  | '=' :: cs => do
    let (value, cs) ← item (skipBlanks cs)
    return ((path, value), cs)
  | _ => none

/-- The entries of an inline table up to its closing brace, at most `n` of them. -/
def inlineEntries (item : Reader Item) : Nat → Entries → Reader Entries
  | 0, _, _ => none
  | n + 1, es, cs => do
    let ((path, value), cs) ← keyAndItem item cs
    let (_, es) ← es.assign path value .header
    match skipBlanks cs with
    | ',' :: cs => inlineEntries item n es cs
    | '\x7d' :: cs => return (es, cs)
    | _ => none

/-- A value with at most `depth` arrays and inline tables in one another. -/
def itemOf : Nat → Reader Item
  | 0, cs => (scalar cs).map fun x => (.scalar x.1, x.2)
  | depth + 1, cs =>
    match cs with
    | '[' :: cs => (arrayItems (itemOf depth) (cs.length + 1) cs).map fun x => (.array x.1, x.2)
    | '\x7b' :: cs =>
      match skipBlanks cs with
      | '\x7d' :: cs => some (.inline [], cs)
      | cs => (inlineEntries (itemOf depth) (cs.length + 1) [] cs).map fun x => (.inline x.1, x.2)
    | cs => (scalar cs).map fun x => (.scalar x.1, x.2)

/-- A value. -/
def item : Reader Item := itemOf maxDepth

/-! ### Lines -/

/-- A header, behind its first bracket. The result says whether it opens an element of an array. -/
def header : Reader (Bool × List String)
  | '[' :: cs => do
    let (path, cs) ← key cs
    match cs with
    | ']' :: ']' :: cs => return ((true, path), cs)
    | _ => none
  | cs => do
    let (path, cs) ← key cs
    match cs with
    | ']' :: cs => return ((false, path), cs)
    | _ => none

/-- The lines from here on, at most `n` of them, after the entries so far; keys are assigned in the
table of the header `current`. -/
def lines : Nat → List String → Entries → List Char → Option Entries
  | 0, _, _, _ => none
  | n + 1, current, es, cs =>
    match skipBlanks cs with
    | [] => some es
    | '[' :: cs => do
      let ((isElement, path), cs) ← header cs
      let rest ← restOfLine? cs
      let es ← if isElement then es.openElement path else es.openTable path
      lines n path es rest
    | c :: cs =>
      match restOfLine? (c :: cs) with
      | some rest => lines n current es rest
      | none => do
        let ((path, value), cs) ← keyAndItem item (c :: cs)
        let rest ← restOfLine? cs
        lines n current (← es.assignUnder current path value) rest

/-- The entries of a document. A byte order mark in front is passed over. -/
def read (text : String) : Option Entries :=
  let cs := match text.toList with
    | c :: cs => if c.toNat = 0xfeff then cs else c :: cs
    | [] => []
  lines (cs.length + 1) [] [] cs

end WordMachine.Toml
