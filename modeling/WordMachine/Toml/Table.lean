import WordMachine.Toml.Scalar

/-! # TOML tables

The tree that the keys and headers of a document build.

* **Origin.** A table comes into being by a header of its own, as the parent that a longer header
  implies, or by the dots of a key. Its origin decides who may extend it: a table with a header
  takes no dotted keys from outside and no second header, and a table made by dots takes no header.
* **Closed values.** An inline table is complete where it is written; no key or header enters it. -/

namespace WordMachine.Toml

/-- How a table came into being. -/
inductive Origin where
  /-- By its own header. -/
  | header
  /-- As the parent of a table with a header. -/
  | implied
  /-- By the dots of a key. -/
  | dotted
deriving DecidableEq, Repr

/-- What a key holds. -/
inductive Item where
  | scalar (s : Scalar)
  | array (items : List Item)
  | inline (entries : List (String × Item))
  | table (origin : Origin) (entries : List (String × Item))
  | tables (elements : List (List (String × Item)))

/-- The keys of a table and what they hold, in the order of their first mention. -/
abbrev Entries := List (String × Item)

namespace Entries

/-- Puts an item under a key, instead of the one that was there. -/
def set (es : Entries) (key : String) (item : Item) : Entries :=
  match es with
  | [] => [(key, item)]
  | (k, i) :: es => if k = key then (k, item) :: es else (k, i) :: set es key item

/-- Follows a path of keys from a table, making the tables that are missing, and changes the table
at its end. A path leads through the last element of an array of tables, and never into a value. A
dotted path does not lead through a table with a header. -/
def change (isDotted : Bool) (f : Origin → Entries → Option (Origin × Entries)) :
    List String → Origin → Entries → Option (Origin × Entries)
  | [], origin, es => f origin es
  | key :: path, origin, es =>
    match es.lookup key with
    | none => do
      let (o, sub) ← change isDotted f path (if isDotted then .dotted else .implied) []
      return (origin, set es key (.table o sub))
    | some (.table o sub) =>
      if isDotted && o == .header then none
      else do
        let (o, sub) ← change isDotted f path o sub
        return (origin, set es key (.table o sub))
    | some (.tables elements) =>
      match elements.getLast? with
      | none => none
      | some sub => do
        let (_, sub) ← change isDotted f path .header sub
        return (origin, set es key (.tables (elements.dropLast ++ [sub])))
    | some _ => none

/-- Puts a new item under the last part of a key; the parts before it name dotted tables. -/
def assign (key : List String) (item : Item) (origin : Origin) (es : Entries) :
    Option (Origin × Entries) :=
  match key.getLast? with
  | none => none
  | some last =>
    change true
      (fun o sub =>
        if (o == .dotted) == key.dropLast.isEmpty then none
        else if (sub.lookup last).isSome then none
        else some (o, set sub last item))
      key.dropLast origin es

/-- Opens the table of a header: a new one, or one that longer headers have implied. -/
def openTable (path : List String) (es : Entries) : Option Entries := do
  let last ← path.getLast?
  let (_, es) ← change false
    (fun o sub =>
      match sub.lookup last with
      | none => some (o, set sub last (.table .header []))
      | some (.table .implied es) => some (o, set sub last (.table .header es))
      | some _ => none)
    path.dropLast .header es
  return es

/-- Opens a new element in the array of tables of a header. -/
def openElement (path : List String) (es : Entries) : Option Entries := do
  let last ← path.getLast?
  let (_, es) ← change false
    (fun o sub =>
      match sub.lookup last with
      | none => some (o, set sub last (.tables [[]]))
      | some (.tables elements) => some (o, set sub last (.tables (elements ++ [[]])))
      | some _ => none)
    path.dropLast .header es
  return es

/-- Assigns in the table of a header. -/
def assignUnder (header key : List String) (item : Item) (es : Entries) : Option Entries := do
  let (_, es) ← change false (assign key item) header .header es
  return es

theorem lookup_set_self (es : Entries) (key : String) (item : Item) :
    (set es key item).lookup key = some item := by
  induction es with
  | nil => simp [set]
  | cons e es ih =>
    by_cases h : e.1 = key
    · simp [set, h]
    · rw [set, if_neg h, List.lookup_cons, beq_false_of_ne (Ne.symm h)]
      exact ih

theorem lookup_set_of_ne (es : Entries) {key other : String} (h : other ≠ key) (item : Item) :
    (set es key item).lookup other = es.lookup other := by
  induction es with
  | nil => simp [set, h]
  | cons e es ih =>
    by_cases he : e.1 = key
    · rw [set, if_pos he, List.lookup_cons, List.lookup_cons, he, beq_false_of_ne h]
    · rw [set, if_neg he, List.lookup_cons, List.lookup_cons, ih]

end Entries

end WordMachine.Toml
