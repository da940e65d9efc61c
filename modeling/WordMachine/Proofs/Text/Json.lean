import WordMachine.Proofs.Text.Reading

/-! # JSON read back

A reader of JSON texts, and what it finds in texts that are written line by line.

* **Reader.** Values are natural numbers, strings without escapes, arrays and objects, with space
  anywhere between their parts. Every text that is read is JSON.
* **Parts.** `Reads item text a` says that a reader takes a text for a value in each place where
  values may stand: behind space, and in front of a comma or the end of a line.
* **Blocks.** Arrays and objects are written as a block of lines, with one part on each line and a
  comma between each two of them. If the parts are read, so is the block (`list_block`). -/

namespace WordMachine

/-- A JSON value. Fractions, truth values and null are left out. -/
inductive Json where
  | number (n : Nat)
  | string (text : String)
  | array (items : List Json)
  | object (fields : List (String × Json))
deriving Repr

namespace Json

/-! ### Reader -/

/-- Reads from the front of a text; the rest is left over. -/
abbrev Reader (α : Type) := List Char → Option (α × List Char)

def isSpace (c : Char) : Bool := c = ' ' || c = '\n' || c = '\r' || c = '\t'

/-- The text behind the space in front of it. -/
def skipSpace (cs : List Char) : List Char := cs.dropWhile isSpace

/-- Whether a character stands for itself in a string. -/
def isPlain (c : Char) : Bool := c ≠ '"' && c ≠ '\\' && 0x20 ≤ c.toNat

/-- A string, behind its first quote. -/
def stringTail : Reader String := fun cs =>
  match cs.dropWhile isPlain with
  | '"' :: rest => some (String.ofList (cs.takeWhile isPlain), rest)
  | _ => none

/-- A natural number, with no zero in front of other digits. -/
def natural : Reader Json := fun cs =>
  (Numeral.written? 10 1 (cs.takeWhile (Numeral.isDigit 10))).map fun n =>
    (.number n, cs.dropWhile (Numeral.isDigit 10))

/-- A string or a number. -/
def scalar : Reader Json
  | '"' :: cs => (stringTail cs).map fun x => (.string x.1, x.2)
  | cs => natural cs

/-- Parts with commas between them, up to a closing character; at most `n` of them. -/
def items {α : Type} (item : Reader α) (close : Char) : Nat → Reader (List α)
  | 0, _ => none
  | n + 1, cs => do
    let (first, cs) ← item cs
    match skipSpace cs with
    | [] => none
    | c :: cs =>
      if c = ',' then do
        let (others, cs) ← items item close n cs
        return (first :: others, cs)
      else if c = close then return ([first], cs)
      else none

/-- Parts up to a closing character, if there are any. -/
def list {α : Type} (item : Reader α) (close : Char) : Reader (List α) := fun cs =>
  match skipSpace cs with
  | [] => none
  | c :: rest => if c = close then some ([], rest) else items item close cs.length cs

/-- A name, a colon and a value. -/
def field (value : Reader Json) : Reader (String × Json) := fun cs =>
  match skipSpace cs with
  | '"' :: cs => do
    let (name, cs) ← stringTail cs
    match skipSpace cs with
    | ':' :: cs => do
      let (json, cs) ← value cs
      return ((name, json), cs)
    | _ => none
  | _ => none

/-- A value with at most `depth` arrays and objects in one another. -/
def value : Nat → Reader Json
  | 0, cs => scalar (skipSpace cs)
  | depth + 1, cs =>
    match skipSpace cs with
    | '[' :: cs => (list (value depth) ']' cs).map fun x => (.array x.1, x.2)
    | '\x7b' :: cs => (list (field (value depth)) '\x7d' cs).map fun x => (.object x.1, x.2)
    | cs => scalar cs

/-- The largest number of arrays and objects in one another. -/
def maxDepth : Nat := 128

/-- The value of a text. -/
def read (text : String) : Option Json := do
  let (json, rest) ← value maxDepth text.toList
  if skipSpace rest = [] then some json else none

/-! ### Parts -/

/-- A text is read as a value behind space and in front of a comma or the end of a line. -/
def Reads {α : Type} (item : Reader α) (text : List Char) (a : α) : Prop :=
  ∀ space next rest, (∀ c ∈ space, isSpace c = true) → next = ',' ∨ next = '\n' →
    item (space ++ (text ++ next :: rest)) = some (a, next :: rest)

variable {α β : Type} {item : Reader α} {depth : Nat} {space text : List Char} {json : Json}

theorem skipSpace_append (h : ∀ c ∈ space, isSpace c = true) (cs : List Char) :
    skipSpace (space ++ cs) = skipSpace cs :=
  List.dropWhile_append_of_pos h

theorem skipSpace_of_not {c : Char} (h : isSpace c = false) (cs : List Char) :
    skipSpace (c :: cs) = c :: cs :=
  List.dropWhile_cons_of_neg (by simp [h])

/-- Neither a comma nor the end of a line is a digit. -/
theorem isDigit_next {next : Char} (h : next = ',' ∨ next = '\n') :
    Numeral.isDigit 10 next = false := by
  rcases h with rfl | rfl <;> decide

/-- What begins with no bracket and no brace is read as a scalar. -/
theorem value_of_scalar {c : Char} (hspace : isSpace c = false) (hc : c ≠ '[' ∧ c ≠ '\x7b')
    (cs : List Char) : value depth (c :: cs) = scalar (c :: cs) := by
  cases depth with
  | zero => rw [value, skipSpace_of_not hspace]
  | succ depth =>
    rw [value, skipSpace_of_not hspace]
    split
    · rename_i heq
      exact absurd (List.cons.inj heq).1 hc.1
    · rename_i heq
      exact absurd (List.cons.inj heq).1 hc.2
    · rfl

/-- Space in front of a value is passed over. -/
theorem value_append (h : ∀ c ∈ space, isSpace c = true) (cs : List Char) :
    value depth (space ++ cs) = value depth cs := by
  cases depth with
  | zero => rw [value, value, skipSpace_append h]
  | succ depth => rw [value, value, skipSpace_append h]

/-- A string is read up to the quote behind it. -/
theorem stringTail_append (h : ∀ c ∈ text, isPlain c = true) (rest : List Char) :
    stringTail (text ++ '"' :: rest) = some (String.ofList text, rest) := by
  unfold stringTail
  rw [dropWhile_append_cons h (by decide), takeWhile_append_cons h (by decide)]
  rfl

theorem reads_string {s : String} (h : ∀ c ∈ s.toList, isPlain c = true) :
    Reads (value depth) ('"' :: (s.toList ++ ['"'])) (.string s) := by
  intro space next rest hspace _
  have hquote : isSpace '"' = false := by decide
  rw [value_append hspace, List.cons_append, value_of_scalar hquote (by decide)]
  show (stringTail (s.toList ++ ['"'] ++ next :: rest)).map _ = _
  rw [List.append_assoc, List.singleton_append, stringTail_append h, String.ofList_toList]
  rfl

theorem reads_number (n : Nat) : Reads (value depth) (Numeral.chars 10 n) (.number n) := by
  intro space next rest hspace hnext
  have hwrites := Numeral.writes_chars (by decide : 2 ≤ 10) (by decide) n
  have hdigits : ∀ c ∈ Numeral.chars 10 n, Numeral.isDigit 10 c = true :=
    fun c => Numeral.isDigit_of_chars (by decide) (by decide)
  have hnatural :
      natural (Numeral.chars 10 n ++ next :: rest) = some (.number n, next :: rest) := by
    unfold natural
    rw [takeWhile_append_cons hdigits (isDigit_next hnext),
      dropWhile_append_cons hdigits (isDigit_next hnext), Numeral.written?_eq_some_iff.2 hwrites]
    rfl
  obtain ⟨c, cs, hchars, hc⟩ := Numeral.exists_chars_cons (by decide : 2 ≤ 10) (by decide) n
  have hother : isSpace c = false ∧ (c ≠ '[' ∧ c ≠ '\x7b') ∧ c ≠ '"' :=
    Hex.ascii_forall
      (P := fun c => Hex.IsDigit c → isSpace c = false ∧ (c ≠ '[' ∧ c ≠ '\x7b') ∧ c ≠ '"')
      (by decide) hc.toNat_lt hc
  rw [hchars] at hnatural ⊢
  rw [value_append hspace, List.cons_append, value_of_scalar hother.1 hother.2.1]
  refine Eq.trans ?_ hnatural
  unfold scalar
  split
  · rename_i heq
    exact absurd (List.cons.inj heq).1 hother.2.2
  · rfl

/-- A field is read as its name and its value. -/
theorem reads_field {name : List Char} (hname : ∀ c ∈ name, isPlain c = true)
    (h : Reads (value depth) text json) :
    Reads (field (value depth)) ('"' :: (name ++ '"' :: ':' :: ' ' :: text))
      (String.ofList name, json) := by
  intro space next rest hspace hnext
  have hvalue : value depth (' ' :: (text ++ next :: rest)) = some (json, next :: rest) :=
    h [' '] next rest (by simp [isSpace]) hnext
  unfold field
  rw [skipSpace_append hspace, List.cons_append, skipSpace_of_not (by decide)]
  simp only [List.append_assoc, List.cons_append, stringTail_append hname, Option.bind_eq_bind,
    Option.bind_some, skipSpace_of_not (by decide : isSpace ':' = false), hvalue]
  rfl

/-! ### Blocks -/

/-- Parts on lines of their own, with a comma between each two of them. -/
def block (indent : List Char) : List (List Char) → List Char
  | [] => []
  | [text] => '\n' :: (indent ++ text)
  | text :: next :: texts =>
    '\n' :: (indent ++ (text ++ ',' :: block indent (next :: texts)))

variable {write : β → List Char} {meaning : β → α} {parts : List β} {indent last : List Char}
  {close : Char}

/-- A block is its parts, each behind the indentation, joined by a comma and a line feed. -/
theorem block_eq_intercalate (indent : List Char) {texts : List (List Char)} (hne : texts ≠ []) :
    block indent texts = '\n' :: [',', '\n'].intercalate (texts.map (indent ++ ·)) := by
  induction texts with
  | nil => exact absurd rfl hne
  | cons text texts ih =>
    cases texts with
    | nil => simp [block]
    | cons next texts =>
      rw [block, ih (List.cons_ne_nil next texts)]
      simp [List.intercalate_cons_cons]

theorem length_le_block (indent : List Char) (texts : List (List Char)) :
    texts.length ≤ (block indent texts).length := by
  induction texts with
  | nil => exact Nat.zero_le _
  | cons text texts ih =>
    cases texts with
    | nil =>
      simp only [block, List.length_cons, List.length_append, List.length_nil]
      omega
    | cons next texts =>
      simp only [block, List.length_cons, List.length_append] at ih ⊢
      omega

/-- The parts of a block are read one after the other, up to the closing character. -/
theorem items_block (hindent : ∀ c ∈ indent, isSpace c = true)
    (hlast : ∀ c ∈ last, isSpace c = true) (hclose : isSpace close = false) (hcomma : close ≠ ',')
    (hne : parts ≠ []) (hparts : ∀ x ∈ parts, Reads item (write x) (meaning x)) {n : Nat}
    (hn : parts.length ≤ n) (rest : List Char) :
    items item close n (block indent (parts.map write) ++ '\n' :: (last ++ close :: rest)) =
      some (parts.map meaning, rest) := by
  have hspace : ∀ c ∈ '\n' :: indent, isSpace c = true :=
    List.forall_mem_cons.2 ⟨by decide, hindent⟩
  induction parts generalizing n with
  | nil => exact absurd rfl hne
  | cons x parts ih =>
    rw [List.length_cons] at hn
    obtain ⟨n, rfl⟩ := Nat.exists_eq_succ_of_ne_zero (by omega : n ≠ 0)
    obtain ⟨hx, hparts⟩ := List.forall_mem_cons.1 hparts
    cases parts with
    | nil =>
      have hfirst := hx ('\n' :: indent) '\n' (last ++ close :: rest) hspace (.inr rfl)
      have hend : skipSpace ('\n' :: (last ++ close :: rest)) = close :: rest := by
        rw [← List.cons_append, skipSpace_append (List.forall_mem_cons.2 ⟨by decide, hlast⟩),
          skipSpace_of_not hclose]
      simp only [List.map_cons, List.map_nil, block, List.cons_append, List.append_assoc]
        at hfirst ⊢
      rw [items, hfirst]
      simp only [Option.bind_eq_bind, Option.bind_some, hend, if_neg hcomma, if_true]
      rfl
    | cons y parts =>
      have hothers := ih (List.cons_ne_nil y parts) hparts (Nat.le_of_succ_le_succ hn)
      have hfirst := hx ('\n' :: indent) ',' (block indent ((y :: parts).map write) ++
        '\n' :: (last ++ close :: rest)) hspace (.inl rfl)
      simp only [List.map_cons, block, List.cons_append, List.append_assoc] at hfirst hothers ⊢
      rw [items, hfirst]
      simp only [Option.bind_eq_bind, Option.bind_some,
        skipSpace_of_not (by decide : isSpace ',' = false), if_true, hothers]
      rfl

theorem exists_block_cons (indent text : List Char) (texts : List (List Char)) :
    ∃ more, block indent (text :: texts) = '\n' :: indent ++ (text ++ more) := by
  cases texts with
  | nil => exact ⟨[], by rw [List.append_nil]; rfl⟩
  | cons next texts => exact ⟨',' :: block indent (next :: texts), rfl⟩

/-- A block whose parts begin with quotes is read as a list of these parts. -/
theorem list_block (hindent : ∀ c ∈ indent, isSpace c = true)
    (hlast : ∀ c ∈ last, isSpace c = true) (hclose : isSpace close = false)
    (hother : close ≠ ',' ∧ close ≠ '"') (hne : parts ≠ [])
    (hparts : ∀ x ∈ parts, Reads item (write x) (meaning x))
    (hquote : ∀ x ∈ parts, ∃ cs, write x = '"' :: cs) (rest : List Char) :
    list item close (block indent (parts.map write) ++ '\n' :: (last ++ close :: rest)) =
      some (parts.map meaning, rest) := by
  -- The first part is not the closing character, so there are parts.
  have hfirst : ∃ more, skipSpace (block indent (parts.map write) ++
      '\n' :: (last ++ close :: rest)) = '"' :: more := by
    obtain ⟨x, others, rfl⟩ := List.exists_cons_of_ne_nil hne
    obtain ⟨cs, hx⟩ := hquote x List.mem_cons_self
    obtain ⟨more, hmore⟩ := exists_block_cons indent (write x) (others.map write)
    have hspace : ∀ c ∈ '\n' :: indent, isSpace c = true :=
      List.forall_mem_cons.2 ⟨by decide, hindent⟩
    refine ⟨cs ++ more ++ '\n' :: (last ++ close :: rest), ?_⟩
    rw [List.map_cons, hmore, List.append_assoc, skipSpace_append hspace, hx]
    exact skipSpace_of_not (by decide) _
  obtain ⟨more, hmore⟩ := hfirst
  unfold list
  rw [hmore]
  simp only [if_neg hother.2.symm]
  apply items_block hindent hlast hclose hother.1 hne hparts
  have hlength := length_le_block indent (parts.map write)
  rw [List.length_map] at hlength
  rw [List.length_append]
  omega

theorem reads_array_nil : Reads (value (depth + 1)) ['[', ']'] (.array []) := by
  intro space next rest hspace _
  rw [value_append hspace]
  rfl

/-- A block of values between brackets is an array. -/
theorem reads_array {meaning : β → Json} (hindent : ∀ c ∈ indent, isSpace c = true)
    (hlast : ∀ c ∈ last, isSpace c = true) (hne : parts ≠ [])
    (hparts : ∀ x ∈ parts, Reads (value depth) (write x) (meaning x))
    (hquote : ∀ x ∈ parts, ∃ cs, write x = '"' :: cs) :
    Reads (value (depth + 1)) ('[' :: (block indent (parts.map write) ++ '\n' :: (last ++ [']'])))
      (.array (parts.map meaning)) := by
  intro space next rest hspace _
  have hlist := list_block hindent hlast (by decide : isSpace ']' = false) (by decide) hne hparts
    hquote (next :: rest)
  rw [value_append hspace, value]
  simp only [List.cons_append, List.append_assoc, List.nil_append,
    skipSpace_of_not (by decide : isSpace '[' = false), hlist]
  rfl

/-- A block of fields between braces is an object. -/
theorem reads_object {meaning : β → String × Json} (hindent : ∀ c ∈ indent, isSpace c = true)
    (hlast : ∀ c ∈ last, isSpace c = true) (hne : parts ≠ [])
    (hparts : ∀ x ∈ parts, Reads (field (value depth)) (write x) (meaning x))
    (hquote : ∀ x ∈ parts, ∃ cs, write x = '"' :: cs) :
    Reads (value (depth + 1))
      ('\x7b' :: (block indent (parts.map write) ++ '\n' :: (last ++ ['\x7d'])))
      (.object (parts.map meaning)) := by
  intro space next rest hspace _
  have hlist := list_block hindent hlast (by decide : isSpace '\x7d' = false) (by decide) hne hparts
    hquote (next :: rest)
  rw [value_append hspace, value]
  simp only [List.cons_append, List.append_assoc, List.nil_append,
    skipSpace_of_not (by decide : isSpace '\x7b' = false), hlist]
  rfl

/-- A text is read, if it is the text of a value and a line feed. -/
theorem read_of_reads {all : String} (htext : all.toList = text ++ ['\n'])
    (h : Reads (value maxDepth) text json) : read all = some json := by
  have hvalue : value maxDepth all.toList = some (json, ['\n']) := by
    rw [htext]
    exact h [] '\n' [] (List.forall_mem_nil _) (.inr rfl)
  unfold read
  rw [hvalue]
  rfl

end Json

end WordMachine
