import WordMachine.Proofs.Report.Json

/-! # Reports read back

What the text of a report says, and which reports have the same text.

* **Rows.** The rows of a list make up the list, and all of them but the last are full.
* **Reader.** A text is read line by line: a heading with a count, as many lines of the stack, a
  heading with another count, and the rows of memory. Numerals count as such only in the form in
  which they are written, so the value of a word has no zero in front.
* **Lines.** No line holds a line feed, and a column that is too narrow for its numeral grows with
  it; so the lines and what stands in them are told apart (`readText_text`).

`rendering_determines` puts the two forms of a report together. -/

namespace WordMachine

namespace Report

variable {α : Type}

/-! ### Rows -/

theorem flatten_rows (n : Nat) (xs : List α) : (rows n xs).flatten = xs := by
  fun_induction rows n xs with
  | case1 xs h hempty => simpa using hempty.symm
  | case2 xs h hempty => simp
  | case3 xs h ih =>
    rw [List.flatten_cons, ih]
    exact List.take_append_drop n xs

/-- There are as many rows as are needed. -/
theorem length_rows {n : Nat} (hn : 0 < n) (xs : List α) :
    (rows n xs).length = (xs.length + (n - 1)) / n := by
  fun_induction rows n xs with
  | case1 xs h hempty =>
    have hnil : xs = [] := by simpa using hempty
    rw [hnil, List.length_nil, List.length_nil, Nat.zero_add, Nat.div_eq_of_lt (by omega)]
  | case2 xs h hempty =>
    have hpos : 0 < xs.length := List.length_pos_iff.2 (by simpa using hempty)
    have hone : xs.length + (n - 1) = (xs.length - 1) + n := by omega
    rw [hone, Nat.add_div_right _ hn, Nat.div_eq_of_lt (by omega), List.length_singleton]
  | case3 xs h ih =>
    have hfirst : xs.length + (n - 1) = (xs.drop n).length + (n - 1) + n := by
      rw [List.length_drop]
      omega
    rw [List.length_cons, ih, hfirst, Nat.add_div_right _ hn]

/-- Every row but the last is full, and the last one is not empty. -/
theorem length_of_getElem?_rows {n k : Nat} (hn : 0 < n) {xs row : List α}
    (h : (rows n xs)[k]? = some row) :
    0 < row.length ∧ row.length ≤ n ∧ (k + 1 < (rows n xs).length → row.length = n) := by
  fun_induction rows n xs generalizing k with
  | case1 xs hfew hempty => cases h
  | case2 xs hfew hempty =>
    have hpos : 0 < xs.length := List.length_pos_iff.2 (by simpa using hempty)
    cases k with
    | zero =>
      cases h
      refine ⟨hpos, by omega, fun hlast => ?_⟩
      rw [List.length_singleton] at hlast
      omega
    | succ k => cases h
  | case3 xs hmany ih =>
    cases k with
    | zero =>
      cases h
      have hlength : (xs.take n).length = n := by
        rw [List.length_take]
        omega
      exact ⟨by omega, by omega, fun _ => hlength⟩
    | succ k =>
      obtain ⟨hpos, hle, hfull⟩ := ih h
      refine ⟨hpos, hle, fun hlast => hfull ?_⟩
      rw [List.length_cons] at hlast
      omega

/-! ### Reader -/

/-- What the text of a report says: two counts, the lines of the stack with index and value, and the
rows of memory with address and bytes. -/
structure Shown where
  items : Nat
  stack : List (Nat × Nat)
  bytes : Nat
  rows : List (Nat × Bytes)
deriving DecidableEq, Repr

/-- What the text of a report should say. -/
def shown (r : Report) : Shown where
  items := r.stack.length
  stack := r.stack.mapIdx fun i w => (i, w.toNat)
  bytes := r.memory.length
  rows := (rows Memory.wordSize r.memory).mapIdx fun k row => (Memory.wordSize * k, row)

/-- The count in a heading, between a title and a tail. -/
def count? (title tail line : List Char) : Option Nat :=
  let cs := line.drop title.length
  if line.take title.length = title ∧ cs.dropWhile (Numeral.isDigit 10) = tail then
    Numeral.written? 10 1 (cs.takeWhile (Numeral.isDigit 10))
  else none

/-- Reads a line of the stack: an index, and a value in the shortest hexadecimal form. -/
def stackLine? (line : List Char) : Option (Nat × Nat) :=
  let cs := line.dropWhile (· = ' ')
  match cs.dropWhile (Numeral.isDigit 10) with
  | ':' :: ' ' :: '0' :: 'x' :: digits => do
    let index ← Numeral.written? 10 1 (cs.takeWhile (Numeral.isDigit 10))
    let value ← Numeral.written? 16 1 digits
    return (index, value)
  | _ => none

/-- Reads a row of memory: an address in four hexadecimal digits or more, and bytes. -/
def memoryLine? : List Char → Option (Nat × Bytes)
  | ' ' :: ' ' :: '0' :: 'x' :: cs =>
    match cs.dropWhile (Numeral.isDigit 16) with
    | ':' :: ' ' :: digits => do
      let address ← Numeral.written? 16 4 (cs.takeWhile (Numeral.isDigit 16))
      let bytes ← Hex.decodePairs digits
      return (address, bytes)
    | _ => none
  | _ => none

/-- The titles and the tails of the two headings. -/
def stackTitle (color : Bool) : List Char := (heading color "stack").toList ++ [' ', '(']
def memoryTitle (color : Bool) : List Char := (heading color "memory").toList ++ [' ', '(']
def stackTail : List Char := " items, bottom to top)".toList
def memoryTail : List Char := " bytes)".toList

/-- Reads the text of a report. The heading of the stack says how many lines belong to it. -/
def readText (color : Bool) (text : String) : Option Shown := do
  match ← Lines.read? text.toList with
  | [] => none
  | first :: others => do
    let items ← count? (stackTitle color) stackTail first
    match others.drop items with
    | [] => none
    | second :: lines => do
      let stack ← (others.take items).mapM stackLine?
      let bytes ← count? (memoryTitle color) memoryTail second
      let rows ← lines.mapM memoryLine?
      return { items, stack, bytes, rows }

/-! ### Lines -/

/-- The line of a heading, without the line feed. -/
def headingChars (title tail : List Char) (count : Nat) : List Char :=
  title ++ (Numeral.chars 10 count ++ tail)

/-- The line of a word of the stack, without the line feed. -/
def stackChars (index : Nat) (w : Word) : List Char :=
  ' ' :: ' ' :: ((Numeral.chars 10 index).leftpad 4 ' ' ++
    ':' :: ' ' :: '0' :: 'x' :: Numeral.chars 16 w.toNat)

/-- The line of a row of memory, without the line feed. -/
def memoryChars (row : Nat) (bs : Bytes) : List Char :=
  ' ' :: ' ' :: '0' :: 'x' :: (Numeral.padded 16 4 (row * Memory.wordSize) ++
    ':' :: ' ' :: Hex.chars bs)

theorem toList_stackLine (index : Nat) (w : Word) :
    (stackLine index w).toList = stackChars index w ++ ['\n'] := by
  simp [stackLine, stackChars, Word.compact]

theorem toList_memoryLine (row : Nat) (bs : Bytes) :
    (memoryLine row bs).toList = memoryChars row bs ++ ['\n'] := by
  simp [memoryLine, memoryChars, Hex.encode]

/-- The lines of the text of a report. -/
def textLines (color : Bool) (r : Report) : List (List Char) :=
  headingChars (stackTitle color) stackTail r.stack.length ::
    (r.stack.mapIdx stackChars ++
      headingChars (memoryTitle color) memoryTail r.memory.length ::
        (rows Memory.wordSize r.memory).mapIdx memoryChars)

/-- Numbered lines that are joined are their characters, each behind the other. -/
theorem toList_join_mapIdx {line : Nat → α → String} {chars : Nat → α → List Char}
    (h : ∀ i a, (line i a).toList = chars i a ++ ['\n']) (xs : List α) :
    (String.join (xs.mapIdx line)).toList = (xs.mapIdx chars).flatMap (· ++ ['\n']) := by
  rw [String.toList_join, List.mapIdx_eq_zipIdx_map, List.mapIdx_eq_zipIdx_map, List.flatMap_map,
    List.flatMap_map]
  congr 1
  funext x
  exact h x.2 x.1

theorem toList_text (color : Bool) (r : Report) :
    (r.text color).toList = (r.textLines color).flatMap (· ++ ['\n']) := by
  have hopen : " (".toList = [' ', '('] := rfl
  have hstack : " items, bottom to top)\n".toList = stackTail ++ ['\n'] := rfl
  have hmemory : " bytes)\n".toList = memoryTail ++ ['\n'] := rfl
  unfold text textLines headingChars stackTitle memoryTitle
  simp only [String.toList_append, Numeral.toList_decimal, toList_join_mapIdx toList_stackLine,
    toList_join_mapIdx toList_memoryLine, hopen, hstack, hmemory, List.flatMap_cons,
    List.flatMap_append]
  simp only [List.append_assoc]

/-- The count of a heading is read. -/
theorem count?_headingChars (title : List Char) {c : Char} (hc : Numeral.isDigit 10 c = false)
    (tail : List Char) (count : Nat) :
    count? title (c :: tail) (headingChars title (c :: tail) count) = some count := by
  have hdigits : ∀ d ∈ Numeral.chars 10 count, Numeral.isDigit 10 d = true :=
    fun d => Numeral.isDigit_of_chars (by decide) (by decide)
  have hwrites := Numeral.writes_chars (by decide : 2 ≤ 10) (by decide) count
  unfold count? headingChars
  simp only [List.take_left, List.drop_left, dropWhile_append_cons hdigits hc,
    takeWhile_append_cons hdigits hc, and_self, if_true]
  exact Numeral.written?_eq_some_iff.2 hwrites

/-- The index stands behind blanks. -/
theorem dropWhile_stackChars (index : Nat) (w : Word) :
    (stackChars index w).dropWhile (· = ' ') =
      Numeral.chars 10 index ++ ':' :: ' ' :: '0' :: 'x' :: Numeral.chars 16 w.toNat := by
  have hblank : ∀ c ∈ ' ' :: ' ' :: List.replicate (4 - (Numeral.chars 10 index).length) ' ',
      decide (c = ' ') = true := by
    intro c hc
    have hrepeat : c ∈ List.replicate (4 - (Numeral.chars 10 index).length + 2) ' ' := hc
    rw [List.eq_of_mem_replicate hrepeat]
    decide
  have hfront : stackChars index w =
      ' ' :: ' ' :: List.replicate (4 - (Numeral.chars 10 index).length) ' ' ++
        (Numeral.chars 10 index ++ ':' :: ' ' :: '0' :: 'x' :: Numeral.chars 16 w.toNat) := by
    simp [stackChars, List.leftpad]
  obtain ⟨d, ds, hchars, hd⟩ := Numeral.exists_chars_cons (by decide : 2 ≤ 10) (by decide) index
  have hother : d ≠ ' ' := by
    rintro rfl
    exact absurd hd (by decide)
  rw [hfront, List.dropWhile_append_of_pos hblank, hchars]
  exact List.dropWhile_cons_of_neg (by simpa using hother)

theorem stackLine?_stackChars (index : Nat) (w : Word) :
    stackLine? (stackChars index w) = some (index, w.toNat) := by
  have hdigits : ∀ d ∈ Numeral.chars 10 index, Numeral.isDigit 10 d = true :=
    fun d => Numeral.isDigit_of_chars (by decide) (by decide)
  have hindex := Numeral.writes_chars (by decide : 2 ≤ 10) (by decide) index
  have hvalue := Numeral.writes_chars (by decide : 2 ≤ 16) (by decide) w.toNat
  have hcolon : Numeral.isDigit 10 ':' = false := by decide
  unfold stackLine?
  simp only [dropWhile_stackChars, dropWhile_append_cons hdigits hcolon,
    takeWhile_append_cons hdigits hcolon,
    Numeral.written?_eq_some_iff.2 hindex, Numeral.written?_eq_some_iff.2 hvalue]
  rfl

theorem memoryLine?_memoryChars (row : Nat) (bs : Bytes) :
    memoryLine? (memoryChars row bs) = some (Memory.wordSize * row, bs) := by
  have hdigits : ∀ d ∈ Numeral.padded 16 4 (row * Memory.wordSize), Numeral.isDigit 16 d = true :=
    fun d => Numeral.isDigit_of_padded (by decide) (by decide)
  have haddress := Numeral.writes_padded (by decide : 2 ≤ 16) (by decide) (by decide : 0 < 4)
    (row * Memory.wordSize)
  have hcolon : Numeral.isDigit 16 ':' = false := by decide
  unfold memoryChars memoryLine?
  simp only [dropWhile_append_cons hdigits hcolon, takeWhile_append_cons hdigits hcolon,
    Numeral.written?_eq_some_iff.2 haddress, Hex.decodePairs_chars]
  rw [Nat.mul_comm]
  rfl

/-- No numeral holds a line feed. -/
theorem newline_not_mem_chars {base : Nat} (hbase : 2 ≤ base) (hmax : base ≤ 16) (n : Nat) :
    '\n' ∉ Numeral.chars base n := by
  intro hmem
  exact absurd (Numeral.isDigit_of_mem_chars hbase hmax hmem) (by decide)

theorem newline_not_mem_stackChars (index : Nat) (w : Word) : '\n' ∉ stackChars index w := by
  have hindex := newline_not_mem_chars (by decide : 2 ≤ 10) (by decide) index
  have hvalue := newline_not_mem_chars (by decide : 2 ≤ 16) (by decide) w.toNat
  simp [stackChars, List.leftpad, hindex, hvalue]

theorem newline_not_mem_memoryChars (row : Nat) (bs : Bytes) : '\n' ∉ memoryChars row bs := by
  have haddress : '\n' ∉ Numeral.padded 16 4 (row * Memory.wordSize) := by
    intro hmem
    exact absurd (Numeral.isDigit_of_mem_padded (by decide) (by decide) hmem) (by decide)
  have hbytes : '\n' ∉ Hex.chars bs := by
    intro hmem
    exact absurd (Hex.isDigit_of_mem_chars hmem) (by decide)
  simp [memoryChars, haddress, hbytes]

theorem newline_not_mem_headingChars {title tail : List Char} (htitle : '\n' ∉ title)
    (htail : '\n' ∉ tail) (count : Nat) : '\n' ∉ headingChars title tail count := by
  have hcount := newline_not_mem_chars (by decide : 2 ≤ 10) (by decide) count
  simp [headingChars, htitle, htail, hcount]

/-- No line of a text holds a line feed. -/
theorem newline_not_mem (color : Bool) (r : Report) : ∀ l ∈ r.textLines color, '\n' ∉ l := by
  have hstack : '\n' ∉ stackTitle color ∧ '\n' ∉ stackTail := by cases color <;> decide
  have hmemory : '\n' ∉ memoryTitle color ∧ '\n' ∉ memoryTail := by cases color <;> decide
  intro l hl
  rcases List.mem_cons.1 hl with rfl | hl
  · exact newline_not_mem_headingChars hstack.1 hstack.2 _
  rcases List.mem_append.1 hl with hl | hl
  · obtain ⟨i, hi, rfl⟩ := List.mem_mapIdx.1 hl
    exact newline_not_mem_stackChars i _
  rcases List.mem_cons.1 hl with rfl | hl
  · exact newline_not_mem_headingChars hmemory.1 hmemory.2 _
  · obtain ⟨i, hi, rfl⟩ := List.mem_mapIdx.1 hl
    exact newline_not_mem_memoryChars i _

/-- The text of a report says what it should. -/
theorem readText_text (color : Bool) (r : Report) :
    readText color (r.text color) = some r.shown := by
  have hlines : Lines.read? (r.text color).toList = some (r.textLines color) := by
    rw [toList_text]
    exact Lines.read?_flatMap (r.newline_not_mem color)
  have hstack := mapM_mapIdx_eq_some stackLine?_stackChars r.stack
  have hmemory := mapM_mapIdx_eq_some memoryLine?_memoryChars (rows Memory.wordSize r.memory)
  have hblank : Numeral.isDigit 10 ' ' = false := by decide
  have hitems : count? (stackTitle color) stackTail
      (headingChars (stackTitle color) stackTail r.stack.length) = some r.stack.length :=
    count?_headingChars (stackTitle color) hblank _ r.stack.length
  have hbytes : count? (memoryTitle color) memoryTail
      (headingChars (memoryTitle color) memoryTail r.memory.length) = some r.memory.length :=
    count?_headingChars (memoryTitle color) hblank _ r.memory.length
  have hlength : r.stack.length = (r.stack.mapIdx stackChars).length := List.length_mapIdx.symm
  unfold readText
  simp only [hlines, textLines, Option.bind_eq_bind, Option.bind_some, hitems]
  rw [hlength, List.drop_left, List.take_left]
  simp only [hstack, hbytes, hmemory, Option.bind_some]
  rw [← hlength]
  rfl

/-! ### What is told apart -/

/-- Numbers in front of the parts do not hide the parts. -/
theorem map_snd_mapIdx {β : Type} (f : α → β) (g : Nat → Nat) (xs : List α) :
    (xs.mapIdx fun i a => (g i, f a)).map Prod.snd = xs.map f := by
  rw [List.mapIdx_eq_zipIdx_map, List.map_map]
  have hfst : xs.map f = (xs.zipIdx.map Prod.fst).map f := by rw [List.zipIdx_map_fst]
  rw [hfst, List.map_map]
  rfl

/-- What the text of a report says tells the stack and the memory. -/
theorem eq_of_shown {r r' : Report} (h : r.shown = r'.shown) :
    r.stack = r'.stack ∧ r.memory = r'.memory := by
  constructor
  · have hstack := congrArg (fun s => s.stack.map Prod.snd) h
    simp only [shown, map_snd_mapIdx] at hstack
    exact (List.map_inj_right fun _ _ => BitVec.eq_of_toNat_eq).1 hstack
  · have hrows := congrArg (fun s => (s.rows.map Prod.snd).flatten) h
    have hid := fun xs : List Bytes => map_snd_mapIdx (fun row => row) (Memory.wordSize * ·) xs
    simp only [List.map_id'] at hid
    simp only [shown, hid, flatten_rows] at hrows
    exact hrows

/-- Both forms of a report tell what they show. The JSON text is read as a value that gives back the
report. The plain text is read as the words of the stack from the bottom up and the rows of the
memory; all rows are full, except perhaps for the last one, and together they are the memory. So
reports with the same JSON text are the same, and reports with the same plain text have the same
stack and the same memory. -/
theorem rendering_determines (r : Report) (color : Bool) :
    (Json.read (r.render .json color) = some r.toJson ∧ ofJson? r.toJson = some r) ∧
      (readText color (r.render .text color) = some r.shown ∧
        (rows Memory.wordSize r.memory).length = (r.memory.length + 31) / 32 ∧
        (∀ k row, (rows Memory.wordSize r.memory)[k]? = some row → 0 < row.length ∧
          row.length ≤ 32 ∧ (k + 1 < (rows Memory.wordSize r.memory).length → row.length = 32)) ∧
        (rows Memory.wordSize r.memory).flatten = r.memory) ∧
      ∀ r', (∀ color', r.render .json color = r'.render .json color' → r = r') ∧
        (r.render .text color = r'.render .text color →
          r.stack = r'.stack ∧ r.memory = r'.memory) := by
  refine ⟨⟨r.read_json, r.ofJson?_toJson⟩, ⟨r.readText_text color, ?_, ?_, ?_⟩, ?_⟩
  · exact length_rows (by decide) r.memory
  · intro k row hrow
    exact length_of_getElem?_rows (by decide) hrow
  · exact flatten_rows _ _
  · intro r'
    constructor
    · intro color' heq
      have hjson : some r.toJson = some r'.toJson := by
        rw [← r.read_json, ← r'.read_json]
        exact congrArg Json.read heq
      have hreport := congrArg (Option.bind · ofJson?) hjson
      simp only [Option.bind_some, ofJson?_toJson] at hreport
      exact Option.some.inj hreport
    · intro heq
      have hshown : some r.shown = some r'.shown := by
        rw [← r.readText_text color, ← r'.readText_text color]
        exact congrArg (readText color) heq
      exact eq_of_shown (Option.some.inj hshown)

end Report

end WordMachine
