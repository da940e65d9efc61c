import WordMachine.Proofs.Listing.Alignment
import WordMachine.Proofs.Machine.Table

/-! # Listings read back

A reader of listings, and what it finds in the listing of code.

* **Names.** Instructions are told apart by their names (`Opcode.name_injective`), so a name tells
  the byte. The name of all other bytes tells nothing; there one has to look at the code.
* **Lines.** A line is an offset, a name and digits of bytes with one space between each two of
  them. None of the three holds a space or a line feed, so lines and their parts are told apart
  (`read_render`), also where there are no bytes behind the name.
* **Offsets.** Each line of code begins where the lines in front of it end, and only the last one
  may have fewer bytes than its instruction (`Line.offset_of_getElem?`,
  `Line.length_immediate_of_getElem?`).

`listing_lossless` puts these together: the listing gives back the code. -/

namespace WordMachine

/-! ### Names -/

namespace Opcode

/-- The instruction of a name. -/
def ofName? (name : String) : Option Opcode := all.find? (·.name == name)

theorem mem_take_or_push (op : Opcode) : op ∈ all.take 17 ∨ ∃ width, op = push width := by
  cases op with
  | binary op => cases op <;> exact .inl (by decide)
  | push width => exact .inr ⟨width, rfl⟩
  | _ => exact .inl (by decide)

theorem toList_name_push (width : Fin 33) :
    (push width).name.toList = "PUSH".toList ++ Numeral.chars 10 width.val := by
  rw [name, Numeral.decimal, String.toList_append]
  simp

/-- Instructions are told apart by their names. -/
theorem name_injective {op op' : Opcode} (h : op.name = op'.name) : op = op' := by
  have hfixed : ∀ a ∈ all.take 17, ∀ b ∈ all.take 17, a.name = b.name → a = b := by decide
  have hfront : ∀ a ∈ all.take 17, ∀ width, a.name ≠ (push width).name := by
    intro a ha width heq
    have hpush : (push width).name.toList.take 4 = "PUSH".toList := by
      rw [toList_name_push]
      rfl
    have hother : ∀ a ∈ all.take 17, a.name.toList.take 4 ≠ "PUSH".toList := by decide
    rw [← heq] at hpush
    exact hother a ha hpush
  obtain ha | ⟨width, rfl⟩ := mem_take_or_push op
  · obtain hb | ⟨width', rfl⟩ := mem_take_or_push op'
    · exact hfixed op ha op' hb h
    · exact absurd h (hfront op ha width')
  · obtain hb | ⟨width', rfl⟩ := mem_take_or_push op'
    · exact absurd h.symm (hfront op' hb width)
    · have hdigits : Numeral.chars 10 width.val = Numeral.chars 10 width'.val := by
        have hlist := congrArg String.toList h
        rw [toList_name_push, toList_name_push] at hlist
        exact List.append_cancel_left hlist
      have hwrites := Numeral.writes_chars (by decide : 2 ≤ 10) (by decide)
      have hread := (hwrites width.val).number?_eq
      rw [hdigits, (hwrites width'.val).number?_eq] at hread
      rw [Fin.ext (Option.some.inj hread).symm]

/-- The name of an instruction tells the instruction. -/
theorem ofName?_name (op : Opcode) : ofName? op.name = some op := by
  unfold ofName?
  cases hfind : all.find? (·.name == op.name) with
  | none =>
    have hmissing := List.find?_eq_none.1 hfind op op.mem_all
    simp at hmissing
  | some op' =>
    have hname := List.find?_some hfind
    rw [name_injective (beq_iff_eq.1 hname)]

/-- A byte that stands for no instruction has no instruction's name. -/
theorem ofName?_unknown : ofName? "unknown" = none := by
  refine List.find?_eq_none.2 fun op _ hname => ?_
  have hname : op.name = "unknown" := beq_iff_eq.1 hname
  obtain ha | ⟨width, rfl⟩ := mem_take_or_push op
  · have hfixed : ∀ a ∈ all.take 17, a.name ≠ "unknown" := by decide
    exact hfixed op ha hname
  · have hlist := congrArg String.toList hname
    rw [toList_name_push] at hlist
    simp at hlist

theorem ofName?_nameOfByte (byte : UInt8) : ofName? (nameOfByte byte) = ofByte? byte := by
  unfold nameOfByte
  cases hop : ofByte? byte with
  | none => exact ofName?_unknown
  | some op => exact ofName?_name op

/-- A text without blanks, checked character by character. -/
theorem not_isBlank_of_all {text : String}
    (h : (text.toList.all fun c => !Blank.isBlank c) = true) {c : Char} (hc : c ∈ text.toList) :
    Blank.isBlank c = false := by
  simpa using List.all_eq_true.1 h c hc

/-- No name holds a blank. -/
theorem not_isBlank_of_mem_nameOfByte {byte : UInt8} {c : Char}
    (h : c ∈ (nameOfByte byte).toList) : Blank.isBlank c = false := by
  unfold nameOfByte at h
  cases hop : ofByte? byte with
  | none =>
    rw [hop] at h
    exact not_isBlank_of_all (by decide : ("unknown".toList.all _) = true) h
  | some op =>
    rw [hop] at h
    change c ∈ op.name.toList at h
    obtain ha | ⟨width, rfl⟩ := mem_take_or_push op
    · have hfixed : ((all.take 17).all fun a => a.name.toList.all fun c => !Blank.isBlank c) =
          true := by decide
      exact not_isBlank_of_all (List.all_eq_true.1 hfixed op ha) h
    · rw [toList_name_push] at h
      rcases List.mem_append.1 h with h | h
      · exact not_isBlank_of_all (by decide : ("PUSH".toList.all _) = true) h
      · exact (Numeral.isDigit_of_mem_chars (by omega) (by omega) h).ne_other.2.2

end Opcode

namespace Listing

/-! ### Reading -/

/-- What a line of a listing says. -/
structure Listed where
  offset : Nat
  name : String
  immediate : Bytes
deriving DecidableEq, Repr

namespace Listed

/-- The number of bytes that a line covers. -/
def length (r : Listed) : Nat := 1 + r.immediate.length

/-- The byte that a line is about: the one of its name, or where no instruction has that name, the
one that the code has at the offset. -/
def opcode (code : Bytes) (r : Listed) : UInt8 :=
  ((Opcode.ofName? r.name).map Opcode.toByte).getD (code.getD r.offset 0)

/-- The bytes that a line is about. -/
def bytes (code : Bytes) (r : Listed) : Bytes := r.opcode code :: r.immediate

end Listed

/-- The number of bytes that lines cover. -/
def covered : List Listed → Nat
  | [] => 0
  | r :: rs => r.length + covered rs

/-- The base of the offsets. -/
def offsetBase (decimal : Bool) : Nat := if decimal then 10 else 16

/-- The number of digits that offsets have at least. -/
def offsetWidth (decimal : Bool) : Nat := if decimal then 1 else 6

/-- Reads a line: an offset, a name, and the digits of some bytes. -/
def readLine (decimal : Bool) (line : List Char) : Option Listed :=
  match line.splitOn ' ' with
  | [offset, name, immediate] => do
    let offset ← Numeral.number? (offsetBase decimal) offset
    let immediate ← Hex.decodePairs immediate
    return { offset, name := String.ofList name, immediate }
  | _ => none

/-- Reads a listing line by line. -/
def read (decimal : Bool) (listing : String) : Option (List Listed) := do
  (← Lines.read? listing.toList).mapM (readLine decimal)

/-! ### Lines -/

namespace Line

/-- What the line of an instruction says. -/
def listed (l : Line) : Listed := ⟨l.offset, Opcode.nameOfByte l.opcode, l.immediate⟩

/-- The text of a line, without the line feed. -/
def chars (decimal : Bool) (l : Line) : List Char :=
  offsetText decimal l.offset ++ ' ' ::
    ((Opcode.nameOfByte l.opcode).toList ++ ' ' :: Hex.chars l.immediate)

theorem toList_render (decimal : Bool) (l : Line) :
    (render decimal l).toList = chars decimal l ++ ['\n'] := by
  simp [render, chars, Hex.encode]

/-- Offsets are shown as numerals of their base, filled up with zeros to their width. -/
theorem writes_offsetText (decimal : Bool) (offset : Nat) :
    Numeral.Writes (offsetBase decimal) (offsetWidth decimal) (offsetText decimal offset) offset := by
  cases decimal with
  | true => exact Numeral.writes_chars (by decide) (by decide) offset
  | false => exact Numeral.writes_padded (by decide) (by decide) (by decide) offset

theorem not_isBlank_of_mem_offsetText {decimal : Bool} {offset : Nat} {c : Char}
    (h : c ∈ offsetText decimal offset) : Blank.isBlank c = false := by
  cases decimal with
  | true => exact (Numeral.isDigit_of_mem_chars (by omega) (by omega) h).ne_other.2.2
  | false => exact (Numeral.isDigit_of_mem_padded (by omega) (by omega) h).ne_other.2.2

/-- In a line, only the two spaces are blank. -/
theorem not_mem_parts (decimal : Bool) (l : Line) {c : Char} (hc : Blank.isBlank c = true) :
    c ∉ offsetText decimal l.offset ∧ c ∉ (Opcode.nameOfByte l.opcode).toList ∧
      c ∉ Hex.chars l.immediate := by
  refine ⟨fun h => ?_, fun h => ?_, fun h => ?_⟩
  · exact Bool.false_ne_true ((not_isBlank_of_mem_offsetText h).symm.trans hc)
  · exact Bool.false_ne_true ((Opcode.not_isBlank_of_mem_nameOfByte h).symm.trans hc)
  · exact Bool.false_ne_true ((Hex.isDigit_of_mem_chars h).ne_other.2.2.symm.trans hc)

theorem newline_not_mem_chars (decimal : Bool) (l : Line) : '\n' ∉ chars decimal l := by
  obtain ⟨hoffset, hname, hdigits⟩ := not_mem_parts decimal l (c := '\n') (by decide)
  simp [chars, hoffset, hname, hdigits]

/-- A line says what it was written for. -/
theorem readLine_chars (decimal : Bool) (l : Line) :
    readLine decimal (chars decimal l) = some l.listed := by
  obtain ⟨hoffset, hname, hdigits⟩ := not_mem_parts decimal l (c := ' ') (by decide)
  rw [readLine, chars, Lines.splitOn_three hoffset hname hdigits]
  simp only [(writes_offsetText decimal l.offset).number?_eq, Hex.decodePairs_chars,
    String.ofList_toList]
  rfl

/-- Each line starts where the lines in front of it end. -/
theorem offset_of_getElem? {offset k : Nat} {code : Bytes} {l : Line}
    (h : (ofCodeAt offset code)[k]? = some l) :
    l.offset = offset + covered (((ofCodeAt offset code).take k).map listed) := by
  induction offset, code using ofCodeAt.induct generalizing k
  case case1 offset =>
    rw [ofCodeAt] at h
    cases h
  case case2 offset byte rest width line ih =>
    rw [ofCodeAt] at h ⊢
    cases k with
    | zero =>
      cases h
      rfl
    | succ k =>
      have hline : line.bytes.length = line.listed.length := by
        simp [bytes, listed, Listed.length, Nat.add_comm]
      rw [List.getElem?_cons_succ] at h
      rw [List.take_succ_cons, List.map_cons, covered, ih h, hline, Nat.add_assoc]

/-- No line has more bytes than its instruction, and only the last one may have fewer. -/
theorem length_immediate_of_getElem? {offset k : Nat} {code : Bytes} {l : Line}
    (h : (ofCodeAt offset code)[k]? = some l) :
    l.immediate.length ≤ Opcode.immediateOfByte l.opcode ∧
      (k + 1 < (ofCodeAt offset code).length →
        l.immediate.length = Opcode.immediateOfByte l.opcode) := by
  induction offset, code using ofCodeAt.induct generalizing k
  case case1 offset =>
    rw [ofCodeAt] at h
    cases h
  case case2 offset byte rest width line ih =>
    rw [ofCodeAt] at h ⊢
    cases k with
    | zero =>
      cases h
      refine ⟨List.length_take_le _ _, fun hmore => ?_⟩
      -- Another line has a byte behind all those that belong to this one.
      have hrest : rest.drop width ≠ [] := by
        intro hnil
        rw [hnil] at hmore
        simp [ofCodeAt] at hmore
      have hlen : width < rest.length := by simpa using hrest
      change (rest.take width).length = width
      rw [List.length_take]
      exact Nat.min_eq_left (Nat.le_of_lt hlen)
    | succ k =>
      rw [List.getElem?_cons_succ] at h
      obtain ⟨hle, hfull⟩ := ih h
      exact ⟨hle, fun hmore => hfull (by simpa using hmore)⟩

theorem length_flatMap_bytes (ls : List Line) :
    (ls.flatMap bytes).length = covered (ls.map listed) := by
  induction ls with
  | nil => rfl
  | cons l ls ih =>
    rw [List.flatMap_cons, List.length_append, ih, List.map_cons, covered]
    simp [bytes, listed, Listed.length, Nat.add_comm]

/-- The code has the byte of a line at the offset of the line. -/
theorem getElem?_offset {code : Bytes} {k : Nat} {l : Line} (h : (ofCode code)[k]? = some l) :
    code[l.offset]? = some l.opcode := by
  obtain ⟨hlt, hget⟩ := List.getElem?_eq_some_iff.1 h
  have hoffset : l.offset = (((ofCode code).take k).flatMap bytes).length := by
    rw [length_flatMap_bytes, offset_of_getElem? h, Nat.zero_add]
    rfl
  have hlines : ofCode code = (ofCode code).take k ++ l :: (ofCode code).drop (k + 1) := by
    rw [← hget, List.getElem_cons_drop, List.take_append_drop]
  have hcode : code = ((ofCode code).take k).flatMap bytes ++
      (l.bytes ++ ((ofCode code).drop (k + 1)).flatMap bytes) := by
    rw [← List.flatMap_cons, ← List.flatMap_append, ← hlines, flatMap_bytes_ofCode]
  rw [hcode, hoffset, List.getElem?_append_right (Nat.le_refl _), Nat.sub_self]
  rfl

/-- What a line says, and for a name of no instruction the code itself, give back its bytes. -/
theorem bytes_listed {code : Bytes} {l : Line} (h : l ∈ ofCode code) :
    l.listed.bytes code = l.bytes := by
  obtain ⟨k, hk⟩ := List.getElem?_of_mem h
  have hopcode : l.listed.opcode code = l.opcode := by
    change ((Opcode.ofName? (Opcode.nameOfByte l.opcode)).map Opcode.toByte).getD
      (code.getD l.offset 0) = l.opcode
    rw [Opcode.ofName?_nameOfByte]
    cases hop : Opcode.ofByte? l.opcode with
    | none => simp [getElem?_offset hk]
    | some op => exact Opcode.toByte_of_ofByte? hop
  rw [Listed.bytes, hopcode]
  rfl

end Line

/-! ### Listings -/

/-- The lines of a listing are the texts of the lines of the code. -/
theorem lines_render (decimal : Bool) (code : Bytes) :
    Lines.read? (render decimal code).toList =
      some ((Line.ofCode code).map (Line.chars decimal)) := by
  have htext : (render decimal code).toList =
      ((Line.ofCode code).map (Line.chars decimal)).flatMap (· ++ ['\n']) := by
    rw [render, String.toList_join, List.flatMap_map, List.flatMap_map]
    exact List.flatMap_congr fun l _ => Line.toList_render decimal l
  rw [htext]
  apply Lines.read?_flatMap
  intro l hl
  obtain ⟨line, -, rfl⟩ := List.mem_map.1 hl
  exact Line.newline_not_mem_chars decimal line

/-- A listing says what each line was written for. -/
theorem read_render (decimal : Bool) (code : Bytes) :
    read decimal (render decimal code) = some ((Line.ofCode code).map Line.listed) := by
  rw [read, lines_render]
  exact mapM_map_eq_some fun l _ => Line.readLine_chars decimal l

/-- What a listing says, and for names of no instruction the code itself, give back the code. -/
theorem flatMap_bytes_listed (code : Bytes) :
    ((Line.ofCode code).map Line.listed).flatMap (Listed.bytes code) = code := by
  rw [List.flatMap_map, List.flatMap_congr fun l hl => Line.bytes_listed hl]
  exact Line.flatMap_bytes_ofCode code

/-- Where all names are names of instructions, the code itself has nothing to tell. -/
theorem bytes_listed_of_known {code : Bytes} (known : ∀ l ∈ Line.ofCode code,
    (Opcode.ofByte? l.opcode).isSome) (other : Bytes) :
    ((Line.ofCode code).map Line.listed).flatMap (Listed.bytes other) = code := by
  refine Eq.trans ?_ (flatMap_bytes_listed code)
  rw [List.flatMap_map, List.flatMap_map]
  refine List.flatMap_congr fun l hl => ?_
  have hname : Opcode.ofName? l.listed.name = Opcode.ofByte? l.opcode :=
    Opcode.ofName?_nameOfByte l.opcode
  obtain ⟨op, hop⟩ := Option.isSome_iff_exists.1 (known l hl)
  rw [Listed.bytes, Listed.bytes, Listed.opcode, Listed.opcode, hname, hop]
  rfl

/-- The line `k` of a listing, as text and as what it says. It shows in three columns the number of
bytes that the lines in front of it cover, the name of a byte of the code, and the bytes that belong
to it: all that its instruction should have, unless it is the last line. -/
structure Listed.Fits (decimal : Bool) (code : Bytes) (rows : List Listed) (k : Nat)
    (line : List Char) (r : Listed) : Prop where
  columns : ∃ offset, line = offset ++ ' ' :: (r.name.toList ++ ' ' :: Hex.chars r.immediate) ∧
    Numeral.Writes (offsetBase decimal) (offsetWidth decimal) offset r.offset
  offset_eq : r.offset = covered (rows.take k)
  getElem?_offset : code[r.offset]? = some (r.opcode code)
  name_eq : r.name = Opcode.nameOfByte (r.opcode code)
  length_le : r.immediate.length ≤ Opcode.immediateOfByte (r.opcode code)
  length_eq : k + 1 < rows.length →
    r.immediate.length = Opcode.immediateOfByte (r.opcode code)

theorem Line.fits (decimal : Bool) {code : Bytes} {k : Nat} {l : Line}
    (h : (ofCode code)[k]? = some l) :
    l.listed.Fits decimal code ((ofCode code).map listed) k (chars decimal l) := by
  have hopcode : l.listed.opcode code = l.opcode :=
    (List.cons.inj (bytes_listed (List.mem_of_getElem? h))).1
  obtain ⟨hle, hfull⟩ := length_immediate_of_getElem? h
  refine ⟨⟨_, rfl, writes_offsetText decimal l.offset⟩, ?_, ?_, ?_, ?_, ?_⟩
  · rw [← List.map_take]
    exact (offset_of_getElem? h).trans (Nat.zero_add _)
  · rw [hopcode]
    exact getElem?_offset h
  · rw [hopcode]
    rfl
  · rw [hopcode]
    exact hle
  · rw [hopcode, List.length_map]
    exact hfull

/-- The listing of code loses nothing. Line by line it shows where the line begins, which is the
number of bytes that the lines in front of it cover, the name of the byte there, and the bytes that
belong to it, which are fewer than they should be in the last line at most. The bytes of the names,
with those of the code itself where an unknown byte stands, and the bytes that belong to them give
back the code. So code in which every instruction is known is told by its listing. -/
theorem listing_lossless (decimal : Bool) (code : Bytes) :
    (∀ fs, Request.listing fs ⟨Hex.encode code, decimal⟩ = .ok (render decimal code)) ∧
      (∃ lines rows, Lines.read? (render decimal code).toList = some lines ∧
        lines.mapM (readLine decimal) = some rows ∧
        (∀ (k : Nat) line r, lines[k]? = some line → rows[k]? = some r →
          r.Fits decimal code rows k line) ∧
        rows.flatMap (Listed.bytes code) = code) ∧
      ∀ other, (∀ l ∈ Line.ofCode code, (Opcode.ofByte? l.opcode).isSome) →
        render decimal code = render decimal other → code = other := by
  refine ⟨fun fs => ?_, ⟨_, _, lines_render decimal code, ?_, ?_, flatMap_bytes_listed code⟩, ?_⟩
  · rw [Request.listing, Target.resolve_encode]
  · exact mapM_map_eq_some fun l _ => Line.readLine_chars decimal l
  · intro k line r hline hr
    rw [List.getElem?_map] at hline hr
    obtain ⟨l, hl, rfl⟩ := Option.map_eq_some_iff.1 hline
    rw [hl] at hr
    cases hr
    exact Line.fits decimal hl
  · intro other hknown htext
    have hsame := read_render decimal code
    rw [htext, read_render decimal other] at hsame
    have hrows : (Line.ofCode other).map Line.listed = (Line.ofCode code).map Line.listed :=
      Option.some.inj hsame
    rw [← bytes_listed_of_known hknown other, ← hrows, flatMap_bytes_listed]

end Listing

end WordMachine
