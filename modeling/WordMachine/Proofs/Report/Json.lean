import WordMachine.Proofs.Hex.RoundTrip
import WordMachine.Proofs.Text.Json
import WordMachine.Report

/-! # Reports in JSON read back

What the JSON text of a report says.

* **Values.** The JSON value of a report is an object of five fields. Words are strings of `0x` and
  exactly 64 digits, memory is one string of digits, and the rest are numbers; so the value gives
  back the report (`ofJson?_toJson`).
* **Texts.** The text of a report is an object that is written as a block of lines, and so is the
  stack, if it is not empty. Reading the text gives the value (`read_json`). -/

namespace WordMachine

namespace Word

/-- All digits of a word are 64. -/
theorem length_padded (w : Word) : (Numeral.padded 16 64 w.toNat).length = 64 := by
  have hdigits : (Numeral.digits 16 w.toNat).length ≤ 63 + 1 :=
    Numeral.length_digits_le (Nat.shiftRight_eq_zero _ _ w.isLt)
  rw [Numeral.padded_eq, Numeral.paddedDigits, List.length_map, List.length_append,
    List.length_replicate]
  omega

end Word

namespace Report

/-! ### Values -/

/-- The JSON value of a report. -/
def toJson (r : Report) : Json :=
  .object
    [("stack", .array (r.stack.map fun w => .string w.full)),
     ("memory", .string (Hex.encodePrefixed r.memory)),
     ("memory_size", .number r.memory.length),
     ("instruction", .number r.pc),
     ("steps", .number r.steps)]

/-- The word of a JSON string of `0x` and 64 digits in lower case. -/
def wordOf? : Json → Option Word
  | .string text =>
    match text.toList with
    | '0' :: 'x' :: digits =>
      if digits.length = 64 then (Numeral.written? 16 64 digits).map (BitVec.ofNat 256) else none
    | _ => none
  | _ => none

/-- The bytes of a JSON string of `0x` and two digits for each byte. -/
def bytesOf? : Json → Option Bytes
  | .string text =>
    match text.toList with
    | '0' :: 'x' :: digits => Hex.decodePairs digits
    | _ => none
  | _ => none

/-- The names of the fields of a report. -/
def fieldNames : List String := ["stack", "memory", "memory_size", "instruction", "steps"]

/-- The report of a JSON value. -/
def ofJson? : Json → Option Report
  | .object [(name₁, .array words), (name₂, bytes), (name₃, .number size), (name₄, .number pc),
      (name₅, .number steps)] => do
    let stack ← words.mapM wordOf?
    let memory ← bytesOf? bytes
    if [name₁, name₂, name₃, name₄, name₅] = fieldNames ∧ size = memory.length then
      some { stack, memory, pc, steps }
    else none
  | _ => none

theorem wordOf?_full (w : Word) : wordOf? (.string w.full) = some w := by
  have hwrites := Numeral.writes_padded (by decide : 2 ≤ 16) (by decide) (by decide : 0 < 64)
    w.toNat
  unfold wordOf? Word.full
  simp only [String.toList_ofList, w.length_padded, if_true, Numeral.written?_eq_some_iff.2 hwrites]
  simp

theorem bytesOf?_encodePrefixed (bs : Bytes) :
    bytesOf? (.string (Hex.encodePrefixed bs)) = some bs := by
  unfold bytesOf? Hex.encodePrefixed
  simp only [String.toList_ofList]
  exact Hex.decodePairs_chars bs

/-- The JSON value of a report gives back the report. -/
theorem ofJson?_toJson (r : Report) : ofJson? r.toJson = some r := by
  have hstack : (r.stack.map fun w => Json.string w.full).mapM wordOf? = some r.stack := by
    have hread := mapM_map_eq_some fun (w : Word) (_ : w ∈ r.stack) => wordOf?_full w
    rwa [List.map_id'] at hread
  unfold ofJson? toJson
  simp only [hstack, bytesOf?_encodePrefixed, Option.bind_eq_bind, Option.bind_some]
  rfl

/-! ### Texts -/

/-- The text of a word in JSON. -/
def wordText (w : Word) : List Char := '"' :: (w.full.toList ++ ['"'])

/-- Digits behind `0x` stand for themselves in a string. -/
theorem isPlain_of_digits {digits : List Char} (h : ∀ c ∈ digits, Hex.IsDigit c) :
    ∀ c ∈ '0' :: 'x' :: digits, Json.isPlain c = true := by
  have hplain : ∀ c ∈ digits, Json.isPlain c = true := fun c hc =>
    Hex.ascii_forall (P := fun c => Hex.IsDigit c → Json.isPlain c = true) (by decide)
      (h c hc).toNat_lt (h c hc)
  exact List.forall_mem_cons.2 ⟨by decide, List.forall_mem_cons.2 ⟨by decide, hplain⟩⟩

theorem reads_wordText (depth : Nat) (w : Word) :
    Json.Reads (Json.value depth) (wordText w) (.string w.full) := by
  have hplain : ∀ c ∈ w.full.toList, Json.isPlain c = true := by
    rw [Word.full, String.toList_ofList]
    exact isPlain_of_digits fun c => Numeral.isDigit_of_mem_padded (by decide) (by decide)
  exact Json.reads_string hplain

theorem toList_jsonStack {ws : List Word} (hne : ws ≠ []) :
    (jsonStack ws).toList =
      '[' :: (Json.block "    ".toList (ws.map wordText) ++ '\n' :: ("  ".toList ++ [']'])) := by
  have hnot : ws.isEmpty = false := by simpa using hne
  rw [Json.block_eq_intercalate _ (by simpa using hne)]
  simp [jsonStack, hnot, String.toList_intercalate, wordText, Function.comp_def]

theorem reads_jsonStack (depth : Nat) (ws : List Word) :
    Json.Reads (Json.value (depth + 1)) (jsonStack ws).toList
      (.array (ws.map fun w => .string w.full)) := by
  by_cases hne : ws = []
  · subst hne
    exact Json.reads_array_nil
  · rw [toList_jsonStack hne]
    have hindent : ("    ".toList.all Json.isSpace) = true := by decide
    have hlast : ("  ".toList.all Json.isSpace) = true := by decide
    exact Json.reads_array (List.all_eq_true.1 hindent) (List.all_eq_true.1 hlast) hne
      (fun w _ => reads_wordText depth w) (fun w _ => ⟨_, rfl⟩)

/-- The fields of a report in JSON: the name, the text and the value of each. -/
def jsonFields (r : Report) : List (List Char × List Char × Json) :=
  [("stack".toList, (jsonStack r.stack).toList, .array (r.stack.map fun w => .string w.full)),
   ("memory".toList, '"' :: ((Hex.encodePrefixed r.memory).toList ++ ['"']),
    .string (Hex.encodePrefixed r.memory)),
   ("memory_size".toList, Numeral.chars 10 r.memory.length, .number r.memory.length),
   ("instruction".toList, Numeral.chars 10 r.pc, .number r.pc),
   ("steps".toList, Numeral.chars 10 r.steps, .number r.steps)]

theorem toList_json (r : Report) :
    r.json.toList =
      '\x7b' :: (Json.block "  ".toList (r.jsonFields.map fun field =>
        '"' :: (field.1 ++ '"' :: ':' :: ' ' :: field.2.1)) ++ '\n' :: ([] ++ ['\x7d'])) ++
      ['\n'] := by
  have hstack : "\x7b\n  \"stack\": ".toList =
      '\x7b' :: '\n' :: ("  ".toList ++ '"' :: ("stack".toList ++ ['"', ':', ' '])) := rfl
  have hmemory : ",\n  \"memory\": \"".toList =
      ',' :: '\n' :: ("  ".toList ++ '"' :: ("memory".toList ++ ['"', ':', ' ', '"'])) := rfl
  have hsize : "\",\n  \"memory_size\": ".toList =
      '"' :: ',' :: '\n' :: ("  ".toList ++ '"' :: ("memory_size".toList ++ ['"', ':', ' '])) := rfl
  have hpc : ",\n  \"instruction\": ".toList =
      ',' :: '\n' :: ("  ".toList ++ '"' :: ("instruction".toList ++ ['"', ':', ' '])) := rfl
  have hsteps : ",\n  \"steps\": ".toList =
      ',' :: '\n' :: ("  ".toList ++ '"' :: ("steps".toList ++ ['"', ':', ' '])) := rfl
  have hend : "\n\x7d\n".toList = ['\n', '\x7d', '\n'] := rfl
  unfold json jsonFields
  simp only [String.toList_append, Numeral.toList_decimal, hstack, hmemory, hsize, hpc, hsteps,
    hend, List.map_cons, List.map_nil, Json.block]
  simp only [List.append_assoc, List.cons_append, List.nil_append]

/-- The text of a report in JSON is read as its JSON value. -/
theorem read_json (r : Report) : Json.read r.json = some r.toJson := by
  -- The object takes one level of the depth, and the stack takes one more.
  have hfields : ∀ field ∈ r.jsonFields, (∀ c ∈ field.1, Json.isPlain c = true) ∧
      Json.Reads (Json.value 127) field.2.1 field.2.2 := by
    have hmemory : ∀ c ∈ (Hex.encodePrefixed r.memory).toList, Json.isPlain c = true := by
      rw [Hex.encodePrefixed, String.toList_ofList]
      exact isPlain_of_digits fun c => Hex.isDigit_of_mem_chars
    simp only [jsonFields, List.forall_mem_cons]
    refine ⟨⟨?_, reads_jsonStack 126 r.stack⟩, ⟨?_, Json.reads_string hmemory⟩,
      ⟨?_, Json.reads_number _⟩, ⟨?_, Json.reads_number _⟩, ⟨?_, Json.reads_number _⟩,
      List.forall_mem_nil _⟩
    all_goals exact List.all_eq_true.1 (by decide)
  have hindent : ("  ".toList.all Json.isSpace) = true := by decide
  apply Json.read_of_reads r.toList_json
  have hobject := Json.reads_object (List.all_eq_true.1 hindent) (List.forall_mem_nil _)
    (List.cons_ne_nil _ _ : r.jsonFields ≠ [])
    (fun field hfield => Json.reads_field (hfields field hfield).1 (hfields field hfield).2)
    (fun field _ => ⟨_, rfl⟩)
  exact hobject

end Report

end WordMachine
