import WordMachine.Proofs.Files.Lookup
import WordMachine.Proofs.Hex.RoundTrip

/-! # The grammar of targets

A target is code if it spells hexadecimal digits, and the path of a file otherwise.

* **Stages.** Whether a text is code is decided before its digits are read, so what is left to go
  wrong while they are read is an odd number of them (`denotes_of_spells`).
* **Code.** A target that is code is never looked up among the files (`resolve_of_spells`).
* **Files.** Any other target stands for what its file spells once all blanks in it are dropped
  (`resolve_of_holds`).

`resolve_follows_grammar` puts these together, and says which texts stand for given bytes. -/

namespace WordMachine

/-- The second text is the first with blanks put anywhere into it. -/
inductive Blank.Spaced : List Char → List Char → Prop
  | nil : Spaced [] []
  | keep {cs ds : List Char} (c : Char) : Spaced cs ds → Spaced (c :: cs) (c :: ds)
  | blank {cs ds : List Char} {c : Char} : isBlank c = true → Spaced cs ds → Spaced cs (c :: ds)

/-- Blanks that were put into a text without blanks are all that is dropped. -/
theorem Blank.strip_of_spaced {cs ds : List Char} (h : Spaced cs ds)
    (hcs : ∀ c ∈ cs, isBlank c = false) : strip ds = cs := by
  induction h with
  | nil => rfl
  | keep c _ ih =>
    obtain ⟨hc, hcs⟩ := List.forall_mem_cons.1 hcs
    rw [strip, List.filter_cons_of_pos (by simp [hc])]
    exact congrArg (c :: ·) (ih hcs)
  | blank hc _ ih =>
    rw [strip, List.filter_cons_of_neg (by simp [hc])]
    exact ih hcs

namespace Target

open Hex

/-- What becomes of a text that spells digits: an even number of them stands for the bytes that are
written with them in lower case, an odd number is refused. -/
structure Denotes (digits : List Char) (refusal : TargetError)
    (outcome : Except TargetError Bytes) : Prop where
  accepts : (∃ bs, outcome = .ok bs) ↔ digits.length % 2 = 0
  faithful : ∀ bs, outcome = .ok bs → encode bs = String.ofList (digits.map Char.toLower)
  refuses : digits.length % 2 ≠ 0 → outcome = .error refusal

/-- Reading a text that spells digits can fail for their number alone. -/
theorem denotes_of_spells {text : String} {digits : List Char} (h : Spells text.toList digits)
    (refusal : Malformed → TargetError) :
    Denotes digits (refusal (.oddLength digits.length)) ((decode text).mapError refusal) := by
  by_cases heven : digits.length % 2 = 0
  · obtain ⟨bs, hread, hchars⟩ := h.decode_of_even heven
    rw [hread]
    refine ⟨⟨fun _ => heven, fun _ => ⟨bs, rfl⟩⟩, fun bs' hbs => ?_, fun hodd => absurd heven hodd⟩
    cases hbs
    rw [encode, hchars]
  · rw [h.decode_of_odd heven]
    refine ⟨⟨?_, fun h => absurd h heven⟩, fun bs hbs => (by cases hbs), fun _ => rfl⟩
    rintro ⟨bs, hbs⟩
    cases hbs

/-- Digits of any case that spell bytes stand for these bytes. -/
theorem Denotes.eq_ok {digits : List Char} {refusal : TargetError}
    {outcome : Except TargetError Bytes} {bs : Bytes} (h : Denotes digits refusal outcome)
    (hdigits : digits.map Char.toLower = chars bs) : outcome = .ok bs := by
  have hlength : digits.length = 2 * bs.length := by
    rw [← length_chars, ← hdigits, List.length_map]
  obtain ⟨bs', hread⟩ := h.accepts.2 (by omega)
  have hsame := h.faithful bs' hread
  rw [hdigits, encode, String.ofList_inj] at hsame
  rw [hread, chars_injective hsame]

/-! ### Targets -/

/-- A target that is code is read as it stands. -/
theorem resolve_of_spells {target : String} {digits : List Char}
    (h : Spells target.toList digits) (fs : FileSystem) :
    resolve fs target = (decode target).mapError .malformed := by
  have hcode : isCode target.toList = true := isCode_iff.2 ⟨digits, h⟩
  rw [resolve, if_pos hcode]
  cases decode target <;> rfl

/-- The content of a file that is code once its blanks are dropped is read as it stands then. -/
theorem ofContent_of_spells {path content : String} {digits : List Char}
    (h : Spells (Blank.strip content.toList) digits) :
    ofContent path content = (decode (compacted content)).mapError (.malformedFile path) := by
  have hcode : isCode (compacted content).toList = true := by
    rw [compacted, String.toList_ofList]
    exact isCode_iff.2 ⟨digits, h⟩
  rw [ofContent, if_pos hcode]
  cases decode (compacted content) <;> rfl

theorem ofContent_of_not_spells {path content : String}
    (h : ¬ ∃ digits, Spells (Blank.strip content.toList) digits) :
    ofContent path content = .error (.notCode path) := by
  have hcode : ¬ isCode (compacted content).toList = true := by
    rw [compacted, String.toList_ofList]
    exact fun hcode => h (isCode_iff.1 hcode)
  rw [ofContent, if_neg hcode]

/-- What a file holds is never the reason that it cannot be read. -/
theorem ofContent_ne_unreadable (path content : String) (failure : Failure) :
    ofContent path content ≠ .error (.unreadable failure) := by
  by_cases h : ∃ digits, Spells (Blank.strip content.toList) digits
  · obtain ⟨digits, h⟩ := h
    rw [ofContent_of_spells h]
    cases decode (compacted content) <;> simp [Except.mapError]
  · rw [ofContent_of_not_spells h]
    simp

/-- A target that is no code stands for the content of its file. -/
theorem resolve_of_holds {fs : FileSystem} {target content : String}
    (hpath : ¬ ∃ digits, Spells target.toList digits)
    (h : fs.Holds (Path.ofText target) content) :
    resolve fs target = ofContent target content := by
  have hcode : ¬ isCode target.toList = true := fun hcode => hpath (isCode_iff.1 hcode)
  rw [resolve, if_neg hcode, FileSystem.readText_eq_ok_iff.2 h]

/-- A target that is no code is unreadable if there is no file with a text. -/
theorem resolve_unreadable_iff {fs : FileSystem} {target : String}
    (hpath : ¬ ∃ digits, Spells target.toList digits) :
    (∃ failure, resolve fs target = .error (.unreadable failure)) ↔
      ¬ ∃ content, fs.Holds (Path.ofText target) content := by
  constructor
  · rintro ⟨failure, h⟩ ⟨content, hheld⟩
    rw [resolve_of_holds hpath hheld] at h
    exact ofContent_ne_unreadable target content failure h
  · intro hnone
    have hcode : ¬ isCode target.toList = true := fun hcode => hpath (isCode_iff.1 hcode)
    rw [resolve, if_neg hcode]
    cases hread : fs.readText (Path.ofText target) with
    | error failure => exact ⟨failure, rfl⟩
    | ok content => exact absurd ⟨content, FileSystem.readText_eq_ok_iff.1 hread⟩ hnone

/-- Targets are resolved by their grammar. Code is an optional mark and digits; it stands for the
bytes that the digits spell, whatever files there are, and is refused if their number is odd. Any
other target is a path, and is unreadable if no file with a text is there. What the text spells
without its blanks decides as it does for code, and a text that spells nothing is refused. Hence
what is written for bytes stands for them in either case and with or without the mark, and in a file
with blanks anywhere. -/
theorem resolve_follows_grammar (fs : FileSystem) (target : String) :
    (∀ digits, Spells target.toList digits →
      Denotes digits (.malformed (.oddLength digits.length)) (resolve fs target) ∧
        ∀ fs', resolve fs' target = resolve fs target) ∧
      ((¬ ∃ digits, Spells target.toList digits) →
        ((∃ failure, resolve fs target = .error (.unreadable failure)) ↔
          ¬ ∃ content, fs.Holds (Path.ofText target) content) ∧
        ∀ content, fs.Holds (Path.ofText target) content →
          (∀ digits, Spells (Blank.strip content.toList) digits →
            Denotes digits (.malformedFile target (.oddLength digits.length))
              (resolve fs target)) ∧
          ((¬ ∃ digits, Spells (Blank.strip content.toList) digits) →
            resolve fs target = .error (.notCode target))) ∧
      ∀ bs digits text, digits.map Char.toLower = (encode bs).toList →
        (text = digits ∨ text = '0' :: 'x' :: digits) →
          (target.toList = text → resolve fs target = .ok bs) ∧
          ∀ content, (¬ ∃ digits, Spells target.toList digits) →
            fs.Holds (Path.ofText target) content → Blank.Spaced text content.toList →
              resolve fs target = .ok bs := by
  have hcode : ∀ digits, Spells target.toList digits →
      Denotes digits (.malformed (.oddLength digits.length)) (resolve fs target) := by
    intro digits h
    rw [resolve_of_spells h]
    exact denotes_of_spells h .malformed
  have hfile : ∀ content digits, (¬ ∃ digits, Spells target.toList digits) →
      fs.Holds (Path.ofText target) content → Spells (Blank.strip content.toList) digits →
        Denotes digits (.malformedFile target (.oddLength digits.length)) (resolve fs target) := by
    intro content digits hpath hheld h
    rw [resolve_of_holds hpath hheld, ofContent_of_spells h]
    refine denotes_of_spells ?_ (.malformedFile target)
    rw [compacted, String.toList_ofList]
    exact h
  refine ⟨fun digits h => ⟨hcode digits h, fun fs' => ?_⟩, fun hpath => ⟨?_, ?_⟩, ?_⟩
  · rw [resolve_of_spells h, resolve_of_spells h]
  · exact resolve_unreadable_iff hpath
  · intro content hheld
    refine ⟨fun digits => hfile content digits hpath hheld, fun hnone => ?_⟩
    rw [resolve_of_holds hpath hheld, ofContent_of_not_spells hnone]
  · intro bs digits text hdigits htext
    rw [encode, String.toList_ofList] at hdigits
    have hspells : Spells text digits := spells_of_toLower htext hdigits
    refine ⟨?_, fun content hpath hheld hspaced => ?_⟩
    · rintro rfl
      exact (hcode digits hspells).eq_ok hdigits
    · have hstrip := Blank.strip_of_spaced hspaced hspells.not_isBlank
      exact (hfile content digits hpath hheld (hstrip ▸ hspells)).eq_ok hdigits

end Target

end WordMachine
