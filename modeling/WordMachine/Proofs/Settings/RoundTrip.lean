import WordMachine.Proofs.Files.ReadBack
import WordMachine.Proofs.Toml.Lines
import WordMachine.Settings.Storage

/-! # Settings in a file and back

What is read from the document of some settings, and from the file that they were saved to.

* **Documents.** Each line of the document sets one entry, a limit that is absent has no line, and a
  reader takes a missing entry for an absent limit. So the entries give back the settings
  (`ofDocument_document`), if the limits fit in the integers of a document.
* **Files.** Settings are saved where texts can be written, and loading finds them there
  (`save_then_load`). -/

namespace WordMachine

namespace Settings

open Toml

/-! ### Entries -/

/-- Some entries and one for a limit, if there is a limit. -/
def withLimit (es : Entries) (key : String) : Option Nat → Entries
  | none => es
  | some n => es.set key (.scalar (.integer n))

/-- The entries of the document of the settings. -/
def entries (s : Settings) : Entries :=
  let switch := Entries.set [] strictKey (.scalar (.boolean s.strictOpcodes))
  let stack := withLimit switch stackKey s.stackLimit
  let memory := withLimit stack memoryKey s.memoryLimit
  withLimit memory stepKey s.stepLimit

variable {es : Entries} {key other : String} {limit : Option Nat}

theorem lookup_withLimit_of_ne (h : other ≠ key) :
    (withLimit es key limit).lookup other = es.lookup other := by
  cases limit with
  | none => rfl
  | some n => exact es.lookup_set_of_ne h _

theorem limitOf_withLimit_self (hnew : es.lookup key = none) :
    limitOf (withLimit es key limit) key = some limit := by
  unfold limitOf
  cases limit with
  | none =>
    rw [withLimit, hnew]
  | some n =>
    rw [withLimit, es.lookup_set_self]

theorem limitOf_withLimit_of_ne (h : other ≠ key) :
    limitOf (withLimit es key limit) other = limitOf es other := by
  unfold limitOf
  rw [lookup_withLimit_of_ne h]

theorem switchOf_withLimit_of_ne (h : other ≠ key) :
    switchOf (withLimit es key limit) other = switchOf es other := by
  unfold switchOf
  rw [lookup_withLimit_of_ne h]

/-- A limit has no entry in front of its own line. -/
theorem lookup_switch_of_ne (h : key ≠ strictKey) (b : Bool) :
    (Entries.set [] strictKey (.scalar (.boolean b))).lookup key = none :=
  Entries.lookup_set_of_ne [] h _

/-- The entries give back the settings. -/
theorem ofEntries_entries (s : Settings) : ofEntries s.entries = some s := by
  have hstack : stackKey ≠ strictKey := by decide
  have hmemory : memoryKey ≠ strictKey ∧ memoryKey ≠ stackKey := by decide
  have hstep : stepKey ≠ strictKey ∧ stepKey ≠ stackKey ∧ stepKey ≠ memoryKey := by decide
  have hstrictOf : switchOf s.entries strictKey = some s.strictOpcodes := by
    unfold entries
    rw [switchOf_withLimit_of_ne hstep.1.symm, switchOf_withLimit_of_ne hmemory.1.symm,
      switchOf_withLimit_of_ne hstack.symm]
    rfl
  have hstackOf : limitOf s.entries stackKey = some s.stackLimit := by
    unfold entries
    rw [limitOf_withLimit_of_ne hstep.2.1.symm, limitOf_withLimit_of_ne hmemory.2.symm]
    exact limitOf_withLimit_self (lookup_switch_of_ne hstack _)
  have hmemoryOf : limitOf s.entries memoryKey = some s.memoryLimit := by
    unfold entries
    rw [limitOf_withLimit_of_ne hstep.2.2.symm]
    apply limitOf_withLimit_self
    rw [lookup_withLimit_of_ne hmemory.2]
    exact lookup_switch_of_ne hmemory.1 _
  have hstepOf : limitOf s.entries stepKey = some s.stepLimit := by
    unfold entries
    apply limitOf_withLimit_self
    rw [lookup_withLimit_of_ne hstep.2.2, lookup_withLimit_of_ne hstep.2.1]
    exact lookup_switch_of_ne hstep.1 _
  unfold ofEntries
  rw [hstrictOf, hstackOf, hmemoryOf, hstepOf]
  rfl

/-! ### Documents -/

theorem bare_of_all (hne : key.toList ≠ []) (hall : (key.toList.all isBare) = true) :
    Bare key.toList :=
  ⟨hne, List.all_eq_true.1 hall⟩

/-- The line of a limit sets its entry, and where there is no limit nothing is set. -/
theorem yields_limitLine {rounds : Nat} {rest : List Char} {all : Entries}
    (hkey : Bare key.toList) (hfits : fits limit = true) (hnew : es.lookup key = none)
    (h : Yields rounds (withLimit es key limit) rest all) :
    Yields (rounds + 1) es (limitLine key limit ++ rest) all := by
  cases limit with
  | none => exact h.mono
  | some n =>
    have hn : n < integerBound := by simpa [fits] using hfits
    have hline : limitLine key (some n) ++ rest =
        key.toList ++ ' ' :: '=' :: ' ' :: (Numeral.chars 10 n ++ '\n' :: rest) := by
      simp [limitLine]
    rw [hline]
    apply Yields.line hkey (denotes_chars hn)
    · rwa [String.ofList_toList]
    · rwa [String.ofList_toList]

theorem toList_document (s : Settings) :
    s.document.toList =
      strictKey.toList ++ ' ' :: '=' :: ' ' :: ((switchText s.strictOpcodes).toList ++ '\n' ::
        (limitLine stackKey s.stackLimit ++ (limitLine memoryKey s.memoryLimit ++
          (limitLine stepKey s.stepLimit ++ [])))) := by
  simp [document]

/-- The lines of a document set one entry after the other. -/
theorem yields_document {s : Settings} (h : s.storable = true) :
    Yields 5 [] s.document.toList s.entries := by
  obtain ⟨hfits, hstepFits⟩ := Bool.and_eq_true_iff.1 h
  obtain ⟨hstackFits, hmemoryFits⟩ := Bool.and_eq_true_iff.1 hfits
  have hstrict : Bare strictKey.toList := bare_of_all (by decide) (by decide)
  have hstack : Bare stackKey.toList := bare_of_all (by decide) (by decide)
  have hmemory : Bare memoryKey.toList := bare_of_all (by decide) (by decide)
  have hstep : Bare stepKey.toList := bare_of_all (by decide) (by decide)
  rw [toList_document]
  apply Yields.line hstrict (denotes_switch s.strictOpcodes) rfl
  rw [String.ofList_toList]
  apply yields_limitLine hstack hstackFits
  · exact lookup_switch_of_ne (by decide) _
  apply yields_limitLine hmemory hmemoryFits
  · rw [lookup_withLimit_of_ne (by decide)]
    exact lookup_switch_of_ne (by decide) _
  apply yields_limitLine hstep hstepFits
  · rw [lookup_withLimit_of_ne (by decide), lookup_withLimit_of_ne (by decide)]
    exact lookup_switch_of_ne (by decide) _
  exact Yields.nil _

/-- A text that does not begin with a byte order mark is read from its first character on. -/
theorem read_of_yields {rounds : Nat} {text : String} {c : Char} {cs : List Char} {all : Entries}
    (htext : text.toList = c :: cs) (hmark : c.toNat ≠ 0xfeff) (hrounds : rounds ≤ cs.length + 2)
    (h : Yields rounds [] text.toList all) : Toml.read text = some all := by
  unfold Toml.read
  rw [htext] at h ⊢
  simp only [if_neg hmark]
  exact h _ hrounds

/-- The document of settings is read as these settings. -/
theorem ofDocument_document {s : Settings} (h : s.storable = true) :
    ofDocument s.document = .ok s := by
  have hread : Toml.read s.document = some s.entries := by
    obtain ⟨rest, hkey, hlength⟩ : ∃ rest, strictKey.toList = 's' :: rest ∧ 3 ≤ rest.length :=
      ⟨"trict_opcodes".toList, rfl, by decide⟩
    have htext := toList_document s
    rw [hkey, List.cons_append] at htext
    apply read_of_yields htext (by decide) ?_ (yields_document h)
    rw [List.length_append]
    omega
  have hsettings : (Toml.read s.document >>= ofEntries) = some s := by
    rw [hread]
    exact ofEntries_entries s
  unfold ofDocument
  rw [hsettings]

/-- The limits that are set. -/
def limits (s : Settings) : List Nat :=
  s.stackLimit.toList ++ s.memoryLimit.toList ++ s.stepLimit.toList

theorem fits_eq_true_iff {limit : Option Nat} :
    fits limit = true ↔ ∀ n ∈ limit.toList, n < integerBound := by
  cases limit with
  | none => simp [fits]
  | some n => simp [fits]

theorem storable_iff {s : Settings} :
    s.storable = true ↔ ∀ n ∈ s.limits, n < integerBound := by
  simp only [storable, limits, Bool.and_eq_true, fits_eq_true_iff, List.mem_append, or_imp,
    forall_and]

/-! ### Files -/

section

variable [Disk] {fs fs' : FileSystem} {path : String} {s : Settings}

theorem load_of_holds (h : fs.Holds (Path.ofText path) s.document) (hstorable : s.storable = true) :
    load path fs = .ok s fs := by
  have hread : read path fs = .ok s := by
    unfold read
    rw [FileSystem.readText_eq_ok_iff.2 h]
    exact ofDocument_document hstorable
  unfold load
  rw [if_pos h.contains]
  simp only [hread]

/-- Settings that can be stored are saved by writing their document. -/
theorem save_of_storable (h : fs.Writable path) (hstorable : s.storable = true) :
    ∃ fs', save path s fs = .ok () fs' ∧
      FileAction.writeText path s.document fs = .ok () fs' := by
  obtain ⟨fs', hwrite⟩ := h s.document
  refine ⟨fs', ?_, hwrite⟩
  unfold save toDocument
  rw [if_pos hstorable]
  simp only [hwrite]

/-- Settings that cannot be stored are refused, and no file is touched. -/
theorem save_of_not_storable (h : s.storable = false) :
    save path s fs = .error .outOfRange fs := by
  unfold save toDocument
  rw [h]
  rfl

/-- Where any text can be written to a path, settings whose limits fit in the integers of a document
are saved, and loading finds the same settings and leaves the files alone. If a limit does not fit,
saving fails with a parse error, and the files stay as they were. -/
theorem save_then_load (h : fs.Writable path) (s : Settings) :
    ((∀ n ∈ s.limits, n < integerBound) →
      ∃ fs', save path s fs = .ok () fs' ∧ load path fs' = .ok s fs') ∧
    ((∃ n ∈ s.limits, integerBound ≤ n) →
      save path s fs = .error .outOfRange fs ∧
        SettingsError.outOfRange.message = "Parse error: " ++ SettingsError.outOfRange.reason) := by
  constructor
  · intro hlimits
    have hstorable := storable_iff.2 hlimits
    obtain ⟨fs', hsave, hwrite⟩ := save_of_storable h hstorable
    exact ⟨fs', hsave, load_of_holds (.of_writeText hwrite) hstorable⟩
  · rintro ⟨n, hn, hlarge⟩
    have hstorable : s.storable = false := by
      rw [Bool.eq_false_iff]
      intro hfits
      have hlt := storable_iff.1 hfits n hn
      omega
    exact ⟨save_of_not_storable hstorable, rfl⟩

end

/-- The largest limit that fits comes back from a file that was not there before. -/
theorem save_then_load_largest :
    FileSystem.Writable {} "config.toml" ∧
      ∃ fs', save "config.toml" { stackLimit := some 9223372036854775807 } {} = .ok () fs' ∧
        load "config.toml" fs' = .ok { stackLimit := some 9223372036854775807 } fs' := by
  obtain ⟨_, hfirst⟩ : ∃ fs', FileAction.writeText "config.toml" "" {} = .ok () fs' := ⟨_, rfl⟩
  have hwritable := FileSystem.writable_of_writeText (fun _ _ _ => rfl) hfirst
  have hlimits : ∀ n ∈ limits { stackLimit := some 9223372036854775807 }, n < integerBound := by
    decide
  exact ⟨hwritable, (save_then_load hwritable _).1 hlimits⟩

end Settings

end WordMachine
