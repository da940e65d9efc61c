import WordMachine.Proofs.Files.ReadBack
import WordMachine.Settings.Update

/-! # Changes that fail

What is left behind when a setting cannot be changed.

* **Refused input.** An unknown name or a text that is no value is refused before anything is done:
  the settings and all files stay as they are.
* **Failure to save.** A limit may be too large for the document, and the document may not be
  written. By then the setting has its new value in memory, and it keeps it; the others stay.
* **The file.** A limit that is too large leaves the files alone. Where the document is not written,
  all files are as they were, unless the disk has cut the write short: then the file was emptied
  first, and holds no more than the beginning of the new document. -/

namespace WordMachine

/-- The name, or a text for the value of that name, is refused. -/
def SettingsError.Refuses (key : String) : SettingsError → Prop
  | .unknownKey name => name = key
  | .invalidValue name _ => name = key
  | _ => False

namespace Settings

/-- All settings but the one of that name are the same. -/
structure AgreeExcept (key : String) (s s' : Settings) : Prop where
  strictOpcodes : key ≠ strictKey → s'.strictOpcodes = s.strictOpcodes
  stackLimit : key ≠ stackKey → s'.stackLimit = s.stackLimit
  memoryLimit : key ≠ memoryKey → s'.memoryLimit = s.memoryLimit
  stepLimit : key ≠ stepKey → s'.stepLimit = s.stepLimit

theorem AgreeExcept.refl (key : String) (s : Settings) : AgreeExcept key s s :=
  ⟨fun _ => rfl, fun _ => rfl, fun _ => rfl, fun _ => rfl⟩

theorem limitOfText_error {key value : String} {e : SettingsError}
    (h : limitOfText key value = .error e) : ∃ reason, e = .invalidValue key reason := by
  unfold limitOfText at h
  split at h
  · cases h
  · split at h
    · cases h
    · cases h
      exact ⟨_, rfl⟩

theorem switchOfText_error {key value : String} {e : SettingsError}
    (h : switchOfText key value = .error e) : ∃ reason, e = .invalidValue key reason := by
  unfold switchOfText at h
  split at h
  · cases h
  · split at h
    · cases h
    · cases h
      exact ⟨_, rfl⟩

/-- A setting gets the value that is read for it, or reading the value fails. -/
theorem assigned_cases {α : Type} {key : String} {s : Settings} {value : Except SettingsError α}
    {f : α → Settings} (hvalue : ∀ e, value = .error e → ∃ reason, e = .invalidValue key reason)
    (hagree : ∀ a, AgreeExcept key s (f a)) :
    (∃ s', (do return f (← value)) = Except.ok s' ∧ AgreeExcept key s s') ∨
      ∃ e, (do return f (← value)) = Except.error e ∧ e.Refuses key := by
  cases value with
  | error e =>
    obtain ⟨reason, rfl⟩ := hvalue e rfl
    exact .inr ⟨.invalidValue key reason, rfl, rfl⟩
  | ok a => exact .inl ⟨f a, rfl, hagree a⟩

/-- Either one setting gets a value, or the error is about its name or that value. -/
theorem assign_cases (s : Settings) (key value : String) :
    (∃ s', s.assign key value = .ok s' ∧ AgreeExcept key s s') ∨
      ∃ e, s.assign key value = .error e ∧ e.Refuses key := by
  unfold assign
  split
  · rename_i hkey
    refine assigned_cases (fun e => switchOfText_error) fun b => ?_
    exact ⟨fun h => absurd hkey h, fun _ => rfl, fun _ => rfl, fun _ => rfl⟩
  split
  · rename_i hkey
    refine assigned_cases (fun e => limitOfText_error) fun limit => ?_
    exact ⟨fun _ => rfl, fun h => absurd hkey h, fun _ => rfl, fun _ => rfl⟩
  split
  · rename_i hkey
    refine assigned_cases (fun e => limitOfText_error) fun limit => ?_
    exact ⟨fun _ => rfl, fun _ => rfl, fun h => absurd hkey h, fun _ => rfl⟩
  split
  · rename_i hkey
    refine assigned_cases (fun e => limitOfText_error) fun limit => ?_
    exact ⟨fun _ => rfl, fun _ => rfl, fun _ => rfl, fun h => absurd hkey h⟩
  · exact .inr ⟨.unknownKey key, rfl, rfl⟩

theorem refuses_of_assign_error {s : Settings} {key value : String} {e : SettingsError}
    (h : s.assign key value = .error e) : e.Refuses key := by
  obtain ⟨s', hok, -⟩ | ⟨e', herror, hrefused⟩ := assign_cases s key value
  · cases h.symm.trans hok
  · cases h.symm.trans herror
    exact hrefused

theorem agreeExcept_of_assign {s s' : Settings} {key value : String}
    (h : s.assign key value = .ok s') : AgreeExcept key s s' := by
  obtain ⟨s'', hok, hagree⟩ | ⟨e, herror, -⟩ := assign_cases s key value
  · cases h.symm.trans hok
    exact hagree
  · cases h.symm.trans herror

section

variable [Disk]

/-- Settings cannot be saved because of a limit, in which case no file is touched, or because the
document cannot be written. -/
theorem save_error_cases {path : String} {s : Settings} {fs fs' : FileSystem} {e : SettingsError}
    (h : save path s fs = .error e fs') :
    e = .outOfRange ∧ s.storable = false ∧ fs' = fs ∨
      s.storable = true ∧ ∃ failure, e = .unwritable failure ∧
        FileAction.writeText path s.document fs = .error failure fs' := by
  unfold save toDocument at h
  cases hstorable : s.storable with
  | false =>
    rw [hstorable] at h
    cases h
    exact .inl ⟨rfl, rfl, rfl⟩
  | true =>
    rw [hstorable] at h
    cases hwrite : FileAction.writeText path s.document fs with
    | ok a fs'' => simp [hwrite] at h
    | error failure fs'' =>
      simp only [if_true, hwrite] at h
      cases h
      exact .inr ⟨rfl, failure, rfl, rfl⟩

/-- A change fails because the input is refused, or because the changed settings cannot be saved. -/
theorem update_error_cases {path key value : String} {s s' : Settings} {fs fs' : FileSystem}
    {e : SettingsError} (h : update path key value (s, fs) = .error e (s', fs')) :
    s.assign key value = .error e ∧ s' = s ∧ fs' = fs ∨
      s.assign key value = .ok s' ∧ save path s' fs = .error e fs' := by
  unfold update at h
  cases hassign : s.assign key value with
  | error e' =>
    simp only [hassign] at h
    cases h
    exact .inl ⟨rfl, rfl, rfl⟩
  | ok s'' =>
    simp only [hassign] at h
    cases hsave : save path s'' fs with
    | ok a fs'' => simp [hsave] at h
    | error e' fs'' =>
      simp only [hsave] at h
      cases h
      exact .inr ⟨rfl, hsave⟩

/-- A change that fails leaves the other settings alone. If the input is refused, nothing has
changed at all. Otherwise the setting has its new value, which does not fit into the document or
belongs to a document that is not written. So the settings are the same again just if the input was
refused or the value is the one that the setting had. A value that does not fit leaves the files
alone. A document that is not written leaves the same files behind; but if the disk has cut the write
short, the file holds the beginning of the document and nothing else. -/
theorem update_failure {path key value : String} {s s' : Settings} {fs fs' : FileSystem}
    {e : SettingsError} (h : update path key value (s, fs) = .error e (s', fs')) :
    AgreeExcept key s s' ∧
      (s' = s ↔ s.assign key value = .error e ∨ s.assign key value = .ok s) ∧
      (s.assign key value = .error e ∧ e.Refuses key ∧ s' = s ∧ fs' = fs ∨
        s.assign key value = .ok s' ∧
          (e = .outOfRange ∧ s'.storable = false ∧ fs' = fs ∨
            s'.storable = true ∧ ∃ failure, e = .unwritable failure ∧
              FileAction.writeText path s'.document fs = .error failure fs' ∧
              ((fs.SameFiles fs' ∧ ∀ content, fs.contentOf (Path.ofText path) = some content →
                  fs'.contentOf (Path.ofText path) = some content) ∨
                ∃ count,
                  fs.CutShort fs' (Path.ofText path) s'.document.toUTF8 count failure ∧
                  fs'.contentOf (Path.ofText path) =
                    some (s'.document.toUTF8.extract 0 count)))) := by
  obtain ⟨hassign, rfl, rfl⟩ | ⟨hassign, hsave⟩ := update_error_cases h
  · have hrefused := refuses_of_assign_error hassign
    exact ⟨.refl key s', iff_of_true rfl (.inl hassign), .inl ⟨hassign, hrefused, rfl, rfl⟩⟩
  · have hagree := agreeExcept_of_assign hassign
    have hsame : s' = s ↔ s.assign key value = .error e ∨ s.assign key value = .ok s := by
      rw [hassign]
      simp
    refine ⟨hagree, hsame, .inr ⟨hassign, ?_⟩⟩
    obtain hlarge | ⟨hstorable, failure, he, hwrite⟩ := save_error_cases hsave
    · exact .inl hlarge
    · exact .inr ⟨hstorable, failure, he, hwrite, FileAction.left_of_writeText_error hwrite⟩

/-- A disk that is full loses the settings in the file: opening it has emptied it. -/
theorem update_of_cutShort {path key value : String} {s s' : Settings} {fs : FileSystem}
    {old : ByteArray} {count : Nat} {cause : Failure}
    (hcut : ∀ fs place, Disk.write fs place s'.document.toUTF8 = .cutShort count cause)
    (hold : fs.contentOf (Path.ofText path) = some old) (hassign : s.assign key value = .ok s')
    (hstorable : s'.storable = true) :
    ∃ fs', update path key value (s, fs) = .error (.unwritable cause) (s', fs') ∧
      fs'.contentOf (Path.ofText path) = some (s'.document.toUTF8.extract 0 count) := by
  obtain ⟨fs', hwrite, hleft⟩ := FileAction.writeText_of_cutShort hcut hold
  refine ⟨fs', ?_, hleft.contentOf⟩
  unfold update save toDocument
  simp only [hassign, hstorable, if_true, hwrite]

end

/-- The smallest limit that does not fit into the document is refused, and yet held in memory. -/
theorem update_too_large :
    update "config.toml" stackKey "9223372036854775808" ({}, {}) =
        .error .outOfRange ({ stackLimit := some 9223372036854775808 }, {}) ∧
      ({ stackLimit := some 9223372036854775808 } : Settings) ≠ {} :=
  ⟨rfl, by decide⟩

/-- Only the limit of the stack is another one then. -/
theorem update_failure_too_large :
    update "config.toml" stackKey "9223372036854775808" ({}, {}) =
        .error .outOfRange ({ stackLimit := some 9223372036854775808 }, {}) ∧
      AgreeExcept stackKey {} { stackLimit := some 9223372036854775808 } := by
  have h : update "config.toml" stackKey "9223372036854775808" ({}, {}) =
      .error .outOfRange ({ stackLimit := some 9223372036854775808 }, {}) := rfl
  exact ⟨h, (update_failure h).1⟩

end Settings

end WordMachine
