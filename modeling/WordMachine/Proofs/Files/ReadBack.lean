import WordMachine.Proofs.Files.Write

/-! # A file read back

What is found at a path to which a text was written.

* **Reading.** A file is never put where a directory is, so the way to it is the same as before, and
  the path then leads to what was put there (`find_put`): a text that was written is found
  (`Holds.of_writeText`), and of a write that was cut short its first bytes (`CutShort.contentOf`).
* **Writing.** `FileSystem.Writable` says that any text can be written to a path, and
  `FileSystem.StaysWritable` that any texts can be, one after the other. On a disk that writes
  everything this is so wherever one text can be written (`staysWritable_of_writeText`). -/

namespace WordMachine

namespace FileSystem

variable {fs fs' : FileSystem} {place : Place}

/-! ### The way to a file -/

/-- Whoever walks past a place that is no directory does not see what is put there. -/
theorem walk_put (hplace : fs.get? place ≠ some .directory) (e : Entry) {dir last : Place}
    {names : List String} (h : fs.walk dir names = .ok last) :
    (fs.put place e).walk dir names = .ok last := by
  induction names generalizing dir with
  | nil => exact h
  | cons name names ih =>
    obtain ⟨next, henter, hrest⟩ := walk_cons_eq_ok_iff.1 h
    obtain ⟨hstep, hentry⟩ := enter_eq_ok_iff.1 henter
    have hne : next ≠ place := by
      rintro rfl
      exact hplace hentry
    have hkept : (fs.put place e).get? next = some .directory := by
      rw [get?_put_of_ne fs hne e, hentry]
    exact walk_cons_eq_ok_iff.2 ⟨next, enter_eq_ok_iff.2 ⟨hstep, hkept⟩, ih hrest⟩

/-- The place of a path stays the same when a file is put where no directory is. -/
theorem locate_put (hplace : fs.get? place ≠ some .directory) (e : Entry) {p : Path}
    {other : Place} (h : fs.locate p = .ok other) : (fs.put place e).locate p = .ok other := by
  obtain ⟨dir, hbase⟩ := base_of_locate h
  obtain ⟨hvalid, hwalk⟩ := base_eq_ok_iff.1 hbase
  have hkept : (fs.put place e).base p = .ok dir :=
    base_eq_ok_iff.2 ⟨hvalid, walk_put hplace e hwalk⟩
  rw [← h]
  unfold locate
  rw [hbase, hkept]

/-- A path leads to the file that is put at its place. -/
theorem find_put {p : Path} (hdirectory : p.directory = false) (hlocate : fs.locate p = .ok place)
    (hplace : fs.get? place ≠ some .directory) (content : ByteArray) :
    (fs.put place (.file content)).find p = .ok (.file content) := by
  have hroot : place ≠ [] := by
    rintro rfl
    exact hplace rfl
  unfold find
  rw [locate_put hplace _ hlocate]
  simp [bind, Except.bind, get?_put_self fs hroot, hdirectory]

theorem contentOf_of_find {p : Path} {content : ByteArray}
    (h : fs.find p = .ok (.file content)) : fs.contentOf p = some content := by
  unfold contentOf readBytes
  rw [h]
  rfl

/-- A write that was cut short has left the first bytes of the content. -/
theorem CutShort.contentOf [Disk] {p : Path} {content : ByteArray} {count : Nat} {cause : Failure}
    (h : fs.CutShort fs' p content count cause) :
    fs'.contentOf p = some (content.extract 0 count) := by
  obtain ⟨hdirectory, between, place, -, hlocate, hplace, -, rfl⟩ := h
  exact contentOf_of_find (find_put hdirectory hlocate hplace _)

/-- A path that lies in no directory leads to the root, if it leads anywhere. -/
theorem locate_of_no_parent {p : Path} (hparent : p.parentNames? = none)
    (h : fs.locate p = .ok place) : place = [] := by
  obtain ⟨dir, hbase⟩ := base_of_locate h
  obtain ⟨hvalid, hwalk⟩ := base_eq_ok_iff.1 hbase
  have hnormal : p.normalNames = [] := by
    unfold Path.parentNames? at hparent
    split at hparent
    · assumption
    · cases hparent
  -- A relative path would keep its first name; so the path starts from the root and stays there.
  have hstays : p.absolute = true ∧ p.names.filter (· ≠ Path.here) = [] := by
    unfold Path.normalNames at hnormal
    split at hnormal
    · cases hnormal
    · rename_i hfirst
      refine ⟨?_, hnormal⟩
      cases habs : p.absolute with
      | true => rfl
      | false =>
        have hnames : p.names ≠ [] := by
          intro hnil
          have hempty := hvalid.not_empty
          rw [hnil, habs] at hempty
          cases hempty
        obtain ⟨name, rest, hcons⟩ := List.exists_cons_of_ne_nil hnames
        have hname : name ≠ Path.here := by
          rintro rfl
          exact hfirst rest habs hcons
        rw [hcons, List.filter_cons_of_pos (by simpa using hname)] at hnormal
        cases hnormal
  obtain ⟨habs, hall⟩ := hstays
  have hdir : dir = [] := by
    have hfew := walk_filter hwalk
    have hnone : p.names.dropLast.filter (· ≠ Path.here) = [] :=
      List.sublist_nil.1 (hall ▸ (List.dropLast_sublist p.names).filter _)
    rw [hnone, origin, habs] at hfew
    cases hfew
    rfl
  unfold locate at h
  rw [hbase, hdir] at h
  cases hlast : p.names.getLast? with
  | none =>
    rw [hlast] at h
    cases h
    rfl
  | some name =>
    have hname : name = Path.here := by
      have hmem := List.filter_eq_nil_iff.1 hall name (List.mem_of_getLast? hlast)
      simpa using hmem
    rw [hlast, hname] at h
    cases h
    rfl

/-- A path at which there is a file lies in a directory. -/
theorem parentNames?_ne_none {p : Path} {content : ByteArray}
    (h : fs.contentOf p = some content) : p.parentNames? ≠ none := by
  intro hparent
  obtain ⟨-, place, hlocate, hentry⟩ := contentOf_eq_some_iff.1 h
  rw [locate_of_no_parent hparent hlocate] at hentry
  cases hentry

end FileSystem

open FileSystem

namespace FileAction

variable [Disk] {fs fs' : FileSystem}

/-- What a text that could not be written leaves behind: the same files everywhere, or the beginning
of the text at the path. -/
theorem left_of_writeText_error {path text : String} {fs fs' : FileSystem} {failure : Failure}
    (h : writeText path text fs = .error failure fs') :
    (fs.SameFiles fs' ∧ ∀ content, fs.contentOf (Path.ofText path) = some content →
        fs'.contentOf (Path.ofText path) = some content) ∨
      ∃ count, fs.CutShort fs' (Path.ofText path) text.toUTF8 count failure ∧
        fs'.contentOf (Path.ofText path) = some (text.toUTF8.extract 0 count) := by
  obtain hgrows | ⟨count, hcut⟩ := grows_or_cutShort h
  · exact .inl ⟨hgrows.sameFiles, fun content => hgrows.contentOf⟩
  · exact .inr ⟨count, hcut, hcut.contentOf⟩

/-- A file is put where there is no directory, by a path that asks for none, if the disk writes all
of it. -/
theorem putFile_eq_ok_iff {p : Path} {content : ByteArray} :
    putFile p content fs = .ok () fs' ↔
      p.directory = false ∧ ∃ place, fs.locate p = .ok place ∧
        fs.get? place ≠ some .directory ∧ Disk.write fs place content = .whole ∧
        fs' = fs.put place (.file content) := by
  unfold putFile
  cases hbase : fs.base p with
  | error e =>
    have hnowhere : ∀ place, fs.locate p ≠ .ok place := by
      intro place hlocate
      obtain ⟨dir, hdir⟩ := base_of_locate hlocate
      cases hbase.symm.trans hdir
    simp [hnowhere]
  | ok dir =>
    cases hdirectory : p.directory with
    | true => simp
    | false =>
      cases hlocate : fs.locate p with
      | error e => simp
      | ok place =>
        cases hentry : fs.get? place with
        | none => cases hwrite : Disk.write fs place content <;> simp [hentry, hwrite, eq_comm]
        | some e =>
          cases e with
          | directory => simp [hentry]
          | file old =>
            cases hwrite : Disk.write fs place content <;> simp [hentry, hwrite, eq_comm]

/-- A file that exists is opened, and left with what the disk has written when it cut the write
short. -/
theorem putFile_of_cutShort {p : Path} {old content : ByteArray} {count : Nat} {cause : Failure}
    (hcut : ∀ fs place, Disk.write fs place content = .cutShort count cause)
    (h : fs.contentOf p = some old) :
    ∃ left, putFile p content fs = .error cause left ∧ fs.CutShort left p content count cause := by
  obtain ⟨hdirectory, place, hlocate, hentry⟩ := contentOf_eq_some_iff.1 h
  obtain ⟨dir, hbase⟩ := base_of_locate hlocate
  have hplace : fs.get? place ≠ some .directory := by simp [hentry]
  refine ⟨fs.put place (.file (content.extract 0 count)), ?_,
    hdirectory, fs, place, .refl fs, hlocate, hplace, hcut fs place, rfl⟩
  unfold putFile
  simp [hbase, hdirectory, hlocate, hentry, hcut]

/-- A file that exists lies in directories that exist, so nothing is in the way of writing it. -/
theorem createDirectories_of_contentOf {path : String} {old : ByteArray}
    (h : fs.contentOf (Path.ofText path) = some old) :
    ∃ names between, (Path.ofText path).parentNames? = some names ∧
      createDirectories (Path.ofText path).absolute names.reverse fs = .ok () between ∧
      fs.Grows between ∧ between.contentOf (Path.ofText path) = some old := by
  obtain ⟨names, hparent⟩ := Option.ne_none_iff_exists'.1 (parentNames?_ne_none h)
  have hgrows := grows_createDirectories (Path.ofText path).absolute names.reverse fs
  cases hcreate : createDirectories (Path.ofText path).absolute names.reverse fs with
  | ok _ between =>
    rw [hcreate] at hgrows
    exact ⟨names, between, hparent, hcreate, hgrows, hgrows.contentOf h⟩
  | error e left =>
    rw [hcreate] at hgrows
    have hnone := contentOf_of_createDirectories_error hparent hcreate
    cases (hgrows.contentOf h).symm.trans hnone

/-- A text is written once the directories that its path lies in exist. -/
theorem writeText_eq_ok_iff {path text : String} :
    writeText path text fs = .ok () fs' ↔
      ∃ names between, (Path.ofText path).parentNames? = some names ∧
        createDirectories (Path.ofText path).absolute names.reverse fs = .ok () between ∧
        putFile (Path.ofText path) text.toUTF8 between = .ok () fs' := by
  unfold writeText
  cases hparent : (Path.ofText path).parentNames? with
  | none =>
    simp only [reduceCtorEq, false_and, exists_false, iff_false]
    intro h
    cases h
  | some names =>
    change EStateM.bind _ _ fs = _ ↔ _
    unfold EStateM.bind
    cases hcreate : createDirectories (Path.ofText path).absolute names.reverse fs with
    | ok a between => simp [hcreate]
    | error e between => simp [hcreate]

/-- A disk that cuts the write of a text short loses the file that was there. -/
theorem writeText_of_cutShort {path text : String} {old : ByteArray} {count : Nat} {cause : Failure}
    (hcut : ∀ fs place, Disk.write fs place text.toUTF8 = .cutShort count cause)
    (h : fs.contentOf (Path.ofText path) = some old) :
    ∃ left, writeText path text fs = .error cause left ∧
      fs.CutShort left (Path.ofText path) text.toUTF8 count cause := by
  obtain ⟨names, between, hparent, hcreate, hgrows, hold⟩ := createDirectories_of_contentOf h
  obtain ⟨left, hput, hdirectory, between', place, hbetween, hleft⟩ := putFile_of_cutShort hcut hold
  refine ⟨left, ?_, hdirectory, between', place, hgrows.trans hbetween, hleft⟩
  unfold writeText
  simp only [hparent]
  change EStateM.bind _ _ fs = _
  unfold EStateM.bind
  rw [hcreate]
  exact hput

end FileAction

/-- The disk writes whatever it is given. -/
def Disk.WritesAll [Disk] : Prop := ∀ fs place content, Disk.write fs place content = .whole

namespace FileSystem

variable {fs fs' : FileSystem} {path text : String}

/-! ### Reading -/

theorem Holds.contentOf_eq {p : Path} (h : fs.Holds p text) :
    fs.contentOf p = some text.toUTF8 :=
  contentOf_of_find h

theorem Holds.contains {p : Path} (h : fs.Holds p text) : fs.contains p = true := by
  unfold FileSystem.contains
  rw [h]
  rfl

variable [Disk]

/-- A path leads to the file that was put there. -/
theorem Holds.of_putFile {p : Path}
    (h : FileAction.putFile p text.toUTF8 fs = .ok () fs') : fs'.Holds p text := by
  obtain ⟨hdirectory, place, hlocate, hplace, -, rfl⟩ := FileAction.putFile_eq_ok_iff.1 h
  exact find_put hdirectory hlocate hplace text.toUTF8

/-- A text that was written to a path is found there. -/
theorem Holds.of_writeText (h : FileAction.writeText path text fs = .ok () fs') :
    fs'.Holds (Path.ofText path) text := by
  obtain ⟨names, between, -, -, hput⟩ := FileAction.writeText_eq_ok_iff.1 h
  exact .of_putFile hput

/-! ### Writing -/

/-- Any text can be written to a path. -/
def Writable (fs : FileSystem) (path : String) : Prop :=
  ∀ text, ∃ fs', FileAction.writeText path text fs = .ok () fs'

/-- These texts can be written to a path, one after the other. -/
def Takes (path : String) : List String → FileSystem → Prop
  | [], _ => True
  | text :: texts, fs =>
    ∃ fs', FileAction.writeText path text fs = .ok () fs' ∧ Takes path texts fs'

/-- Any texts can be written to a path, one after the other. -/
def StaysWritable (fs : FileSystem) (path : String) : Prop := ∀ texts, Takes path texts fs

theorem StaysWritable.writable (h : fs.StaysWritable path) : fs.Writable path := by
  intro text
  obtain ⟨fs', hwrite, -⟩ := h [text]
  exact ⟨fs', hwrite⟩

/-- A path that stays writable stays so after a write. -/
theorem StaysWritable.of_writeText (h : fs.StaysWritable path)
    (hwrite : FileAction.writeText path text fs = .ok () fs') : fs'.StaysWritable path := by
  intro texts
  obtain ⟨fs'', hfirst, hrest⟩ := h (text :: texts)
  cases hwrite.symm.trans hfirst
  exact hrest

/-! ### A disk that writes everything -/

/-- A path is writable whose directories can be made and that then leads to where a file can be. -/
theorem writable_of_createDirectories (hdisk : Disk.WritesAll) {names : List String}
    {between : FileSystem} {place : Place} (hparent : (Path.ofText path).parentNames? = some names)
    (hcreate : FileAction.createDirectories (Path.ofText path).absolute names.reverse fs =
      .ok () between)
    (hdirectory : (Path.ofText path).directory = false)
    (hlocate : between.locate (Path.ofText path) = .ok place)
    (hplace : between.get? place ≠ some .directory) : fs.Writable path := by
  intro text
  have hput := FileAction.putFile_eq_ok_iff.2
    ⟨hdirectory, place, hlocate, hplace, hdisk between place text.toUTF8, rfl⟩
  exact ⟨_, FileAction.writeText_eq_ok_iff.2 ⟨names, between, hparent, hcreate, hput⟩⟩

/-- Where one text can be written, every text can be. -/
theorem writable_of_writeText (hdisk : Disk.WritesAll)
    (h : FileAction.writeText path text fs = .ok () fs') : fs.Writable path := by
  obtain ⟨names, between, hparent, hcreate, hput⟩ := FileAction.writeText_eq_ok_iff.1 h
  obtain ⟨hdirectory, place, hlocate, hplace, -⟩ := FileAction.putFile_eq_ok_iff.1 hput
  exact writable_of_createDirectories hdisk hparent hcreate hdirectory hlocate hplace

/-- A file can be written again. -/
theorem Holds.writable (hdisk : Disk.WritesAll) (h : fs.Holds (Path.ofText path) text) :
    fs.Writable path := by
  obtain ⟨names, between, hparent, hcreate, -, hold⟩ :=
    FileAction.createDirectories_of_contentOf h.contentOf_eq
  obtain ⟨hdirectory, place, hlocate, hentry⟩ := contentOf_eq_some_iff.1 hold
  have hplace : between.get? place ≠ some .directory := by simp [hentry]
  exact writable_of_createDirectories hdisk hparent hcreate hdirectory hlocate hplace

end FileSystem

end WordMachine
