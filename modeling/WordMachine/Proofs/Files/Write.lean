import WordMachine.Proofs.Files.Lookup

/-! # Writing a file

What happens to files when one is written, above all when that fails.

* **Growth.** On the way to a file, directories are created where there was nothing, and what exists
  stays (`FileSystem.Grows`). So the files are the same ones, and a path that led to a file still
  leads to it.
* **Failure.** A write that fails leaves every file as it was, unless the disk has begun it and cut
  it short. Then the file holds the first bytes of the new content, and what it held before is lost
  (`grows_or_cutShort`). -/

namespace WordMachine

namespace FileSystem

/-- The same files lie at the same places, with the same content. -/
def SameFiles (fs fs' : FileSystem) : Prop :=
  ∀ place content, fs'.get? place = some (.file content) ↔ fs.get? place = some (.file content)

/-- Everything that lies somewhere in the first file system lies there in the second one, too, and
what is new there is a directory. -/
structure Grows (fs fs' : FileSystem) : Prop where
  workingDirectory_eq : fs'.workingDirectory = fs.workingDirectory
  get?_of_some : ∀ place e, fs.get? place = some e → fs'.get? place = some e
  old_or_directory : ∀ place e, fs'.get? place = some e → fs.get? place = some e ∨ e = .directory

namespace Grows

variable {fs fs' fs'' : FileSystem}

theorem refl (fs : FileSystem) : fs.Grows fs := ⟨rfl, fun _ _ h => h, fun _ _ h => .inl h⟩

theorem trans (h : fs.Grows fs') (h' : fs'.Grows fs'') : fs.Grows fs'' where
  workingDirectory_eq := h'.workingDirectory_eq.trans h.workingDirectory_eq
  get?_of_some := fun place e he => h'.get?_of_some place e (h.get?_of_some place e he)
  old_or_directory := by
    intro place e he
    rcases h'.old_or_directory place e he with hold | hnew
    · exact h.old_or_directory place e hold
    · exact .inr hnew

/-- A directory is put where there was nothing. -/
theorem put {place : Place} (hnone : fs.get? place = none) :
    fs.Grows (fs.put place .directory) where
  workingDirectory_eq := rfl
  get?_of_some := by
    intro other e hsome
    have hne : other ≠ place := by
      rintro rfl
      cases hnone.symm.trans hsome
    rw [get?_put_of_ne fs hne, hsome]
  old_or_directory := by
    intro other e hsome
    by_cases hother : other = place
    · subst hother
      have hroot : other ≠ [] := by
        rintro rfl
        cases hnone
      rw [get?_put_self fs hroot] at hsome
      cases hsome
      exact .inr rfl
    · rw [get?_put_of_ne fs hother] at hsome
      exact .inl hsome

/-- What is new is no file. -/
theorem sameFiles (h : fs.Grows fs') : fs.SameFiles fs' := by
  intro place content
  constructor
  · intro hfile
    rcases h.old_or_directory place _ hfile with hold | hdirectory
    · exact hold
    · cases hdirectory
  · exact h.get?_of_some place _

theorem enter (h : fs.Grows fs') {dir next : Place} {name : String}
    (henter : fs.enter dir name = .ok next) : fs'.enter dir name = .ok next := by
  obtain ⟨hstep, hentry⟩ := enter_eq_ok_iff.1 henter
  exact enter_eq_ok_iff.2 ⟨hstep, h.get?_of_some next _ hentry⟩

theorem walk (h : fs.Grows fs') {dir last : Place} {names : List String}
    (hwalk : fs.walk dir names = .ok last) : fs'.walk dir names = .ok last := by
  induction names generalizing dir with
  | nil => exact hwalk
  | cons name names ih =>
    obtain ⟨next, henter, hrest⟩ := walk_cons_eq_ok_iff.1 hwalk
    exact walk_cons_eq_ok_iff.2 ⟨next, h.enter henter, ih hrest⟩

theorem base (h : fs.Grows fs') {p : Path} {dir : Place} (hbase : fs.base p = .ok dir) :
    fs'.base p = .ok dir := by
  obtain ⟨hvalid, hwalk⟩ := base_eq_ok_iff.1 hbase
  have horigin : fs'.origin p = fs.origin p := by rw [origin, origin, h.workingDirectory_eq]
  refine base_eq_ok_iff.2 ⟨hvalid, ?_⟩
  rw [horigin]
  exact h.walk hwalk

theorem locate (h : fs.Grows fs') {p : Path} {place : Place}
    (hlocate : fs.locate p = .ok place) : fs'.locate p = .ok place := by
  obtain ⟨dir, hbase⟩ := base_of_locate hlocate
  rw [← hlocate]
  unfold FileSystem.locate
  rw [hbase, h.base hbase]

/-- A path that leads to a file still leads to it. -/
theorem contentOf (h : fs.Grows fs') {p : Path} {content : ByteArray}
    (hcontent : fs.contentOf p = some content) : fs'.contentOf p = some content := by
  obtain ⟨hdir, place, hlocate, hentry⟩ := contentOf_eq_some_iff.1 hcontent
  exact contentOf_eq_some_iff.2 ⟨hdir, place, h.locate hlocate, h.get?_of_some place _ hentry⟩

end Grows

end FileSystem

/-- What the disk leaves behind where it cuts a write to a path short: directories on the way may be
new, and the file holds the first `count` bytes of the content. -/
def FileSystem.CutShort [Disk] (fs fs' : FileSystem) (p : Path) (content : ByteArray) (count : Nat)
    (cause : Failure) : Prop :=
  p.directory = false ∧ ∃ between place, fs.Grows between ∧ between.locate p = .ok place ∧
    between.get? place ≠ some .directory ∧
    Disk.write between place content = .cutShort count cause ∧
    fs' = between.put place (.file (content.extract 0 count))

namespace FileAction

open FileSystem

/-- The file system that the outcome of an action leaves behind. -/
def systemOf {α : Type} : EStateM.Result Failure FileSystem α → FileSystem
  | .ok _ fs => fs
  | .error _ fs => fs

/-- The second of two actions is run where the first one succeeds. -/
theorem seqRight_apply {α β : Type} (first : FileAction α) (second : FileAction β)
    (fs : FileSystem) :
    (first *> second) fs =
      match first fs with
      | .ok _ fs => second fs
      | .error e fs => .error e fs := by
  change EStateM.seqRight first (fun _ => second) fs = _
  unfold EStateM.seqRight
  cases first fs <;> rfl

variable [Disk]

/-- Directories are created from the last one backwards, until one has something to lie in. -/
theorem createDirectories_cons (absolute : Bool) (name : String) (names : List String)
    (fs : FileSystem) :
    createDirectories absolute (name :: names) fs =
      let p := Path.ofNames absolute (name :: names).reverse
      match createDirectory p fs with
      | .error .notFound fs =>
        match createDirectories absolute names fs with
        | .ok _ fs => ensureDirectory p fs
        | .error e fs => .error e fs
      | _ => ensureDirectory p fs := by
  rw [createDirectories]
  cases h : createDirectory (Path.ofNames absolute (name :: names).reverse) fs with
  | ok a fs' => simp only [h]
  | error e fs' =>
    cases e with
    | notFound =>
      simp only [h, seqRight_apply]
      cases createDirectories absolute names fs' <;> rfl
    | _ => simp only [h]

theorem createDirectory_error {p : Path} {fs fs' : FileSystem} {e : Failure}
    (h : createDirectory p fs = .error e fs') : fs' = fs := by
  unfold createDirectory at h
  repeat' split at h
  all_goals cases h <;> rfl

theorem grows_createDirectory (p : Path) (fs : FileSystem) :
    fs.Grows (systemOf (createDirectory p fs)) := by
  unfold createDirectory
  cases fs.locate p with
  | error e => exact .refl fs
  | ok place =>
    cases hentry : fs.get? place with
    | some e => simpa [hentry, systemOf] using Grows.refl fs
    | none =>
      cases hrefused : Disk.refusal? fs place with
      | some cause => simpa [hentry, hrefused, systemOf] using Grows.refl fs
      | none => simpa [hentry, hrefused, systemOf] using Grows.put hentry

theorem grows_ensureDirectory (p : Path) (fs : FileSystem) :
    fs.Grows (systemOf (ensureDirectory p fs)) := by
  have hcreate := grows_createDirectory p fs
  unfold ensureDirectory
  cases h : createDirectory p fs with
  | ok a fs' =>
    rw [h] at hcreate
    exact hcreate
  | error e fs' =>
    rw [h] at hcreate
    dsimp only
    split <;> exact hcreate

/-- Nothing is lost while directories are created. -/
theorem grows_createDirectories (absolute : Bool) (names : List String) (fs : FileSystem) :
    fs.Grows (systemOf (createDirectories absolute names fs)) := by
  induction names generalizing fs with
  | nil => exact .refl fs
  | cons name names ih =>
    rw [createDirectories_cons]
    dsimp only
    split
    · rename_i fs' h
      obtain rfl := createDirectory_error h
      have habove := ih fs'
      split
      · rename_i h
        rw [h] at habove
        exact habove.trans (grows_ensureDirectory _ _)
      · rename_i h
        rw [h] at habove
        exact habove
    · exact grows_ensureDirectory _ _

theorem ensureDirectory_error {p : Path} {fs fs' : FileSystem} {e : Failure}
    (h : ensureDirectory p fs = .error e fs') : fs'.isDirectory p = false := by
  unfold ensureDirectory at h
  split at h
  · cases h
  · split at h
    · cases h
    · rename_i hdir
      cases h
      simpa using hdir

/-- Directories cannot be created because one of them cannot. -/
theorem exists_of_createDirectories_error {absolute : Bool} {names : List String}
    {fs fs' : FileSystem} {e : Failure} (h : createDirectories absolute names fs = .error e fs') :
    ∃ few, few <+: names.reverse ∧ few ≠ [] ∧
      fs'.isDirectory (Path.ofNames absolute few) = false := by
  induction names generalizing fs with
  | nil => cases h
  | cons name names ih =>
    have hself : ∀ {fs : FileSystem},
        ensureDirectory (Path.ofNames absolute (name :: names).reverse) fs = .error e fs' →
        ∃ few, few <+: (name :: names).reverse ∧ few ≠ [] ∧
          fs'.isDirectory (Path.ofNames absolute few) = false :=
      fun h => ⟨_, List.prefix_rfl, by simp, ensureDirectory_error h⟩
    rw [createDirectories_cons] at h
    dsimp only at h
    split at h
    · split at h
      · exact hself h
      · rename_i habove
        cases h
        obtain ⟨few, hfew, hne, hdir⟩ := ih habove
        refine ⟨few, ?_, hne, hdir⟩
        rw [List.reverse_cons]
        exact hfew.trans (List.prefix_append _ _)
    · exact hself h

/-- A file cannot be put because it cannot be opened, or because the disk cuts the write short. -/
theorem putFile_error {p : Path} {content : ByteArray} {fs fs' : FileSystem} {e : Failure}
    (h : putFile p content fs = .error e fs') :
    fs' = fs ∨ ∃ count, fs.CutShort fs' p content count e := by
  unfold putFile at h
  split at h
  · cases h
    exact .inl rfl
  split at h
  · cases h
    exact .inl rfl
  rename_i hdirectory
  split at h
  · cases h
    exact .inl rfl
  rename_i place hlocate
  split at h
  · cases h
    exact .inl rfl
  rename_i hplace
  split at h
  · cases h
  · cases h
    exact .inl rfl
  · rename_i count cause hwrite
    cases h
    exact .inr ⟨count, by simpa using hdirectory, fs, place, .refl fs, hlocate, hplace, hwrite, rfl⟩

/-- A text cannot be written because its path lies in no directory, because a directory cannot be
created, or because the file cannot be put. -/
theorem writeText_error_cases {path text : String} {fs fs' : FileSystem} {e : Failure}
    (h : writeText path text fs = .error e fs') :
    (Path.ofText path).parentNames? = none ∧ fs' = fs ∨
      ∃ names, (Path.ofText path).parentNames? = some names ∧
        (createDirectories (Path.ofText path).absolute names.reverse fs = .error e fs' ∨
          ∃ between, createDirectories (Path.ofText path).absolute names.reverse fs =
              .ok () between ∧
            putFile (Path.ofText path) text.toUTF8 between = .error e fs') := by
  unfold writeText at h
  cases hparent : (Path.ofText path).parentNames? with
  | none =>
    simp only [hparent] at h
    cases h
    exact .inl ⟨rfl, rfl⟩
  | some names =>
    simp only [hparent] at h
    change EStateM.bind _ _ fs = _ at h
    unfold EStateM.bind at h
    refine .inr ⟨names, rfl, ?_⟩
    cases hcreate : createDirectories (Path.ofText path).absolute names.reverse fs with
    | ok a between =>
      simp only [hcreate] at h
      exact .inr ⟨between, rfl, h⟩
    | error e' between =>
      simp only [hcreate] at h
      exact .inl h

/-- A write that fails leaves every file as it was, unless the disk has cut it short. -/
theorem grows_or_cutShort {path text : String} {fs fs' : FileSystem} {e : Failure}
    (h : writeText path text fs = .error e fs') :
    fs.Grows fs' ∨ ∃ count, fs.CutShort fs' (Path.ofText path) text.toUTF8 count e := by
  obtain ⟨-, rfl⟩ | ⟨names, -, hcase⟩ := writeText_error_cases h
  · exact .inl (.refl fs')
  · have hgrows := grows_createDirectories (Path.ofText path).absolute names.reverse fs
    obtain hcreate | ⟨between, hcreate, hput⟩ := hcase
    · rw [hcreate] at hgrows
      exact .inl hgrows
    · rw [hcreate] at hgrows
      obtain rfl | ⟨count, hdirectory, between', place, hbetween, hcut⟩ := putFile_error hput
      · exact .inl hgrows
      · exact .inr ⟨count, hdirectory, between', place, hgrows.trans hbetween, hcut⟩

/-- Where the directories that a path lies in cannot be created, there is nothing at the path. -/
theorem contentOf_of_createDirectories_error {path : String} {names : List String}
    {fs fs' : FileSystem} {e : Failure} (hparent : (Path.ofText path).parentNames? = some names)
    (h : createDirectories (Path.ofText path).absolute names.reverse fs = .error e fs') :
    fs'.contentOf (Path.ofText path) = none := by
  obtain ⟨few, hfew, hne, hmissing⟩ := exists_of_createDirectories_error h
  rw [List.reverse_reverse] at hfew
  refine Option.eq_none_iff_forall_ne_some.2 fun content hcontent => ?_
  obtain ⟨-, place, hlocate, -⟩ := contentOf_eq_some_iff.1 hcontent
  obtain ⟨dir, hbase⟩ := base_of_locate hlocate
  have hdir := isDirectory_above hbase hparent hfew hne
  exact Bool.false_ne_true (hmissing.symm.trans hdir)

end FileAction

end WordMachine
