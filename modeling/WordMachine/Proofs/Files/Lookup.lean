import WordMachine.Files.System
import WordMachine.Proofs.Files.Path

/-! # Looking up a path

Which places a path leads to, and through which directories.

* **Content.** `FileSystem.contentOf` is what a path leads to, if it leads to a file. It is the view
  through which reading and writing are described.
* **Walking.** A walk may be cut anywhere, and names that stay in place may be left out.
* **Above.** Where a path can be looked up, each directory above it exists, under the names that
  `Path.parentNames?` gives it (`FileSystem.isDirectory_above`). -/

namespace WordMachine

namespace FileSystem

/-- The content of the file that a path leads to. -/
def contentOf (fs : FileSystem) (p : Path) : Option ByteArray := (fs.readBytes p).toOption

/-- A path leads to a file that lies at its place, unless it asks for a directory. -/
theorem contentOf_eq_some_iff {fs : FileSystem} {p : Path} {content : ByteArray} :
    fs.contentOf p = some content ↔
      p.directory = false ∧
        ∃ place, fs.locate p = .ok place ∧ fs.get? place = some (.file content) := by
  unfold contentOf readBytes find
  cases hplace : fs.locate p with
  | error e => simp [bind, Except.bind, Except.toOption]
  | ok place =>
    cases hentry : fs.get? place with
    | none => simp [bind, Except.bind, Except.toOption, hentry]
    | some e =>
      cases e with
      | directory => simp [bind, Except.bind, Except.toOption, hentry]
      | file c =>
        cases hdir : p.directory <;> simp [bind, Except.bind, Except.toOption, hentry]

/-- Bytes are text if they are its encoding. -/
theorem fromUTF8?_eq_some_iff {content : ByteArray} {text : String} :
    String.fromUTF8? content = some text ↔ content = text.toUTF8 := by
  unfold String.fromUTF8?
  split
  · rw [Option.some.injEq, ← String.toByteArray_inj]
    rfl
  · rename_i hinvalid
    constructor
    · intro h
      cases h
    · rintro rfl
      exact absurd text.isValidUTF8 hinvalid

/-- A path leads to a file that holds a text. -/
def Holds (fs : FileSystem) (p : Path) (text : String) : Prop :=
  fs.find p = .ok (.file text.toUTF8)

theorem readText_eq_ok_iff {fs : FileSystem} {p : Path} {text : String} :
    fs.readText p = .ok text ↔ fs.Holds p text := by
  unfold readText readBytes Holds
  cases hfind : fs.find p with
  | error failure => simp [bind, Except.bind]
  | ok e =>
    cases e with
    | directory => simp [bind, Except.bind]
    | file content =>
      simp only [bind, Except.bind, Except.ok.injEq, Entry.file.injEq, ← fromUTF8?_eq_some_iff]
      cases String.fromUTF8? content <;> simp

/-! ### Walking -/

theorem enter_eq_ok_iff {fs : FileSystem} {dir next : Place} {name : String} :
    fs.enter dir name = .ok next ↔
      step dir name = .ok next ∧ fs.get? next = some .directory := by
  unfold enter
  cases hstep : step dir name with
  | error e => simp [bind, Except.bind]
  | ok place =>
    simp only [bind, Except.bind, Except.ok.injEq]
    constructor
    · intro h
      split at h
      · cases h
      · cases h
      · rename_i hentry
        cases h
        exact ⟨rfl, hentry⟩
    · rintro ⟨rfl, hentry⟩
      rw [hentry]

theorem walk_cons_eq_ok_iff {fs : FileSystem} {dir last : Place} {name : String}
    {names : List String} :
    fs.walk dir (name :: names) = .ok last ↔
      ∃ next, fs.enter dir name = .ok next ∧ fs.walk next names = .ok last := by
  rw [walk]
  cases fs.enter dir name <;> simp [bind, Except.bind]

theorem walk_append_eq_ok_iff {fs : FileSystem} {dir last : Place} {front back : List String} :
    fs.walk dir (front ++ back) = .ok last ↔
      ∃ between, fs.walk dir front = .ok between ∧ fs.walk between back = .ok last := by
  induction front generalizing dir with
  | nil => simp [walk]
  | cons name front ih =>
    simp only [List.cons_append, walk_cons_eq_ok_iff, ih]
    constructor
    · rintro ⟨next, henter, between, hfront, hback⟩
      exact ⟨between, ⟨next, henter, hfront⟩, hback⟩
    · rintro ⟨between, ⟨next, henter, hfront⟩, hback⟩
      exact ⟨next, henter, between, hfront, hback⟩

/-- Names that stay in place may be left out. -/
theorem walk_filter {fs : FileSystem} {dir last : Place} {names : List String}
    (h : fs.walk dir names = .ok last) :
    fs.walk dir (names.filter (· ≠ Path.here)) = .ok last := by
  induction names generalizing dir with
  | nil => exact h
  | cons name names ih =>
    obtain ⟨next, henter, hrest⟩ := walk_cons_eq_ok_iff.1 h
    by_cases hname : name = Path.here
    · have hstay : step dir name = .ok dir := if_pos hname
      cases hstay.symm.trans (enter_eq_ok_iff.1 henter).1
      rw [List.filter_cons_of_neg (by simpa using hname)]
      exact ih hrest
    · rw [List.filter_cons_of_pos (by simpa using hname)]
      exact walk_cons_eq_ok_iff.2 ⟨next, henter, ih hrest⟩

/-- Whoever comes to the end comes to every place on the way. -/
theorem exists_walk_of_initial {fs : FileSystem} {dir last : Place} {few all : List String}
    (hfew : few <+: all) (h : fs.walk dir all = .ok last) :
    ∃ between, fs.walk dir few = .ok between := by
  obtain ⟨rest, rfl⟩ := hfew
  obtain ⟨between, hbetween, -⟩ := walk_append_eq_ok_iff.1 h
  exact ⟨between, hbetween⟩

end FileSystem

/-- A path may be looked up: it has no NUL character, it has a name or starts from the root, and it
is not too long. -/
structure Path.Valid (p : Path) : Prop where
  no_nul : '\x00' ∉ p.text.toList
  not_empty : (p.names.isEmpty && !p.absolute) = false
  size_lt : p.text.utf8ByteSize < Path.maxText

namespace FileSystem

/-! ### Looking up -/

theorem base_eq_ok_iff {fs : FileSystem} {p : Path} {dir : Place} :
    fs.base p = .ok dir ↔ p.Valid ∧ fs.walk (fs.origin p) p.names.dropLast = .ok dir := by
  unfold base
  by_cases hnul : '\x00' ∈ p.text.toList
  · have hinvalid : ¬ p.Valid := fun h => h.no_nul hnul
    simp [hnul, hinvalid]
  · cases hempty : p.names.isEmpty && !p.absolute with
    | true =>
      have hinvalid : ¬ p.Valid := fun h => Bool.false_ne_true (h.not_empty.symm.trans hempty)
      simp [hnul, hinvalid]
    | false =>
      by_cases hsize : Path.maxText ≤ p.text.utf8ByteSize
      · have hinvalid : ¬ p.Valid := fun h => Nat.not_le.2 h.size_lt hsize
        simp [hnul, hsize, hinvalid]
      · have hvalid : p.Valid := ⟨hnul, hempty, Nat.not_le.1 hsize⟩
        simp [hnul, hsize, hvalid]

/-- A path is looked up in the directory that its last name lies in. -/
theorem base_of_locate {fs : FileSystem} {p : Path} {place : Place}
    (h : fs.locate p = .ok place) : ∃ dir, fs.base p = .ok dir := by
  unfold locate at h
  cases hbase : fs.base p with
  | error e =>
    rw [hbase] at h
    cases h
  | ok dir => exact ⟨dir, rfl⟩

/-- A path that can be walked to its end leads to a directory. -/
theorem isDirectory_of_walk {fs : FileSystem} {p : Path} {last : Place} (hvalid : p.Valid)
    (hnames : p.names ≠ []) (h : fs.walk (fs.origin p) p.names = .ok last) :
    fs.isDirectory p = true := by
  have hsplit : p.names = p.names.dropLast ++ [p.names.getLast hnames] :=
    (List.dropLast_concat_getLast hnames).symm
  rw [hsplit] at h
  obtain ⟨dir, hdir, hlast⟩ := walk_append_eq_ok_iff.1 h
  obtain ⟨next, henter, hend⟩ := walk_cons_eq_ok_iff.1 hlast
  cases hend
  obtain ⟨hstep, hentry⟩ := enter_eq_ok_iff.1 henter
  have hbase : fs.base p = .ok dir := base_eq_ok_iff.2 ⟨hvalid, hdir⟩
  have hlocate : fs.locate p = .ok last := by
    unfold locate
    rw [hbase, List.getLast?_eq_some_getLast hnames]
    exact hstep
  have hfind : fs.find p = .ok .directory := by
    unfold find
    rw [hlocate]
    simp only [bind, Except.bind, hentry]
  rw [isDirectory, hfind]

end FileSystem

/-! ### The directories above a path -/

namespace Path

/-- Normal names without the last of them are normal names of those in front of the last name. -/
theorem filter_dropLast_extends {α : Type} (f : α → Bool) (l : List α) :
    (l.filter f).dropLast <+: l.dropLast.filter f := by
  rcases List.eq_nil_or_concat l with rfl | ⟨front, last, rfl⟩
  · exact List.nil_prefix
  · rw [List.concat_eq_append, List.filter_append, List.dropLast_concat]
    cases hlast : f last with
    | true => simp [hlast]
    | false =>
      rw [List.filter_cons_of_neg (by simp [hlast]), List.filter_nil, List.append_nil]
      exact List.dropLast_prefix _

theorem parentNames?_eq_some_iff {p : Path} {names : List String} :
    p.parentNames? = some names ↔ p.normalNames ≠ [] ∧ p.normalNames.dropLast = names := by
  unfold parentNames?
  split
  · rename_i hnil
    simp [hnil]
  · rename_i all hall
    have hne : p.normalNames ≠ [] := hall
    simp [hne]

/-- The names of the parent are some of the names. -/
theorem sublist_of_parentNames? {p : Path} {names : List String}
    (h : p.parentNames? = some names) : names.Sublist p.names := by
  obtain ⟨-, rfl⟩ := parentNames?_eq_some_iff.1 h
  exact (List.dropLast_sublist _).trans p.normalNames_sublist

/-- Whoever comes to the directory of the last name can walk the names of the parent. -/
theorem exists_walk_parentNames {fs : FileSystem} {p : Path} {names : List String}
    {dir last : Place} (h : p.parentNames? = some names)
    (hwalk : fs.walk dir p.names.dropLast = .ok last) :
    ∃ between, fs.walk dir names = .ok between := by
  obtain ⟨-, rfl⟩ := parentNames?_eq_some_iff.1 h
  unfold normalNames
  split
  · rename_i rest _ hnames
    rw [hnames] at hwalk
    -- The dot in front is kept, so it is entered first and then left alone.
    by_cases hkept : rest.filter (· ≠ here) = []
    · rw [hkept]
      exact ⟨dir, rfl⟩
    · have hne : rest ≠ [] := by
        rintro rfl
        exact hkept rfl
      rw [List.dropLast_cons_of_ne_nil hne] at hwalk
      obtain ⟨next, henter, hwalk⟩ := FileSystem.walk_cons_eq_ok_iff.1 hwalk
      obtain ⟨between, hbetween⟩ := FileSystem.exists_walk_of_initial
        (filter_dropLast_extends _ rest) (FileSystem.walk_filter hwalk)
      rw [List.dropLast_cons_of_ne_nil hkept]
      exact ⟨between, FileSystem.walk_cons_eq_ok_iff.2 ⟨next, henter, hbetween⟩⟩
  · exact FileSystem.exists_walk_of_initial (filter_dropLast_extends _ p.names)
      (FileSystem.walk_filter hwalk)

/-- The directories above a path that may be looked up may be looked up. -/
theorem Valid.ofNames {text : String} (h : (ofText text).Valid) {names : List String}
    (hne : names ≠ []) (hsub : names.Sublist (ofText text).names) :
    (ofNames (ofText text).absolute names).Valid where
  no_nul := fun hmem => h.no_nul ((toList_textOf_sublist hsub).subset hmem)
  not_empty := by simp [Path.ofNames, hne]
  size_lt := Nat.lt_of_le_of_lt (utf8ByteSize_le_of_sublist (toList_textOf_sublist hsub)) h.size_lt

end Path

/-- Where a path can be looked up, the directories above it exist. -/
theorem FileSystem.isDirectory_above {fs : FileSystem} {text : String} {names few : List String}
    {dir : Place} (hbase : fs.base (Path.ofText text) = .ok dir)
    (hparent : (Path.ofText text).parentNames? = some names) (hfew : few <+: names)
    (hne : few ≠ []) : fs.isDirectory (Path.ofNames (Path.ofText text).absolute few) = true := by
  obtain ⟨hvalid, hwalk⟩ := base_eq_ok_iff.1 hbase
  obtain ⟨last, hlast⟩ := Path.exists_walk_parentNames hparent hwalk
  obtain ⟨between, hbetween⟩ := exists_walk_of_initial hfew hlast
  have hsub := hfew.sublist.trans (Path.sublist_of_parentNames? hparent)
  exact isDirectory_of_walk (hvalid.ofNames hne hsub) hne hbetween

end WordMachine
