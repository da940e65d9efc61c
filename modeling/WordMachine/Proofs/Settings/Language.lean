import Mathlib.Algebra.Ring.Nat
import Mathlib.Data.List.Forall2
import WordMachine.Proofs.Settings.RoundTrip
import WordMachine.Proofs.Settings.Update

/-! # The names and texts that a change takes

Which changes of a setting are accepted, and what they do.

* **Texts.** `NamesSwitch` and `NamesLimit` are the texts for a switch and for a limit, with the
  values that they name. Just these texts are read (`switchOfText_eq_ok_iff`,
  `limitOfText_eq_ok_iff`).
* **Assignments.** `Sets s key value s'` says that a text for a name turns the settings `s` into
  `s'`: one of them has the value that the text names, the others stay. An assignment does this,
  unless it refuses the name or the text (`answers_assign`).
* **Changes.** Settings that were assigned are saved and found again, if the file can be written and
  their limits fit into the document (`update_of_assign`). -/

namespace WordMachine.Settings

/-! ### Texts -/

/-- A text is a word, each letter of which may be a capital. -/
def InAnyCase (word text : String) : Prop :=
  List.Forall₂ (fun letter c => c = letter ∨ c = letter.toUpper) word.toList text.toList

/-- The texts for a switch, and what they name. -/
inductive NamesSwitch : String → Bool → Prop where
  | on : NamesSwitch "true" true
  | off : NamesSwitch "false" false

/-- The texts for a limit, and what they name: the word for no limit, or a decimal numeral of a
number that fits in 64 bits. -/
inductive NamesLimit (value : String) : Option Nat → Prop where
  | unlimited : InAnyCase "none" value → NamesLimit value none
  | number {n : Nat} : Numeral.IsDecimal value.toList n → n < 2 ^ 64 → NamesLimit value (some n)

/-- Lower case takes a capital to the letter 32 places further on, and leaves all else alone. -/
theorem toNat_toLower (c : Char) :
    c.toLower.toNat = if 65 ≤ c.toNat ∧ c.toNat ≤ 90 then c.toNat + 32 else c.toNat := by
  rcases Nat.lt_or_ge c.toNat 128 with hlt | hge
  · exact Hex.ascii_forall (P := fun c =>
      c.toLower.toNat = if 65 ≤ c.toNat ∧ c.toNat ≤ 90 then c.toNat + 32 else c.toNat)
      (by decide) hlt
  · have hupper : ¬ c ≤ 'Z' := Hex.not_le_of_ascii hge (by decide)
    have hsame : c.toLower = c := dif_neg fun hle => hupper hle.2
    rw [hsame, if_neg (by omega)]

/-- A small letter, by its place among the characters. -/
def IsSmall (letter : Char) : Prop := 97 ≤ letter.toNat ∧ letter.toNat ≤ 122

instance (letter : Char) : Decidable (IsSmall letter) := inferInstanceAs (Decidable (_ ∧ _))

theorem toNat_toUpper {letter : Char} (h : IsSmall letter) :
    letter.toUpper.toNat + 32 = letter.toNat :=
  Hex.ascii_forall (P := fun l => IsSmall l → l.toUpper.toNat + 32 = l.toNat) (by decide)
    (Nat.lt_of_le_of_lt h.2 (by decide)) h

/-- What becomes a small letter in lower case is that letter or its capital. -/
theorem toLower_eq_iff {c letter : Char} (hletter : IsSmall letter) :
    c.toLower = letter ↔ c = letter ∨ c = letter.toUpper := by
  have hcapital := toNat_toUpper hletter
  obtain ⟨hlow, hhigh⟩ := hletter
  rw [← Char.toNat_inj, ← Char.toNat_inj, ← Char.toNat_inj, toNat_toLower]
  split <;> omega

theorem forall₂_iff_map_toLower {word cs : List Char} (hword : ∀ letter ∈ word, IsSmall letter) :
    List.Forall₂ (fun letter c => c = letter ∨ c = letter.toUpper) word cs ↔
      cs.map Char.toLower = word := by
  induction word generalizing cs with
  | nil => simp
  | cons letter word ih =>
    obtain ⟨hletter, hrest⟩ := List.forall_mem_cons.1 hword
    cases cs with
    | nil => simp
    | cons c cs => simp [toLower_eq_iff hletter, ih hrest]

/-- A text is the word for no limit if it is so in lower case. -/
theorem inAnyCase_unset_iff {value : String} :
    InAnyCase unset value ↔ String.ofList (value.toList.map Char.toLower) = unset := by
  have hsmall : ∀ letter ∈ unset.toList, IsSmall letter := by simp [unset, IsSmall]
  unfold InAnyCase
  rw [forall₂_iff_map_toLower hsmall, ← String.toList_inj, String.toList_ofList]

/-- A numeral does not begin with a letter, so it is not the word for no limit. -/
theorem not_inAnyCase_of_isDecimal {value : String} {n : Nat}
    (h : Numeral.IsDecimal value.toList n) : ¬ InAnyCase unset value := by
  obtain ⟨ds, htext, hne, hdigits, -⟩ := h
  obtain ⟨d, ds, rfl⟩ := List.exists_cons_of_ne_nil hne
  have hdigit := hdigits d List.mem_cons_self
  unfold InAnyCase
  intro hletters
  rcases htext with htext | htext
  · rw [htext] at hletters
    cases hletters with
    | cons hfirst _ =>
      rcases hfirst with rfl | rfl
      · exact absurd hdigit (by decide)
      · exact absurd hdigit (by decide)
  · rw [htext] at hletters
    cases hletters with
    | cons hfirst _ => exact absurd hfirst (by decide)

/-- A text is read for a switch just if it names the value. -/
theorem switchOfText_eq_ok_iff {key value : String} {b : Bool} :
    switchOfText key value = .ok b ↔ NamesSwitch value b := by
  constructor
  · intro h
    unfold switchOfText at h
    split at h
    · rename_i htrue
      cases h
      rw [htrue]
      exact .on
    split at h
    · rename_i hfalse
      cases h
      rw [hfalse]
      exact .off
    · cases h
  · intro h
    cases h with
    | on => rfl
    | off => rfl

/-- A text is read for a limit just if it names the limit. -/
theorem limitOfText_eq_ok_iff {key value : String} {limit : Option Nat} :
    limitOfText key value = .ok limit ↔ NamesLimit value limit := by
  unfold limitOfText
  constructor
  · intro h
    split at h
    · rename_i hunset
      cases h
      exact .unlimited (inAnyCase_unset_iff.2 hunset)
    split at h
    · rename_i n hread
      cases h
      obtain ⟨hdecimal, hlt⟩ := (Numeral.read_ten_eq_ok_iff (by decide)).1 hread
      exact .number hdecimal hlt
    · cases h
  · intro h
    cases h with
    | unlimited hword => rw [if_pos (inAnyCase_unset_iff.1 hword)]
    | number hdecimal hlt =>
      have hread : Numeral.readUnsigned value = .ok _ :=
        (Numeral.read_ten_eq_ok_iff (by decide)).2 ⟨hdecimal, hlt⟩
      have hset := mt inAnyCase_unset_iff.2 (not_inAnyCase_of_isDecimal hdecimal)
      rw [if_neg hset, hread]

/-! ### Assignments -/

/-- The names of the limits. -/
def limitKeys : List String := [stackKey, memoryKey, stepKey]

/-- The names of all settings. -/
def keys : List String := strictKey :: limitKeys

/-- A text is no value for the setting of that name. -/
def Misfits (key value : String) : Prop :=
  key = strictKey ∧ (¬ ∃ b, NamesSwitch value b) ∨
    key ∈ limitKeys ∧ ¬ ∃ limit, NamesLimit value limit

/-- What a text for a name makes of the settings: the one of that name has the value that the text
names, the others stay. -/
inductive Sets (s : Settings) : String → String → Settings → Prop where
  | strictOpcodes {value : String} {b : Bool} :
      NamesSwitch value b → Sets s strictKey value { s with strictOpcodes := b }
  | stackLimit {value : String} {limit : Option Nat} :
      NamesLimit value limit → Sets s stackKey value { s with stackLimit := limit }
  | memoryLimit {value : String} {limit : Option Nat} :
      NamesLimit value limit → Sets s memoryKey value { s with memoryLimit := limit }
  | stepLimit {value : String} {limit : Option Nat} :
      NamesLimit value limit → Sets s stepKey value { s with stepLimit := limit }

/-- The answers to an assignment. -/
inductive Answers (s : Settings) (key value : String) : Except SettingsError Settings → Prop where
  | unknown : key ∉ keys → Answers s key value (.error (.unknownKey key))
  | misfit {reason : String} :
      Misfits key value → Answers s key value (.error (.invalidValue key reason))
  | set {s' : Settings} : Sets s key value s' → Answers s key value (.ok s')

variable {s s' : Settings} {key value : String}

theorem Misfits.mem_keys (h : Misfits key value) : key ∈ keys := by
  rcases h with ⟨rfl, -⟩ | ⟨hlimit, -⟩
  · exact List.mem_cons_self
  · exact List.mem_cons_of_mem _ hlimit

theorem not_misfits_of_namesLimit {limit : Option Nat} (hkey : key ≠ strictKey)
    (hlimit : NamesLimit value limit) : ¬ Misfits key value := by
  rintro (⟨hstrict, -⟩ | ⟨-, hnone⟩)
  · exact hkey hstrict
  · exact hnone ⟨limit, hlimit⟩

/-- Where a setting is set, neither the name nor the text is to be refused. -/
theorem Sets.accepted (h : Sets s key value s') : key ∈ keys ∧ ¬ Misfits key value := by
  cases h with
  | strictOpcodes hswitch =>
    refine ⟨by decide, ?_⟩
    rintro (⟨-, hnone⟩ | ⟨hlimit, -⟩)
    · exact hnone ⟨_, hswitch⟩
    · exact absurd hlimit (by decide)
  | stackLimit hlimit => exact ⟨by decide, not_misfits_of_namesLimit (by decide) hlimit⟩
  | memoryLimit hlimit => exact ⟨by decide, not_misfits_of_namesLimit (by decide) hlimit⟩
  | stepLimit hlimit => exact ⟨by decide, not_misfits_of_namesLimit (by decide) hlimit⟩

/-- A setting is set to the value that is read for it, or the text is no value for it. -/
theorem answers_of_read {α : Type} {Names : α → Prop} {read : Except SettingsError α}
    {f : α → Settings} (hok : ∀ a, read = .ok a ↔ Names a)
    (herror : ∀ e, read = .error e → ∃ reason, e = .invalidValue key reason)
    (hmisfit : (¬ ∃ a, Names a) → Misfits key value)
    (hset : ∀ a, Names a → Sets s key value (f a)) :
    Answers s key value (do return f (← read)) := by
  cases read with
  | ok a => exact .set (hset a ((hok a).1 rfl))
  | error e =>
    obtain ⟨reason, rfl⟩ := herror e rfl
    apply Answers.misfit
    apply hmisfit
    rintro ⟨a, ha⟩
    cases (hok a).2 ha

/-- An assignment sets the setting of that name, or it refuses the name or the text. -/
theorem answers_assign (s : Settings) (key value : String) :
    Answers s key value (s.assign key value) := by
  have hlimit : key ∈ limitKeys → ∀ f : Option Nat → Settings,
      (∀ limit, NamesLimit value limit → Sets s key value (f limit)) →
        Answers s key value (do return f (← limitOfText key value)) := by
    intro hkey f hset
    exact answers_of_read (fun _ => limitOfText_eq_ok_iff) (fun _ => limitOfText_error)
      (fun hnone => .inr ⟨hkey, hnone⟩) hset
  unfold assign
  split
  · rename_i hkey
    subst hkey
    exact answers_of_read (fun _ => switchOfText_eq_ok_iff) (fun _ => switchOfText_error)
      (fun hnone => .inl ⟨rfl, hnone⟩) fun _ => .strictOpcodes
  rename_i hstrict
  split
  · rename_i hkey
    subst hkey
    exact hlimit (by decide) _ fun _ => .stackLimit
  rename_i hstack
  split
  · rename_i hkey
    subst hkey
    exact hlimit (by decide) _ fun _ => .memoryLimit
  rename_i hmemory
  split
  · rename_i hkey
    subst hkey
    exact hlimit (by decide) _ fun _ => .stepLimit
  · rename_i hstep
    exact .unknown (by simp [keys, limitKeys, hstrict, hstack, hmemory, hstep])

theorem assign_eq_unknownKey_iff {name : String} :
    s.assign key value = .error (.unknownKey name) ↔ key ∉ keys ∧ name = key := by
  have hanswer := answers_assign s key value
  generalize s.assign key value = answer at hanswer ⊢
  cases hanswer with
  | unknown hkey => simp [hkey, eq_comm]
  | misfit hmisfits => simp [hmisfits.mem_keys]
  | set hsets => simp [hsets.accepted.1]

theorem assign_eq_invalidValue_iff {name : String} :
    (∃ reason, s.assign key value = .error (.invalidValue name reason)) ↔
      Misfits key value ∧ name = key := by
  have hanswer := answers_assign s key value
  generalize s.assign key value = answer at hanswer ⊢
  cases hanswer with
  | unknown hkey =>
    have hfits : ¬ Misfits key value := fun h => hkey h.mem_keys
    simp [hfits]
  | misfit hmisfits => simp [hmisfits, eq_comm]
  | set hsets => simp [hsets.accepted.2]

theorem sets_of_assign (h : s.assign key value = .ok s') : Sets s key value s' := by
  have hanswer := answers_assign s key value
  rw [h] at hanswer
  cases hanswer with
  | set hsets => exact hsets

/-- A text that is a value for the name is assigned to it. -/
theorem exists_assign_of_fits (hkey : key ∈ keys) (hfits : ¬ Misfits key value) :
    ∃ s', s.assign key value = .ok s' := by
  have hanswer := answers_assign s key value
  generalize s.assign key value = answer at hanswer ⊢
  cases hanswer with
  | unknown hunknown => exact absurd hkey hunknown
  | misfit hmisfits => exact absurd hmisfits hfits
  | set hsets => exact ⟨_, rfl⟩

/-! ### Changes -/

section

variable [Disk] {path : String} {fs fs' : FileSystem}

/-- A change refuses what the assignment refuses, and saving refuses neither names nor texts. -/
theorem update_refuses_iff {name : String} {e : SettingsError} {left : Settings × FileSystem}
    (he : e.Refuses name) :
    update path key value (s, fs) = .error e left ↔
      s.assign key value = .error e ∧ left = (s, fs) := by
  constructor
  · intro h
    obtain ⟨hassign, hs, hfs⟩ | ⟨-, hsave⟩ := update_error_cases h
    · exact ⟨hassign, Prod.ext hs hfs⟩
    · obtain ⟨rfl, -⟩ | ⟨-, failure, rfl, -⟩ := save_error_cases hsave
      · exact he.elim
      · exact he.elim
  · rintro ⟨hassign, rfl⟩
    unfold update
    simp only [hassign]

/-- What was assigned is saved and found in the file, unless a limit does not fit. -/
theorem update_of_assign (hwritable : fs.Writable path) (hassign : s.assign key value = .ok s') :
    (s'.storable = true ∧ ∃ fs', update path key value (s, fs) = .ok () (s', fs') ∧
        load path fs' = .ok s' fs') ∨
      s'.storable = false ∧ update path key value (s, fs) = .error .outOfRange (s', fs) := by
  unfold update
  cases hstorable : s'.storable with
  | true =>
    obtain ⟨fs', hsave, hwrite⟩ := save_of_storable hwritable hstorable
    refine .inl ⟨rfl, fs', ?_, load_of_holds (.of_writeText hwrite) hstorable⟩
    simp only [hassign, hsave]
  | false =>
    refine .inr ⟨rfl, ?_⟩
    simp only [hassign, save_of_not_storable hstorable]

/-- A change that succeeds has set the setting, and the file holds the new settings. -/
theorem of_update_ok (hwritable : fs.Writable path)
    (h : update path key value (s, fs) = .ok () (s', fs')) :
    Sets s key value s' ∧ load path fs' = .ok s' fs' := by
  cases hassign : s.assign key value with
  | error e =>
    have hrefused := refuses_of_assign_error hassign
    cases h.symm.trans ((update_refuses_iff hrefused).2 ⟨hassign, rfl⟩)
  | ok t =>
    obtain ⟨-, after, hupdate, hload⟩ | ⟨-, hupdate⟩ := update_of_assign hwritable hassign
    · cases hupdate.symm.trans h
      exact ⟨sets_of_assign hassign, hload⟩
    · cases hupdate.symm.trans h

/-- A change refuses just the names that no setting has, and just the texts that are no value for the
setting; then settings and files stay as they are. Any other text names a value. The change gives it
to that setting and to no other, and is saved unless a limit does not fit into the document. Whenever
it succeeds, the new settings are loaded from the file. -/
theorem update_follows_language (hwritable : fs.Writable path) (s : Settings)
    (key value : String) :
    (∀ name left, update path key value (s, fs) = .error (.unknownKey name) left ↔
      key ∉ keys ∧ name = key ∧ left = (s, fs)) ∧
    (∀ name left,
      (∃ reason, update path key value (s, fs) = .error (.invalidValue name reason) left) ↔
        Misfits key value ∧ name = key ∧ left = (s, fs)) ∧
    (key ∈ keys → ¬ Misfits key value → ∃ s', Sets s key value s' ∧
      if s'.storable then ∃ fs', update path key value (s, fs) = .ok () (s', fs')
      else ∃ left, update path key value (s, fs) = .error .outOfRange left) ∧
    ∀ s' fs', update path key value (s, fs) = .ok () (s', fs') →
      Sets s key value s' ∧ load path fs' = .ok s' fs' := by
  refine ⟨?_, ?_, ?_, fun s' fs' => of_update_ok hwritable⟩
  · intro name left
    have hrefuses : (SettingsError.unknownKey name).Refuses name := rfl
    rw [update_refuses_iff hrefuses, assign_eq_unknownKey_iff, and_assoc]
  · intro name left
    have hrefuses : ∀ reason, (SettingsError.invalidValue name reason).Refuses name := fun _ => rfl
    simp only [update_refuses_iff (hrefuses _), exists_and_right, assign_eq_invalidValue_iff,
      and_assoc]
  · intro hkey hfits
    obtain ⟨s', hassign⟩ := exists_assign_of_fits (s := s) hkey hfits
    refine ⟨s', sets_of_assign hassign, ?_⟩
    obtain ⟨hstorable, fs', hupdate, -⟩ | ⟨hstorable, hupdate⟩ :=
      update_of_assign hwritable hassign
    · rw [if_pos hstorable]
      exact ⟨fs', hupdate⟩
    · rw [hstorable]
      exact ⟨_, hupdate⟩

end

/-- A sign and zeros in front do not count, and the first number past 64 bits is no limit. -/
theorem update_follows_language_edges :
    FileSystem.Writable {} "config.toml" ∧
      (∃ fs', update "config.toml" memoryKey "+0007" ({ stackLimit := some 5 }, {}) =
          .ok () ({ stackLimit := some 5, memoryLimit := some 7 }, fs') ∧
        load "config.toml" fs' = .ok { stackLimit := some 5, memoryLimit := some 7 } fs') ∧
      Misfits memoryKey "18446744073709551616" := by
  obtain ⟨_, hfirst⟩ : ∃ fs', FileAction.writeText "config.toml" "" {} = .ok () fs' := ⟨_, rfl⟩
  have hwritable := FileSystem.writable_of_writeText (fun _ _ _ => rfl) hfirst
  refine ⟨hwritable, ?_, ?_⟩
  · obtain ⟨fs', hupdate⟩ : ∃ fs',
        update "config.toml" memoryKey "+0007" ({ stackLimit := some 5 }, {}) =
          .ok () ({ stackLimit := some 5, memoryLimit := some 7 }, fs') := ⟨_, rfl⟩
    exact ⟨fs', hupdate, ((update_follows_language hwritable _ _ _).2.2.2 _ _ hupdate).2⟩
  · have hrefused := (update_follows_language hwritable {} memoryKey "18446744073709551616").2.1
    exact ((hrefused memoryKey ({}, {})).1 ⟨_, rfl⟩).1

end WordMachine.Settings
