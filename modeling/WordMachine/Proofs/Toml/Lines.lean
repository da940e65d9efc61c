import WordMachine.Proofs.Text.Reading
import WordMachine.Toml.Document

/-! # Lines of a TOML document

What is read from a line with a bare key, an equals sign and a value, where the value is a switch or
a decimal integer.

* **Integers.** The digits of a number are read up to the line feed behind them. They are not taken
  for a date, a time, a float or an integer in another base, since none of the characters that would
  make them one follows (`startsTime_digits`, `scalar_chars`).
* **Lines.** A line assigns the value to the key, if the key is new, and reading goes on behind its
  line feed (`lines_assign`). -/

namespace WordMachine.Toml

/-! ### Integers -/

/-- Digits are read up to a character that is neither a digit nor an underscore. -/
theorem digitsOf_digits {ds : List Nat} (hds : ∀ d ∈ ds, d < 10) (due : Bool)
    (hdue : due = true → ds ≠ []) (rest : List Char) :
    digitsOf 10 due (ds.map Nat.digitChar ++ '\n' :: rest) = some (ds, '\n' :: rest) := by
  induction ds generalizing due with
  | nil =>
    cases due with
    | true => exact absurd rfl (hdue rfl)
    | false => rfl
  | cons d ds ih =>
    obtain ⟨hd, hds⟩ := List.forall_mem_cons.1 hds
    rw [List.map_cons, List.cons_append, digitsOf]
    simp [Hex.digit?_digitChar hd (by decide), ih hds]

/-- Behind digits and a line feed, no other character follows some of the digits. -/
theorem fixedDigits_after {ds : List Nat} {c : Char} (hc : c ≠ '\n')
    (hdigits : ∀ d ∈ ds, c ≠ d.digitChar) (n low high : Nat) (rest : List Char) :
    (fixedDigits n low high (ds.map Nat.digitChar ++ '\n' :: rest) >>= after? c) = none := by
  unfold fixedDigits
  dsimp only
  split
  · rename_i hfixed
    change after? c ((ds.map Nat.digitChar ++ '\n' :: rest).drop n) = none
    by_cases hn : n ≤ ds.length
    · rw [List.drop_append_of_le_length (by simpa using hn), ← List.map_drop]
      cases hrest : ds.drop n with
      | nil => exact if_neg hc
      | cons d more =>
        have hmem : d ∈ ds := List.mem_of_mem_drop (hrest ▸ List.mem_cons_self)
        exact if_neg (hdigits d hmem)
    · -- The line feed would be one of the digits.
      obtain ⟨hlength, -⟩ := hfixed
      have htake : (ds.map Nat.digitChar ++ '\n' :: rest).take n =
          ds.map Nat.digitChar ++ '\n' :: rest.take (n - ds.length - 1) := by
        have hpast : n - ds.length = n - ds.length - 1 + 1 := by omega
        rw [List.take_append, List.length_map, hpast, List.take_succ_cons,
          List.take_of_length_le (by simpa using Nat.le_of_not_le hn), Nat.add_sub_cancel]
      have hnone : Numeral.digit? 10 '\n' = none := by decide
      have hfront := List.length_filterMap_le (Numeral.digit? 10) (ds.map Nat.digitChar)
      have hback := List.length_filterMap_le (Numeral.digit? 10) (rest.take (n - ds.length - 1))
      rw [htake, List.filterMap_append, List.filterMap_cons, hnone, List.length_append] at hlength
      simp only [List.length_map, List.length_take] at hlength hfront hback
      omega
  · rfl

/-- Digits and a line feed are no date and no time. -/
theorem startsTime_digits (ds : List Nat) (hds : ∀ d ∈ ds, d < 10) (rest : List Char) :
    startsTime (ds.map Nat.digitChar ++ '\n' :: rest) = false := by
  have hother : ∀ d : Fin 10, '-' ≠ d.val.digitChar ∧ ':' ≠ d.val.digitChar := by decide
  have hdash :
      (fixedDigits 4 0 9999 (ds.map Nat.digitChar ++ '\n' :: rest) >>= after? '-') = none :=
    fixedDigits_after (by decide) (fun d hd => (hother ⟨d, hds d hd⟩).1) 4 0 9999 rest
  have hcolon :
      (fixedDigits 2 0 23 (ds.map Nat.digitChar ++ '\n' :: rest) >>= after? ':') = none :=
    fixedDigits_after (by decide) (fun d hd => (hother ⟨d, hds d hd⟩).2) 2 0 23 rest
  rw [startsTime, hdash, hcolon]
  rfl

/-- Where no other scalar begins, a number is read. -/
theorem scalar_of_not_mem {c : Char} (hc : c ∉ ['t', 'f', '"', '\x27', 'i', 'n']) {cs : List Char}
    (htime : startsTime (c :: cs) = false) : scalar (c :: cs) = number (c :: cs) := by
  simp only [List.mem_cons, List.not_mem_nil, or_false, not_or] at hc
  obtain ⟨ht, hf, hquote, hapostrophe, hi, hn⟩ := hc
  unfold scalar
  split
  · rename_i heq
    exact absurd (List.cons.inj heq).1 ht
  · rename_i heq
    exact absurd (List.cons.inj heq).1 hf
  · split
    · rename_i heq
      exact absurd (List.cons.inj heq).1 hquote
    · rename_i heq
      exact absurd (List.cons.inj heq).1 hapostrophe
    · rename_i heq
      exact absurd (List.cons.inj heq).1 hi
    · rename_i heq
      exact absurd (List.cons.inj heq).1 hn
    · rw [htime]
      rfl

/-- A number that begins with no sign and no zero is decimal. -/
theorem number_of_not_mem {c : Char} (hc : c ∉ ['0', '-', '+']) (cs : List Char) :
    number (c :: cs) = decimalNumber false (c :: cs) := by
  simp only [List.mem_cons, List.not_mem_nil, or_false, not_or] at hc
  obtain ⟨hzero, hminus, hplus⟩ := hc
  unfold number
  split
  · rename_i heq
    exact absurd (List.cons.inj heq).1 hzero
  · rename_i heq
    exact absurd (List.cons.inj heq).1 hzero
  · rename_i heq
    exact absurd (List.cons.inj heq).1 hzero
  · rename_i heq
    exact absurd (List.cons.inj heq).1 hminus
  · rename_i heq
    exact absurd (List.cons.inj heq).1 hplus
  · rfl

/-- Digits that do not begin with a zero are the digits of the number. -/
theorem wholeDigits_of_ne {c : Char} (hc : c ≠ '0') (cs : List Char) :
    wholeDigits (c :: cs) = digitsOf 10 true (c :: cs) := by
  unfold wholeDigits
  split
  · rename_i heq
    exact absurd (List.cons.inj heq).1 hc
  · rfl

/-- Behind its whole digits, an integer ends where its line ends. -/
theorem decimalNumber_of_wholeDigits {cs rest : List Char} {ds : List Nat} {n : Nat}
    (hds : Numeral.value 10 ds = n) (hn : n < integerBound)
    (hwhole : wholeDigits cs = some (ds, '\n' :: rest)) :
    decimalNumber false cs = some (.integer n, '\n' :: rest) := by
  unfold decimalNumber
  rw [hwhole]
  change (signed false (Numeral.value 10 ds)).bind _ = _
  rw [hds, signed, if_neg (by decide), if_pos hn]
  rfl

/-- The numeral of a number that fits is read as this number. -/
theorem scalar_chars {n : Nat} (hn : n < integerBound) (rest : List Char) :
    scalar (Numeral.chars 10 n ++ '\n' :: rest) = some (.integer n, '\n' :: rest) := by
  have hlt := Numeral.digits_lt (by decide : 2 ≤ 10) (n := n)
  have htime := startsTime_digits (Numeral.digits 10 n) hlt rest
  have hread := digitsOf_digits hlt true (fun _ => Numeral.digits_ne_nil 10 n) rest
  have hvalue := Numeral.value_digits 10 n
  unfold Numeral.chars
  cases hdigits : Numeral.digits 10 n with
  | nil => exact absurd hdigits (Numeral.digits_ne_nil 10 n)
  | cons d ds =>
    rw [hdigits] at hlt htime hread hvalue
    have hd : d < 10 := hlt d List.mem_cons_self
    have hscalar : ∀ d : Fin 10, d.val.digitChar ∉ ['t', 'f', '"', '\x27', 'i', 'n'] := by decide
    refine (scalar_of_not_mem (hscalar ⟨d, hd⟩) htime).trans ?_
    by_cases hzero : d = 0
    · -- Only zero is written with a zero in front.
      have hn0 : n = 0 := by
        apply Nat.eq_zero_of_not_pos
        intro hpos
        apply Numeral.head?_digits (by decide : 2 ≤ 10) hpos
        rw [hdigits, hzero]
        rfl
      subst hn0
      rw [Numeral.digits_of_lt (by decide)] at hdigits
      cases hdigits
      exact decimalNumber_of_wholeDigits hvalue hn rfl
    · have hnumber : ∀ d : Fin 10, d.val ≠ 0 → d.val.digitChar ∉ ['0', '-', '+'] := by decide
      have hother := hnumber ⟨d, hd⟩ hzero
      refine (number_of_not_mem hother _).trans (decimalNumber_of_wholeDigits hvalue hn ?_)
      refine (wholeDigits_of_ne ?_ _).trans hread
      exact fun heq => hother (by rw [heq]; exact List.mem_cons_self)

/-! ### Values -/

/-- What is no array and no inline table is read as a scalar. -/
theorem item_of_scalar {c : Char} (hc : c ∉ ['[', '\x7b']) {cs rest : List Char} {s : Scalar}
    (h : scalar (c :: cs) = some (s, rest)) : item (c :: cs) = some (.scalar s, rest) := by
  simp only [List.mem_cons, List.not_mem_nil, or_false, not_or] at hc
  change itemOf (126 + 1) (c :: cs) = _
  unfold itemOf
  split
  · rename_i heq
    exact absurd (List.cons.inj heq).1 hc.1
  · rename_i heq
    exact absurd (List.cons.inj heq).1 hc.2
  · rw [h]
    rfl

/-- A row of characters is the text of a value, if it is followed by a line feed. -/
structure Denotes (value : List Char) (i : Item) : Prop where
  not_blank : ∀ rest, skipBlanks (value ++ '\n' :: rest) = value ++ '\n' :: rest
  item_eq : ∀ rest, item (value ++ '\n' :: rest) = some (i, '\n' :: rest)

/-- The numeral of a number that fits denotes it. -/
theorem denotes_chars {n : Nat} (hn : n < integerBound) :
    Denotes (Numeral.chars 10 n) (.scalar (.integer n)) := by
  have hread := scalar_chars hn
  obtain ⟨c, cs, hchars, hc⟩ := Numeral.exists_chars_cons (by decide : 2 ≤ 10) (by decide) n
  have hother : c ∉ ['[', '\x7b'] ∧ isBlank c = false :=
    Hex.ascii_forall (P := fun c => Hex.IsDigit c → c ∉ ['[', '\x7b'] ∧ isBlank c = false)
      (by decide) hc.toNat_lt hc
  rw [hchars] at hread ⊢
  refine ⟨fun rest => ?_, fun rest => item_of_scalar hother.1 (hread rest)⟩
  exact List.dropWhile_cons_of_neg (by simp [hother.2])

/-- The two words for a switch denote it. -/
theorem denotes_switch (b : Bool) :
    Denotes (if b then "true" else "false").toList (.scalar (.boolean b)) := by
  cases b with
  | true => exact ⟨fun rest => rfl, fun rest => rfl⟩
  | false => exact ⟨fun rest => rfl, fun rest => rfl⟩

/-! ### Keys and lines -/

/-- A name of bare characters needs no quotes as a key. -/
structure Bare (name : List Char) : Prop where
  ne_nil : name ≠ []
  isBare : ∀ c ∈ name, isBare c = true

namespace Bare

variable {name : List Char}

theorem exists_cons (h : Bare name) : ∃ c cs, name = c :: cs ∧ Toml.isBare c = true := by
  obtain ⟨c, cs, rfl⟩ := List.exists_cons_of_ne_nil h.ne_nil
  exact ⟨c, cs, rfl, h.isBare c List.mem_cons_self⟩

/-- A bare key is read up to the blank behind it. -/
theorem simpleKey_eq (h : Bare name) (rest : List Char) :
    simpleKey (name ++ ' ' :: rest) = some (String.ofList name, ' ' :: rest) := by
  have htake := takeWhile_append_cons h.isBare (by decide : Toml.isBare ' ' = false) rest
  have hdrop := dropWhile_append_cons h.isBare (by decide : Toml.isBare ' ' = false) rest
  have hnotEmpty : name.isEmpty = false := by simpa using h.ne_nil
  obtain ⟨c, cs, hname, hc⟩ := h.exists_cons
  unfold simpleKey
  split
  · rename_i heq
    rw [hname] at heq
    cases (List.cons.inj heq).1
    cases hc
  · rename_i heq
    rw [hname] at heq
    cases (List.cons.inj heq).1
    cases hc
  · simp only [htake, hdrop, hnotEmpty]
    rfl

/-- No blank, comment, header or line end begins where a bare key begins. -/
theorem not_mem (h : Bare name) :
    ∃ c cs, name = c :: cs ∧ isBlank c = false ∧ c ∉ ['[', '#', '\n', '\r'] := by
  obtain ⟨c, cs, rfl, hc⟩ := h.exists_cons
  refine ⟨c, cs, rfl, ?_, ?_⟩
  · cases hblank : isBlank c with
    | false => rfl
    | true =>
      rcases Bool.or_eq_true_iff.1 hblank with heq | heq
      · rw [beq_iff_eq.1 heq] at hc
        cases hc
      · rw [beq_iff_eq.1 heq] at hc
        cases hc
  · intro hmem
    simp only [List.mem_cons, List.not_mem_nil, or_false] at hmem
    rcases hmem with rfl | rfl | rfl | rfl <;> cases hc

theorem skipBlanks_eq (h : Bare name) (rest : List Char) :
    skipBlanks (name ++ rest) = name ++ rest := by
  obtain ⟨c, cs, rfl, hblank, -⟩ := h.not_mem
  exact List.dropWhile_cons_of_neg (by simp [hblank])

/-- A bare key in front of an equals sign is a key of one part. -/
theorem key_eq (h : Bare name) (rest : List Char) :
    key (name ++ ' ' :: '=' :: rest) = some ([String.ofList name], '=' :: rest) := by
  change keyOf (126 + 1) _ = _
  unfold keyOf
  rw [h.skipBlanks_eq, h.simpleKey_eq]
  rfl

/-- A line is read as a key and a value. -/
theorem keyAndItem_eq (h : Bare name) {value : List Char} {i : Item} (hvalue : Denotes value i)
    (rest : List Char) :
    keyAndItem item (name ++ ' ' :: '=' :: ' ' :: (value ++ '\n' :: rest)) =
      some (([String.ofList name], i), '\n' :: rest) := by
  have hblank : skipBlanks (' ' :: (value ++ '\n' :: rest)) = value ++ '\n' :: rest :=
    (List.dropWhile_cons_of_pos rfl).trans (hvalue.not_blank rest)
  unfold keyAndItem
  rw [h.key_eq]
  change (item (skipBlanks (' ' :: (value ++ '\n' :: rest)))).bind _ = _
  rw [hblank, hvalue.item_eq]
  rfl

theorem restOfLine?_eq_none (h : Bare name) (rest : List Char) :
    restOfLine? (name ++ rest) = none := by
  unfold restOfLine?
  rw [h.skipBlanks_eq]
  obtain ⟨c, cs, rfl, -, hc⟩ := h.not_mem
  simp only [List.mem_cons, List.not_mem_nil, or_false, not_or] at hc
  obtain ⟨-, hcomment, hnewline, hreturn⟩ := hc
  have hskip : skipComment (c :: cs ++ rest) = c :: cs ++ rest := by
    unfold skipComment
    split
    · rename_i heq
      exact absurd (List.cons.inj heq).1 hcomment
    · rfl
  rw [hskip]
  unfold lineEnd?
  split
  · rename_i heq
    cases heq
  · rename_i heq
    exact absurd (List.cons.inj heq).1 hnewline
  · rename_i heq
    exact absurd (List.cons.inj heq).1 hreturn
  · rfl

end Bare

/-- A new key at the top of a document gets its value. -/
theorem assignUnder_nil {es : Entries} {name : String} (hnew : es.lookup name = none) (i : Item) :
    es.assignUnder [] [name] i = some (es.set name i) := by
  unfold Entries.assignUnder Entries.change Entries.assign
  simp [Entries.change, hnew]

/-- A line assigns its value to its key, if the key is new. -/
theorem lines_assign {name value : List Char} {i : Item} (hname : Bare name)
    (hvalue : Denotes value i) {es : Entries} (hnew : es.lookup (String.ofList name) = none)
    (fuel : Nat) (rest : List Char) :
    lines (fuel + 1) [] es (name ++ ' ' :: '=' :: ' ' :: (value ++ '\n' :: rest)) =
      lines fuel [] (es.set (String.ofList name) i) rest := by
  have hline := hname.keyAndItem_eq hvalue rest
  have hnone := hname.restOfLine?_eq_none (' ' :: '=' :: ' ' :: (value ++ '\n' :: rest))
  have hskip := hname.skipBlanks_eq (' ' :: '=' :: ' ' :: (value ++ '\n' :: rest))
  obtain ⟨c, cs, rfl, -, hc⟩ := hname.not_mem
  rw [lines, hskip]
  split
  · rename_i heq
    cases heq
  · rename_i heq
    exact absurd ((List.cons.inj heq).1 ▸ List.mem_cons_self) hc
  · rename_i heq
    rw [← heq, hnone, hline]
    change (es.assignUnder [] [String.ofList (c :: cs)] i).bind (lines fuel [] · rest) = _
    rw [assignUnder_nil hnew]
    rfl

/-- A text is read to its end as these entries, in so many rounds, after the entries so far. -/
def Yields (rounds : Nat) (es : Entries) (text : List Char) (all : Entries) : Prop :=
  ∀ fuel, rounds ≤ fuel → lines fuel [] es text = some all

namespace Yields

/-- Nothing more is read at the end. -/
theorem nil (es : Entries) : Yields 1 es [] es := by
  intro fuel hfuel
  obtain ⟨fuel, rfl⟩ := Nat.exists_eq_succ_of_ne_zero (by omega : fuel ≠ 0)
  rfl

theorem mono {rounds : Nat} {es all : Entries} {text : List Char}
    (h : Yields rounds es text all) : Yields (rounds + 1) es text all :=
  fun fuel hfuel => h fuel (by omega)

/-- A line is read in one round. -/
theorem line {rounds : Nat} {es all : Entries} {name value rest : List Char} {i : Item}
    (hname : Bare name) (hvalue : Denotes value i)
    (hnew : es.lookup (String.ofList name) = none)
    (h : Yields rounds (es.set (String.ofList name) i) rest all) :
    Yields (rounds + 1) es (name ++ ' ' :: '=' :: ' ' :: (value ++ '\n' :: rest)) all := by
  intro fuel hfuel
  obtain ⟨fuel, rfl⟩ := Nat.exists_eq_succ_of_ne_zero (by omega : fuel ≠ 0)
  rw [lines_assign hname hvalue hnew]
  exact h fuel (by omega)

end Yields

end WordMachine.Toml
