import WordMachine.Proofs.Hex.Digits

/-! # Numerals and lines read back

What a text of numerals and lines says.

* **Numerals.** `Numeral.number?` is the number that a row of digits of either case denotes, however
  long the row is. `Numeral.Writes base width text n` says that a text is the numeral of `n` in
  lower case: `width` digits if they suffice, and otherwise no more than are needed. Every numeral
  that is filled up with zeros is one (`writes_padded`), and so is every numeral that is not
  (`writes_chars`). `Numeral.read_eq_ok_iff` says which texts are read as a number; in base ten
  these are the texts of `Numeral.IsDecimal`, behind whose sign nothing but the ten digits stands.
* **Lines.** `Lines.read?` takes apart a text in which each line ends in a line feed. It gives back
  the lines that a text was put together from, if none of them holds a line feed
  (`Lines.read?_flatMap`). -/

namespace WordMachine

/-- Where each part is read as what it was written for, so are all of them. -/
theorem mapM_map_eq_some {α β γ : Type} {write : α → β} {read : β → Option γ} {meaning : α → γ}
    {parts : List α} (h : ∀ a ∈ parts, read (write a) = some (meaning a)) :
    (parts.map write).mapM read = some (parts.map meaning) := by
  induction parts with
  | nil => rfl
  | cons a parts ih =>
    obtain ⟨ha, hparts⟩ := List.forall_mem_cons.1 h
    rw [List.map_cons, List.mapM_cons, ha, ih hparts]
    rfl

/-- Numbered parts that are read one by one are read together. -/
theorem mapM_mapIdx_eq_some {α β γ : Type} {write : Nat → α → β} {read : β → Option γ}
    {meaning : Nat → α → γ} (h : ∀ i a, read (write i a) = some (meaning i a)) (parts : List α) :
    (parts.mapIdx write).mapM read = some (parts.mapIdx meaning) := by
  rw [List.mapIdx_eq_zipIdx_map, List.mapIdx_eq_zipIdx_map]
  exact mapM_map_eq_some fun x _ => h x.2 x.1

/-- What is taken from the front stops where the test first fails. -/
theorem takeWhile_append_cons {α : Type} {p : α → Bool} {front : List α}
    (hfront : ∀ a ∈ front, p a = true) {b : α} (hb : p b = false) (rest : List α) :
    (front ++ b :: rest).takeWhile p = front := by
  rw [List.takeWhile_append_of_pos hfront, List.takeWhile_cons_of_neg (by simp [hb]),
    List.append_nil]

theorem dropWhile_append_cons {α : Type} {p : α → Bool} {front : List α}
    (hfront : ∀ a ∈ front, p a = true) {b : α} (hb : p b = false) (rest : List α) :
    (front ++ b :: rest).dropWhile p = b :: rest := by
  rw [List.dropWhile_append_of_pos hfront, List.dropWhile_cons_of_neg (by simp [hb])]

namespace Numeral

/-- The number that digits of either case denote; a number has at least one digit. -/
def number? (base : Nat) (cs : List Char) : Option Nat :=
  if cs = [] then none else (cs.mapM (digit? base)).map (value base)

/-- A text is the numeral of a number in lower case, with `width` digits or, where these do not
suffice, with as many as are needed. -/
structure Writes (base width : Nat) (text : List Char) (n : Nat) : Prop where
  number?_eq : number? base text = some n
  lower : ∀ c ∈ text, c.toLower = c
  width_le : width ≤ text.length
  shortest : width < text.length → text.head? ≠ some '0'

/-- The number that a text is the numeral of, as `Writes` has it. -/
def written? (base width : Nat) (text : List Char) : Option Nat :=
  if (text.all fun c => c.toLower = c) = true ∧ width ≤ text.length ∧
      (text.length ≤ width ∨ text.head? ≠ some '0') then number? base text
  else none

theorem written?_eq_some_iff {base width n : Nat} {text : List Char} :
    written? base width text = some n ↔ Writes base width text n := by
  unfold written?
  constructor
  · intro h
    split at h
    · rename_i hform
      obtain ⟨hlower, hwidth, hshortest⟩ := hform
      refine ⟨h, by simpa using hlower, hwidth, fun hlong => ?_⟩
      exact hshortest.resolve_left (Nat.not_le.2 hlong)
    · cases h
  · rintro ⟨hnumber, hlower, hwidth, hshortest⟩
    have hform : text.length ≤ width ∨ text.head? ≠ some '0' :=
      (Nat.lt_or_ge width text.length).symm.imp id hshortest
    rw [if_pos ⟨by simpa using hlower, hwidth, hform⟩, hnumber]

/-- Whether a character is a digit of a base, in either case. -/
def isDigit (base : Nat) (c : Char) : Bool := (digit? base c).isSome

/-! ### Digits -/

theorem digits_of_lt {base n : Nat} (h : n < base) : digits base n = [n] := by
  rw [digits, dif_pos (.inl h)]

theorem digits_of_le {base n : Nat} (hbase : 2 ≤ base) (h : base ≤ n) :
    digits base n = digits base (n / base) ++ [n % base] := by
  have hlong : ¬ (n < base ∨ base < 2) := by omega
  rw [digits, dif_neg hlong]

theorem digits_ne_nil (base n : Nat) : digits base n ≠ [] := by
  rw [digits]
  split <;> simp

/-- A number other than zero is written without a zero in front. -/
theorem head?_digits {base n : Nat} (hbase : 2 ≤ base) (hn : 0 < n) :
    (digits base n).head? ≠ some 0 := by
  fun_induction digits base n with
  | case1 n h =>
    intro hzero
    have hn0 : n = 0 := by simpa using hzero
    omega
  | case2 n h ih =>
    have hhead := List.head?_eq_some_head (digits_ne_nil base (n / base))
    have hfront := ih (Nat.div_pos (by omega) (by omega))
    rw [hhead] at hfront
    rwa [List.head?_append, hhead, Option.some_or]

/-- Zeros in front do not count. -/
theorem value_replicate_append (base k : Nat) (ds : List Nat) :
    value base (List.replicate k 0 ++ ds) = value base ds := by
  induction k with
  | zero => rfl
  | succ k ih =>
    rw [List.replicate_succ, List.cons_append, ← ih]
    simp [value]

/-- Written digits are read as they were. -/
theorem mapM_digit?_map {base : Nat} (hbase : base ≤ 16) {ds : List Nat}
    (h : ∀ d ∈ ds, d < base) : (ds.map Nat.digitChar).mapM (digit? base) = some ds := by
  have hread := mapM_map_eq_some fun d hd => Hex.digit?_digitChar (h d hd) hbase
  rwa [List.map_id'] at hread

/-! ### Numerals -/

/-- The digits of a numeral that is filled up with zeros. -/
def paddedDigits (base width n : Nat) : List Nat :=
  List.replicate (width - (digits base n).length) 0 ++ digits base n

theorem padded_eq (base width n : Nat) :
    padded base width n = (paddedDigits base width n).map Nat.digitChar := by
  rw [padded, chars, List.leftpad, paddedDigits, List.map_append, List.map_replicate,
    List.length_map]
  rfl

theorem chars_eq_padded (base n : Nat) : chars base n = padded base 1 n := by
  have hlen : 1 - (digits base n).length = 0 := by
    have := List.length_pos_iff.2 (digits_ne_nil base n)
    omega
  rw [padded_eq, paddedDigits, hlen]
  rfl

theorem paddedDigits_lt {base : Nat} (hbase : 2 ≤ base) (width n : Nat) :
    ∀ d ∈ paddedDigits base width n, d < base := by
  intro d hd
  rcases List.mem_append.1 hd with hd | hd
  · rw [List.eq_of_mem_replicate hd]
    omega
  · exact digits_lt hbase d hd

/-- A numeral that is filled up with zeros writes its number. -/
theorem writes_padded {base : Nat} (hbase : 2 ≤ base) (hmax : base ≤ 16) {width : Nat}
    (hwidth : 0 < width) (n : Nat) : Writes base width (padded base width n) n := by
  have hlt := paddedDigits_lt hbase width n
  have hne : paddedDigits base width n ≠ [] := by
    simp [paddedDigits, digits_ne_nil]
  have hlen : (paddedDigits base width n).length =
      width - (digits base n).length + (digits base n).length := by
    simp [paddedDigits]
  rw [padded_eq]
  refine ⟨?_, ?_, ?_, ?_⟩
  · rw [number?, if_neg (by simpa using hne), mapM_digit?_map hmax hlt, Option.map_some,
      paddedDigits, value_replicate_append, value_digits]
  · intro c hc
    obtain ⟨d, hd, rfl⟩ := List.mem_map.1 hc
    have hd16 : d < 16 := Nat.lt_of_lt_of_le (hlt d hd) hmax
    exact Hex.toLower_digitChar hd16
  · rw [List.length_map]
    omega
  · intro hlong hzero
    rw [List.length_map] at hlong
    -- Nothing was filled up, and a number with more than one digit is not zero.
    have hfill : width - (digits base n).length = 0 := by omega
    have hn : 0 < n := by
      apply Nat.pos_of_ne_zero
      rintro rfl
      rw [digits_of_lt (by omega)] at hlen hfill
      simp only [List.length_singleton] at hlen hfill
      omega
    rw [paddedDigits, hfill, List.replicate_zero, List.nil_append, List.head?_map] at hzero
    obtain ⟨d, hd, hchar⟩ := Option.map_eq_some_iff.1 hzero
    have hd16 : d < 16 := Nat.lt_of_lt_of_le (digits_lt hbase d (List.mem_of_head? hd)) hmax
    have hvalue := Hex.digit?_digitChar hd16 (Nat.le_refl 16)
    rw [hchar] at hvalue
    have hd0 : d = 0 := by
      have hzero : digit? 16 '0' = some 0 := by decide
      exact Option.some.inj (hvalue.symm.trans hzero)
    rw [hd0] at hd
    exact head?_digits hbase hn hd

/-- A numeral writes its number with no more digits than are needed. -/
theorem writes_chars {base : Nat} (hbase : 2 ≤ base) (hmax : base ≤ 16) (n : Nat) :
    Writes base 1 (chars base n) n := by
  rw [chars_eq_padded]
  exact writes_padded hbase hmax Nat.one_pos n

/-- Numerals are made of hexadecimal digits. -/
theorem isDigit_of_mem_padded {base width n : Nat} (hbase : 2 ≤ base) (hmax : base ≤ 16) {c : Char}
    (h : c ∈ padded base width n) : Hex.IsDigit c := by
  rw [padded_eq] at h
  obtain ⟨d, hd, rfl⟩ := List.mem_map.1 h
  exact Hex.isDigit_digitChar (Nat.lt_of_lt_of_le (paddedDigits_lt hbase width n d hd) hmax)

/-- Numerals are made of digits of their base. -/
theorem isDigit_of_padded {base width n : Nat} (hbase : 2 ≤ base) (hmax : base ≤ 16) {c : Char}
    (h : c ∈ padded base width n) : isDigit base c = true := by
  rw [padded_eq] at h
  obtain ⟨d, hd, rfl⟩ := List.mem_map.1 h
  rw [isDigit, Hex.digit?_digitChar (paddedDigits_lt hbase width n d hd) hmax]
  rfl

/-- A numeral begins with a digit. -/
theorem exists_chars_cons {base : Nat} (hbase : 2 ≤ base) (hmax : base ≤ 16) (n : Nat) :
    ∃ c cs, chars base n = c :: cs ∧ Hex.IsDigit c := by
  have hne : chars base n ≠ [] := fun h => digits_ne_nil base n (List.map_eq_nil_iff.1 h)
  obtain ⟨c, cs, hchars⟩ := List.exists_cons_of_ne_nil hne
  have hmem : c ∈ padded base 1 n := by
    rw [← chars_eq_padded, hchars]
    exact List.mem_cons_self
  exact ⟨c, cs, hchars, isDigit_of_mem_padded hbase hmax hmem⟩

theorem isDigit_of_chars {base n : Nat} (hbase : 2 ≤ base) (hmax : base ≤ 16) {c : Char}
    (h : c ∈ chars base n) : isDigit base c = true := by
  rw [chars_eq_padded] at h
  exact isDigit_of_padded hbase hmax h

theorem isDigit_of_mem_chars {base n : Nat} (hbase : 2 ≤ base) (hmax : base ≤ 16) {c : Char}
    (h : c ∈ chars base n) : Hex.IsDigit c := by
  rw [chars_eq_padded] at h
  exact isDigit_of_mem_padded hbase hmax h

/-- A number of `4 * k` bits has at most `k` hexadecimal digits. -/
theorem length_digits_le {k n : Nat} (h : n >>> (4 * (k + 1)) = 0) :
    (digits 16 n).length ≤ k + 1 := by
  induction k generalizing n with
  | zero =>
    have hlt : n < 16 := by
      rw [Nat.shiftRight_eq_div_pow] at h
      omega
    rw [digits_of_lt hlt]
    exact Nat.le_refl 1
  | succ k ih =>
    by_cases hlt : n < 16
    · rw [digits_of_lt hlt, List.length_singleton]
      omega
    · have hrest : (n / 16) >>> (4 * (k + 1)) = 0 := by
        have hshift : n / 16 = n >>> 4 := (Nat.shiftRight_eq_div_pow n 4).symm
        rw [hshift, ← Nat.shiftRight_add]
        exact Eq.trans (congrArg (n >>> ·) (by omega)) h
      rw [digits_of_le (by decide) (by omega), List.length_append, List.length_singleton]
      have := ih hrest
      omega

theorem toList_decimal (n : Nat) : (decimal n).toList = chars 10 n := String.toList_ofList

/-! ### Reading -/

/-- A numeral without the plus sign that may stand in front of it. -/
def unsigned : List Char → List Char
  | '+' :: cs => cs
  | cs => cs

theorem unsigned_of_ne {c : Char} (h : c ≠ '+') (cs : List Char) :
    unsigned (c :: cs) = c :: cs := by
  unfold unsigned
  split
  · rename_i heq
    exact absurd (List.cons.inj heq).1 h
  · rfl

theorem number?_eq_some_iff {base n : Nat} {cs : List Char} :
    number? base cs = some n ↔
      cs ≠ [] ∧ ∃ ds, cs.mapM (digit? base) = some ds ∧ value base ds = n := by
  unfold number?
  split
  · simp_all
  · simp_all

/-- More digits do not make a number smaller. -/
theorem le_foldl_digits {base : Nat} (hbase : 0 < base) (acc : Nat) (ds : List Nat) :
    acc ≤ ds.foldl (fun n d => n * base + d) acc := by
  induction ds generalizing acc with
  | nil => exact Nat.le_refl acc
  | cons d ds ih =>
    have hstep : acc ≤ acc * base + d :=
      Nat.le_trans (Nat.le_mul_of_pos_right acc hbase) (Nat.le_add_right _ d)
    exact Nat.le_trans hstep (ih _)

/-- Digits are read one after the other, as long as the number stays below the bound; since it never
shrinks, this is the case if the number that they denote is below the bound. -/
theorem readDigits_eq_ok_iff {base bound : Nat} (hbase : 0 < base) {acc n : Nat} {cs : List Char}
    (hacc : acc < bound) :
    readDigits base bound acc cs = .ok n ↔
      ∃ ds, cs.mapM (digit? base) = some ds ∧ ds.foldl (fun n d => n * base + d) acc = n ∧
        n < bound := by
  induction cs generalizing acc with
  | nil =>
    constructor
    · intro h
      cases h
      exact ⟨[], rfl, rfl, hacc⟩
    · rintro ⟨ds, hds, hn, -⟩
      cases hds
      exact congrArg Except.ok hn
  | cons c cs ih =>
    rw [readDigits, List.mapM_cons]
    cases hc : digit? base c with
    | none => simp
    | some d =>
      by_cases hnext : acc * base + d < bound
      · simp only [if_pos hnext, ih hnext]
        cases cs.mapM (digit? base) with
        | none => simp
        | some ds => simp
      · simp only [if_neg hnext]
        cases cs.mapM (digit? base) with
        | none => simp
        | some ds =>
          have hle := le_foldl_digits hbase (acc * base + d) ds
          simp
          omega

/-- A numeral is read if it is digits behind an optional plus sign and its number is below the
bound. -/
theorem read_eq_ok_iff {base bound : Nat} (hbase : 0 < base) (hbound : 0 < bound) {n : Nat}
    {cs : List Char} :
    read base bound cs = .ok n ↔ number? base (unsigned cs) = some n ∧ n < bound := by
  have hdigits : ∀ cs, cs ≠ [] →
      (readDigits base bound 0 cs = .ok n ↔ number? base cs = some n ∧ n < bound) := by
    intro cs hne
    rw [readDigits_eq_ok_iff hbase hbound, number?_eq_some_iff]
    constructor
    · rintro ⟨ds, hds, hn, hlt⟩
      exact ⟨⟨hne, ds, hds, hn⟩, hlt⟩
    · rintro ⟨⟨-, ds, hds, hn⟩, hlt⟩
      exact ⟨ds, hds, hn, hlt⟩
  cases cs with
  | nil => simp [read, unsigned, number?]
  | cons c cs =>
    by_cases hc : c = '+'
    · subst hc
      cases cs with
      | nil => simp [read, unsigned, number?]
      | cons d cs => exact hdigits (d :: cs) (List.cons_ne_nil d cs)
    · rw [Hex.read_of_ne_plus cs hc, unsigned_of_ne hc]
      exact hdigits (c :: cs) (List.cons_ne_nil c cs)

/-! ### Decimal numerals -/

/-- A text is a decimal numeral of a number: one or more of the ten digits, behind a plus sign or
not. Zeros may stand in front. -/
def IsDecimal (text : List Char) (n : Nat) : Prop :=
  ∃ ds, (text = ds ∨ text = '+' :: ds) ∧ ds ≠ [] ∧ (∀ c ∈ ds, '0' ≤ c ∧ c ≤ '9') ∧
    value 10 (ds.map fun c => c.toNat - '0'.toNat) = n

theorem digit?_ten (c : Char) :
    digit? 10 c = if '0' ≤ c ∧ c ≤ '9' then some (c.toNat - '0'.toNat) else none := by
  unfold digit?
  by_cases hc : '0' ≤ c ∧ c ≤ '9'
  · have hle : c.toNat ≤ '9'.toNat := hc.2
    have hlt : c.toNat - '0'.toNat < 10 := by
      change c.toNat - 48 < 10
      change c.toNat ≤ 57 at hle
      omega
    simp only [if_pos hc, if_pos hlt]
  · -- The letters have values from ten on.
    simp only [if_neg hc]
    split
    · exact if_neg (by omega)
    split
    · exact if_neg (by omega)
    · exact if_neg (by omega)

/-- The characters with a value are the ten digits. -/
theorem mapM_digit?_ten {cs : List Char} {ds : List Nat} :
    cs.mapM (digit? 10) = some ds ↔
      (∀ c ∈ cs, '0' ≤ c ∧ c ≤ '9') ∧ (cs.map fun c => c.toNat - '0'.toNat) = ds := by
  induction cs generalizing ds with
  | nil => simp
  | cons c cs ih =>
    rw [List.mapM_cons, digit?_ten, List.forall_mem_cons, List.map_cons]
    by_cases hc : '0' ≤ c ∧ c ≤ '9'
    · simp [hc, Option.bind_eq_some_iff, ih, and_assoc]
    · simp [hc]

/-- A plus sign in front is all that is taken off. -/
theorem eq_unsigned_or (cs : List Char) : cs = unsigned cs ∨ cs = '+' :: unsigned cs := by
  unfold unsigned
  split
  · exact .inr rfl
  · exact .inl rfl

theorem unsigned_of_digits {ds : List Char} (hne : ds ≠ [])
    (hdigits : ∀ c ∈ ds, '0' ≤ c ∧ c ≤ '9') : unsigned ds = ds := by
  obtain ⟨c, cs, rfl⟩ := List.exists_cons_of_ne_nil hne
  apply unsigned_of_ne
  rintro rfl
  exact absurd (hdigits '+' List.mem_cons_self) (by decide)

/-- The decimal numerals below the bound are the texts that are read. -/
theorem read_ten_eq_ok_iff {bound : Nat} (hbound : 0 < bound) {n : Nat} {text : List Char} :
    read 10 bound text = .ok n ↔ IsDecimal text n ∧ n < bound := by
  rw [read_eq_ok_iff (by decide) hbound, number?_eq_some_iff]
  apply and_congr_left'
  constructor
  · rintro ⟨hne, ds, hds, hn⟩
    obtain ⟨hdigits, rfl⟩ := mapM_digit?_ten.1 hds
    exact ⟨unsigned text, eq_unsigned_or text, hne, hdigits, hn⟩
  · rintro ⟨ds, htext, hne, hdigits, hn⟩
    have hunsigned : unsigned text = ds := by
      rcases htext with rfl | rfl
      · exact unsigned_of_digits hne hdigits
      · rfl
    rw [hunsigned]
    exact ⟨hne, _, mapM_digit?_ten.2 ⟨hdigits, rfl⟩, hn⟩

end Numeral

/-! ### Lines -/

namespace Lines

/-- The lines of a text, each of which ends in a line feed. -/
def read? (text : List Char) : Option (List (List Char)) :=
  let parts := text.splitOn '\n'
  if parts.getLast? = some [] then some parts.dropLast else none

/-- Lines that end in a line feed are lines with line feeds between them and nothing in the last. -/
theorem flatMap_eq_intercalate (ls : List (List Char)) :
    ls.flatMap (· ++ ['\n']) = ['\n'].intercalate (ls ++ [[]]) := by
  induction ls with
  | nil => rfl
  | cons l ls ih =>
    have hne : ls ++ [[]] ≠ [] := by simp
    rw [List.flatMap_cons, ih, List.cons_append, List.intercalate_cons_of_ne_nil hne]

/-- The lines of a text are those that it was put together from. -/
theorem read?_flatMap {ls : List (List Char)} (h : ∀ l ∈ ls, '\n' ∉ l) :
    read? (ls.flatMap (· ++ ['\n'])) = some ls := by
  have hparts : ∀ l ∈ ls ++ [[]], '\n' ∉ l := by
    intro l hl
    rcases List.mem_append.1 hl with hl | hl
    · exact h l hl
    · rw [List.mem_singleton.1 hl]
      exact List.not_mem_nil
  rw [read?, flatMap_eq_intercalate, List.splitOn_intercalate '\n' hparts (by simp)]
  simp

/-- A text of three parts with one space between each two of them is taken apart again. -/
theorem splitOn_three {first second third : List Char} (hfirst : ' ' ∉ first)
    (hsecond : ' ' ∉ second) (hthird : ' ' ∉ third) :
    (first ++ ' ' :: (second ++ ' ' :: third)).splitOn ' ' = [first, second, third] := by
  have hparts : ∀ l ∈ [first, second, third], ' ' ∉ l := by
    simp only [List.forall_mem_cons]
    exact ⟨hfirst, hsecond, hthird, List.forall_mem_nil _⟩
  have hjoin : first ++ ' ' :: (second ++ ' ' :: third) =
      [' '].intercalate [first, second, third] := by
    simp [List.intercalate_cons_cons]
  rw [hjoin, List.splitOn_intercalate ' ' hparts (by simp)]

end Lines

end WordMachine
