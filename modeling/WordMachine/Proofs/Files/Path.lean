import WordMachine.Files.Path

/-! # Names of a path

The text of some of the names of a path is found, with gaps, in the text of the path
(`Path.toList_textOf_sublist`). So it is no longer than that text, and has no character that the
text does not have. -/

namespace WordMachine

/-- Leaving out parts leaves out what stands between them. -/
theorem sublist_intercalate {α : Type} {sep : List α} {few all : List (List α)}
    (h : few.Sublist all) : (sep.intercalate few).Sublist (sep.intercalate all) := by
  induction h with
  | slnil => exact .refl _
  | @cons few all part h ih =>
    by_cases hall : all = []
    · subst hall
      rw [List.sublist_nil.1 h]
      exact List.nil_sublist _
    · rw [List.intercalate_cons_of_ne_nil hall]
      exact ih.trans (List.sublist_append_right _ _)
  | @cons_cons few all part h ih =>
    by_cases hfew : few = []
    · subst hfew
      rw [List.intercalate_singleton]
      by_cases hall : all = []
      · simp [hall]
      · rw [List.intercalate_cons_of_ne_nil hall, List.append_assoc]
        exact List.sublist_append_left _ _
    · have hall : all ≠ [] := by
        rintro rfl
        exact hfew (List.sublist_nil.1 h)
      rw [List.intercalate_cons_of_ne_nil hall, List.intercalate_cons_of_ne_nil hfew]
      exact (List.Sublist.refl _).append ih

/-- A text is no longer than one that it is found in. -/
theorem utf8ByteSize_le_of_sublist {s t : String} (h : s.toList.Sublist t.toList) :
    s.utf8ByteSize ≤ t.utf8ByteSize := by
  rw [← String.ofList_toList (s := s), ← String.ofList_toList (s := t)]
  generalize s.toList = cs at h
  generalize t.toList = ds at h
  induction h with
  | slnil => exact Nat.le_refl _
  | cons c _ ih =>
    rw [String.ofList_cons, String.utf8ByteSize_append]
    omega
  | cons_cons c _ ih =>
    rw [String.ofList_cons, String.ofList_cons, String.utf8ByteSize_append,
      String.utf8ByteSize_append]
    omega

namespace Path

/-- Cut at its slashes, an absolute text has nothing in front of the first one. -/
theorem splitOn_of_absolute {text : String} (h : (ofText text).absolute = true) :
    ∃ rest, text.toList = '/' :: rest ∧ text.toList.splitOn '/' = [] :: rest.splitOn '/' := by
  have hhead : text.toList.head? = some '/' := beq_iff_eq.1 h
  obtain ⟨rest, htext⟩ := List.head?_eq_some_iff.1 hhead
  refine ⟨rest, htext, ?_⟩
  rw [htext, List.splitOn_cons_eq_if_modifyHead, if_pos (beq_self_eq_true '/')]

/-- The text of some of the names of a path is found in its text. -/
theorem toList_textOf_sublist {text : String} {names : List String}
    (h : names.Sublist (ofText text).names) :
    (textOf (ofText text).absolute names).toList.Sublist text.toList := by
  have hnames : names.Sublist (((text.toList.splitOn '/').map String.ofList).filter (· ≠ "")) := h
  -- Names that are some of the parts of a text make up a text that is found in it.
  have hjoin : ∀ cs : List Char, names.Sublist ((cs.splitOn '/').map String.ofList) →
      ("/".intercalate names).toList.Sublist cs := by
    intro cs hparts
    have hchars := hparts.map String.toList
    have hback : ((cs.splitOn '/').map String.ofList).map String.toList = cs.splitOn '/' := by
      simp [Function.comp_def]
    rw [hback] at hchars
    have hjoined : (['/'].intercalate (names.map String.toList)).Sublist
        (['/'].intercalate (cs.splitOn '/')) := sublist_intercalate hchars
    rw [List.intercalate_splitOn] at hjoined
    rw [String.toList_intercalate]
    exact hjoined
  cases habs : (ofText text).absolute with
  | false =>
    have hall := hjoin text.toList (hnames.trans List.filter_sublist)
    simpa [textOf] using hall
  | true =>
    obtain ⟨rest, htext, hcut⟩ := splitOn_of_absolute habs
    rw [hcut, List.map_cons, List.filter_cons_of_neg (by decide)] at hnames
    have hrest := hjoin rest (hnames.trans List.filter_sublist)
    rw [htext]
    simpa [textOf] using hrest

/-- Normal names are some of the names. -/
theorem normalNames_sublist (p : Path) : p.normalNames.Sublist p.names := by
  unfold normalNames
  split
  · rename_i hnames
    rw [hnames]
    exact List.filter_sublist.cons_cons here
  · exact List.filter_sublist

end Path

end WordMachine
