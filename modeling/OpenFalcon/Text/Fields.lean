import OpenFalcon.Text.Cut

/-!
# Texts and their spaces

`strings.TrimSpace` and `strings.Fields` of the Go library, on lists of characters.  The
fields of a text are the longest parts of it without a space; trimming does not change them
(`fields_trimSpace`), and there is nothing to trim in them (`trimSpace_of_forall`).  Padding the
lines of a text, and adding blank ones, does not change what trimming leaves of them
(`PadLines.filter_map_trimSpace`).
-/

namespace Text

/-- `unicode.IsSpace`. -/
def isSpace (c : Char) : Bool :=
  c.toNat ∈ [9, 10, 11, 12, 13, 32, 0x85, 0xa0, 0x1680, 0x2028, 0x2029, 0x202f, 0x205f,
    0x3000] ∨ (0x2000 ≤ c.toNat ∧ c.toNat ≤ 0x200a)

/-- `strings.TrimSpace`. -/
def trimSpace (s : List Char) : List Char := (s.dropWhile isSpace).rdropWhile isSpace

/-- `strings.Fields`. -/
def fields (s : List Char) : List (List Char) := (s.splitOnP isSpace).filter (· ≠ [])

theorem fields_nil : fields [] = [] := rfl

variable {c : Char}

theorem fields_append_cons (hc : isSpace c = true) (s t : List Char) :
    fields (s ++ c :: t) = fields s ++ fields t := by
  rw [fields, List.splitOnP_append_cons s t hc, List.filter_append]
  rfl

theorem fields_dropWhile (s : List Char) : fields (s.dropWhile isSpace) = fields s := by
  induction s with
  | nil => rfl
  | cons c s ih =>
    rw [List.dropWhile_cons]
    split_ifs with hc
    · rw [ih]
      exact (fields_append_cons hc [] s).symm
    · rfl

theorem fields_rdropWhile (s : List Char) : fields (s.rdropWhile isSpace) = fields s := by
  induction s using List.reverseRecOn with
  | nil => rfl
  | append_singleton s c ih =>
    rw [List.rdropWhile_concat]
    split_ifs with hc
    · rw [ih, fields_append_cons hc s [], fields_nil, List.append_nil]
    · rfl

/-- **Trimming does not change the fields.** -/
theorem fields_trimSpace (s : List Char) : fields (trimSpace s) = fields s := by
  rw [trimSpace, fields_rdropWhile, fields_dropWhile]

variable {s : List Char}

theorem trimSpace_of_forall (h : ∀ c ∈ s, isSpace c = false) : trimSpace s = s := by
  have hdrop : s.dropWhile isSpace = s := by
    cases s with
    | nil => rfl
    | cons c s => rw [List.dropWhile_cons_of_neg (by simp [h c List.mem_cons_self])]
  rw [trimSpace, hdrop, List.rdropWhile_eq_self_iff]
  intro hne
  simp [h _ (List.getLast_mem hne)]

/-- Dropping entries in front does not change a filtered text that begins with another one. -/
theorem filter_dropWhile {α : Type*} {p q : α → Bool} {s : List α}
    (h : (s.filter q).head?.all (! p ·) = true) : (s.dropWhile p).filter q = s.filter q := by
  induction s with
  | nil => rfl
  | cons c s ih =>
    rw [List.dropWhile_cons]
    split_ifs with hp
    · have hq : ¬q c = true := by
        intro hq
        rw [List.filter_cons_of_pos hq, List.head?_cons, Option.all_some, hp] at h
        exact absurd h (by decide)
      rw [List.filter_cons_of_neg hq] at h ⊢
      exact ih h
    · rfl

/-- **Trimming does not change a filtered text** that neither begins nor ends with a space. -/
theorem filter_trimSpace {q : Char → Bool} (hhead : (s.filter q).head?.all (! isSpace ·) = true)
    (hlast : (s.filter q).getLast?.all (! isSpace ·) = true) :
    (trimSpace s).filter q = s.filter q := by
  have hdrop := filter_dropWhile hhead
  rw [trimSpace, List.rdropWhile, List.filter_reverse, filter_dropWhile, List.filter_reverse,
    List.reverse_reverse, hdrop]
  rw [List.filter_reverse, List.head?_reverse, hdrop]
  exact hlast

theorem isSpace_of_mem_fields {w : List Char} (hw : w ∈ fields s) (hc : c ∈ w) :
    isSpace c = false :=
  (mem_pieceP (List.mem_filter.mp hw).1 hc).2

/-! ## Padding -/

/-- **Spaces around a text are trimmed.** -/
theorem trimSpace_append {pre post : List Char} (hpre : ∀ c ∈ pre, isSpace c = true)
    (hpost : ∀ c ∈ post, isSpace c = true) (s : List Char) :
    trimSpace (pre ++ s ++ post) = trimSpace s := by
  have hrear : ∀ t : List Char, (t ++ post).rdropWhile isSpace = t.rdropWhile isSpace := by
    intro t
    rw [List.rdropWhile, List.reverse_append, List.dropWhile_append_of_pos, List.rdropWhile]
    exact fun c hc => hpost c (List.mem_reverse.mp hc)
  unfold trimSpace
  rw [List.append_assoc, List.dropWhile_append_of_pos hpre, List.dropWhile_append]
  split_ifs with hblank
  · rw [List.isEmpty_iff.mp hblank, List.dropWhile_eq_nil_iff.mpr hpost]
  · exact hrear _

/-- A space, a tab or a carriage return. -/
def isPad (c : Char) : Bool := c = ' ' ∨ c = '\t' ∨ c = '\r'

theorem isSpace_of_isPad (h : isPad c = true) : isSpace c = true := by
  rcases of_decide_eq_true h with rfl | rfl | rfl <;> decide

/-- The second list has the lines of the first, with padding around them, and blank lines. -/
inductive PadLines : List (List Char) → List (List Char) → Prop where
  | nil : PadLines [] []
  | line {pre line post : List Char} {lines lines' : List (List Char)} :
      (∀ c ∈ pre, isPad c = true) → (∀ c ∈ post, isPad c = true) → PadLines lines lines' →
        PadLines (line :: lines) ((pre ++ line ++ post) :: lines')
  | blank {line : List Char} {lines lines' : List (List Char)} :
      (∀ c ∈ line, isPad c = true) → PadLines lines lines' → PadLines lines (line :: lines')

/-- **Trimming undoes padding**: what is left of the lines that are not blank is the same. -/
theorem PadLines.filter_map_trimSpace {lines lines' : List (List Char)}
    (h : PadLines lines lines') :
    (lines'.map trimSpace).filter (· ≠ []) = (lines.map trimSpace).filter (· ≠ []) := by
  induction h with
  | nil => rfl
  | line hpre hpost _ ih =>
    have htrim := trimSpace_append (fun c hc => isSpace_of_isPad (hpre c hc))
      (fun c hc => isSpace_of_isPad (hpost c hc))
    rw [List.map_cons, List.map_cons, htrim, List.filter_cons, List.filter_cons, ih]
  | @blank line _ _ hline _ ih =>
    have htrim : trimSpace line = [] := by
      have hall := trimSpace_append (fun c hc => isSpace_of_isPad (hline c hc))
        (fun _ hc => absurd hc List.not_mem_nil) []
      rwa [List.append_nil, List.append_nil] at hall
    rw [List.map_cons, htrim, List.filter_cons_of_neg (by decide), ih]

end Text
