import OpenFalcon.Text.Cut

/-!
# Lines and words

A text made of lines, each ended by a separator, can be read back only if no line has the
separator in it.  Then it has one reading: lines without separators are the only ones, of
their number, that make the text (`unlines_inj`).  A writer that puts separators into its
lines makes more lines than it has (`count_unlines`), so its text has no reading with one line
for each of its own (`eq_of_unlines_eq`).

`words` are the parts of a line between blanks, the empty ones left out.  The text of an
integer is one word: it has nothing in it but digits and a sign (`notMem_toString`).
-/

namespace Text

variable {α : Type*} [DecidableEq α]

/-! ## Lines -/

omit [DecidableEq α] in
/-- Lines, each ended by a separator. -/
def unlines (sep : α) (lines : List (List α)) : List α := lines.flatMap fun l => l ++ [sep]

variable {sep : α} {lines lines' : List (List α)}

omit [DecidableEq α] in
@[simp] theorem unlines_nil : unlines sep [] = [] := rfl

omit [DecidableEq α] in
@[simp] theorem unlines_cons (l : List α) (lines : List (List α)) :
    unlines sep (l :: lines) = l ++ sep :: unlines sep lines := by
  simp [unlines]

/-- A text has a separator for every line, and those in its lines. -/
theorem count_unlines (lines : List (List α)) :
    (unlines sep lines).count sep = lines.length + (lines.map (List.count sep)).sum := by
  induction lines with
  | nil => rfl
  | cons l lines ih =>
    rw [unlines_cons, List.count_append, List.count_cons_self, ih, List.length_cons,
      List.map_cons, List.sum_cons]
    omega

/-- **Lines without separators have one reading.** -/
theorem unlines_inj (h : ∀ l ∈ lines, sep ∉ l) (h' : ∀ l ∈ lines', sep ∉ l)
    (heq : unlines sep lines = unlines sep lines') : lines = lines' := by
  induction lines generalizing lines' with
  | nil =>
    cases lines' with
    | nil => rfl
    | cons l' lines' => simp at heq
  | cons l lines ih =>
    cases lines' with
    | nil => simp at heq
    | cons l' lines' =>
      rw [unlines_cons, unlines_cons] at heq
      obtain ⟨rfl, hrest⟩ :=
        eq_of_append_cons_eq (h l List.mem_cons_self) (h' l' List.mem_cons_self) heq
      rw [ih (fun l hl => h l (List.mem_cons_of_mem _ hl))
        (fun l hl => h' l (List.mem_cons_of_mem _ hl)) hrest]

/-- **A text of lines without separators** is made by no other lines of the same number. -/
theorem eq_of_unlines_eq (h : ∀ l ∈ lines, sep ∉ l) (hlength : lines'.length = lines.length)
    (heq : unlines sep lines' = unlines sep lines) : lines' = lines := by
  have hzero : ∀ ls : List (List α), (ls.map (List.count sep)).sum = 0 ↔ ∀ l ∈ ls, sep ∉ l := by
    intro ls
    rw [List.sum_eq_zero_iff]
    simp [List.count_eq_zero]
  have hcount := congrArg (List.count sep) heq
  rw [count_unlines, count_unlines, hlength, (hzero lines).mpr h] at hcount
  exact unlines_inj ((hzero lines').mp (by omega)) h heq

/-! ## Words -/

/-- The parts of a text between blanks that are not empty. -/
def words (blank : α) (s : List α) : List (List α) := (s.splitOn blank).filter (· ≠ [])

variable {blank : α}

@[simp] theorem words_nil : words blank [] = [] := by simp [words]

theorem words_append_cons (s t : List α) :
    words blank (s ++ blank :: t) = words blank s ++ words blank t := by
  rw [words, List.splitOn_eq_splitOnP, List.splitOnP_append_cons s t (by simp),
    List.filter_append, ← List.splitOn_eq_splitOnP, ← List.splitOn_eq_splitOnP]
  rfl

/-- **One word** is a text without blanks that is not empty. -/
theorem words_eq_singleton_iff {s : List α} (hs : s ≠ []) : words blank s = [s] ↔ blank ∉ s := by
  constructor
  · intro h
    have hmem : s ∈ words blank s := by
      rw [h]
      exact List.mem_singleton_self s
    exact notMem_of_mem_splitOn (List.mem_filter.mp hmem).1
  · intro h
    have hsplit : s.splitOn blank = [s] := by
      rw [List.splitOn_eq_splitOnP, List.splitOnP_eq_singleton]
      intro c hc
      simpa using fun heq : c = blank => h (heq ▸ hc)
    rw [words, hsplit]
    simp [hs]

theorem words_flatMap {ws : List (List α)} (h : ∀ w ∈ ws, w ≠ [] ∧ blank ∉ w) :
    words blank (ws.flatMap fun w => w ++ [blank]) = ws := by
  induction ws with
  | nil => simp
  | cons w ws ih =>
    obtain ⟨hne, hblank⟩ := h w List.mem_cons_self
    rw [List.flatMap_cons, List.append_assoc, List.singleton_append, words_append_cons,
      (words_eq_singleton_iff hne).mpr hblank, ih fun w hw => h w (List.mem_cons_of_mem _ hw)]
    rfl

/-! ## Integers -/

theorem toList_toString_ofNat (n : ℕ) : (toString (Int.ofNat n)).toList = Nat.toDigits 10 n := by
  simp [toString, Int.repr]

theorem toList_toString_negSucc (n : ℕ) :
    (toString (Int.negSucc n)).toList = '-' :: Nat.toDigits 10 (n + 1) := by
  simp [toString, Int.repr]

theorem toString_ne_nil (n : Int) : (toString n).toList ≠ [] := by
  cases n with
  | ofNat n =>
    rw [toList_toString_ofNat]
    exact Nat.toDigits_ne_nil
  | negSucc n =>
    rw [toList_toString_negSucc]
    exact List.cons_ne_nil _ _

/-- **The text of a number has nothing in it** but digits and a sign. -/
theorem notMem_toString (n : Int) {c : Char} (hdigit : c.isDigit = false) (hminus : c ≠ '-') :
    c ∉ (toString n).toList := by
  have hdigits : ∀ m : ℕ, c ∉ Nat.toDigits 10 m := fun m hc => by
    rw [Nat.isDigit_of_mem_toDigits (by decide) (by decide) hc] at hdigit
    cases hdigit
  cases n with
  | ofNat n =>
    rw [toList_toString_ofNat]
    exact hdigits n
  | negSucc n =>
    rw [toList_toString_negSucc, List.mem_cons, not_or]
    exact ⟨hminus, hdigits _⟩

/-- **Numbers with the same text are the same.** -/
theorem toString_inj {m n : Int} (h : toString m = toString n) : m = n := by
  have hminus : ∀ (m : ℕ) (rest : List Char), Nat.toDigits 10 m ≠ '-' :: rest := by
    intro m rest heq
    have hdigit : '-'.isDigit = true :=
      Nat.isDigit_of_mem_toDigits (b := 10) (n := m) (by decide) (by decide) (by simp [heq])
    cases hdigit
  have hdigits : ∀ m n : ℕ, Nat.toDigits 10 m = Nat.toDigits 10 n → m = n := by
    intro m n heq
    rw [← Nat.ofDigitChars_ten_toDigits (n := m), heq, Nat.ofDigitChars_ten_toDigits]
  have hlist := congrArg String.toList h
  match m, n with
  | .ofNat m, .ofNat n =>
    rw [toList_toString_ofNat, toList_toString_ofNat] at hlist
    rw [hdigits m n hlist]
  | .ofNat m, .negSucc n =>
    rw [toList_toString_ofNat, toList_toString_negSucc] at hlist
    exact absurd hlist (hminus m _)
  | .negSucc m, .ofNat n =>
    rw [toList_toString_ofNat, toList_toString_negSucc] at hlist
    exact absurd hlist.symm (hminus n _)
  | .negSucc m, .negSucc n =>
    rw [toList_toString_negSucc, toList_toString_negSucc] at hlist
    have heq := hdigits _ _ (List.cons.inj hlist).2
    rw [Nat.succ.inj heq]

end Text
