import Mathlib

/-!
# Cutting at texts, and trimming

`splitText sep s` cuts `s` at every occurrence of the text `sep`, from left to right and without
overlaps, as `strings.Split` of the Go library does for a `sep` that is not empty.  It is
structural: `splitFrom sep n` is what is left to do in a text whose first `n` entries belong to a
separator that was found.

`trim c s` takes the entry `c` from both ends, as `strings.Trim` does.  It leaves exactly the texts
alone that neither begin nor end with `c` (`trim_eq_iff`).
-/

namespace Text

variable {α : Type*} [DecidableEq α] {c : α}

/-! ## Cutting -/

/-- Cut the text without its first `n` entries. -/
def splitFrom (sep : List α) : ℕ → List α → List (List α)
  | _, [] => [[]]
  | n + 1, _ :: s => splitFrom sep n s
  | 0, c :: s =>
    if sep <+: c :: s then [] :: splitFrom sep (sep.length - 1) s
    else (splitFrom sep 0 s).modifyHead (c :: ·)

/-- `strings.Split(s, sep)`. -/
def splitText (sep s : List α) : List (List α) := splitFrom sep 0 s

theorem splitFrom_append (sep w s : List α) :
    splitFrom sep w.length (w ++ s) = splitFrom sep 0 s := by
  induction w with
  | nil => rfl
  | cons c w ih => exact ih

theorem splitText_sep_append (c : α) (sep s : List α) :
    splitText (c :: sep) (c :: sep ++ s) = [] :: splitText (c :: sep) s := by
  have hpre : c :: sep <+: c :: (sep ++ s) := List.prefix_append (c :: sep) s
  rw [splitText, List.cons_append, splitFrom, if_pos hpre, List.length_cons, Nat.add_sub_cancel,
    splitFrom_append]
  rfl

/-- A text without the first entry of the separator belongs to the first piece. -/
theorem splitText_append {sep w : List α} (hw : c ∉ w) (s : List α) :
    splitText (c :: sep) (w ++ s) = (splitText (c :: sep) s).modifyHead (w ++ ·) := by
  induction w with
  | nil =>
    rw [List.nil_append]
    cases splitText (c :: sep) s <;> rfl
  | cons d w ih =>
    have hne : ¬ c :: sep <+: d :: (w ++ s) := by
      rw [List.cons_prefix_cons]
      exact fun h => hw (h.1 ▸ List.mem_cons_self)
    rw [splitText, List.cons_append, splitFrom, if_neg hne]
    show (splitText (c :: sep) (w ++ s)).modifyHead (d :: ·) = _
    rw [ih fun h => hw (List.mem_cons_of_mem d h)]
    cases splitText (c :: sep) s <;> rfl

/-! ## Trimming -/

/-- `strings.Trim(s, c)`, for a single entry. -/
def trim (c : α) (s : List α) : List α :=
  (s.dropWhile fun a => decide (a = c)).rdropWhile fun a => decide (a = c)

theorem isInfix_trim (c : α) (s : List α) : trim c s <:+: s :=
  (List.rdropWhile_prefix _ _).isInfix.trans (List.dropWhile_suffix _).isInfix

theorem head?_trim_ne (c : α) (s : List α) : (trim c s).head? ≠ some c := by
  intro h
  obtain ⟨t, ht⟩ :=
    List.rdropWhile_prefix (fun a => decide (a = c)) (s.dropWhile fun a => decide (a = c))
  have hhead : (s.dropWhile fun a => decide (a = c)).head? = some c := by
    rw [← ht, List.head?_append]
    exact Option.or_eq_some_iff.mpr (Or.inl h)
  have hnot := List.head?_dropWhile_not (fun a => decide (a = c)) s
  rw [hhead] at hnot
  simp at hnot

/-- **A text is left alone if it neither begins nor ends with the entry.** -/
theorem trim_eq_iff {s : List α} : trim c s = s ↔ s.head? ≠ some c ∧ s.getLast? ≠ some c := by
  have hfront : s.dropWhile (fun a => decide (a = c)) = s ↔ s.head? ≠ some c := by
    cases s with
    | nil => simp
    | cons a s => simp [List.dropWhile_eq_self_iff]
  have hback : s.rdropWhile (fun a => decide (a = c)) = s ↔ s.getLast? ≠ some c := by
    rw [List.rdropWhile_eq_self_iff]
    cases s using List.reverseRecOn with
    | nil => simp
    | append_singleton s a => simp
  constructor
  · intro h
    have hle := (List.rdropWhile_prefix (fun a => decide (a = c))
      (s.dropWhile fun a => decide (a = c))).length_le
    have hlength : (trim c s).length = s.length := congrArg List.length h
    have hdrop : s.dropWhile (fun a => decide (a = c)) = s :=
      (List.dropWhile_suffix _).eq_of_length_le (hlength.symm.le.trans hle)
    rw [trim, hdrop] at h
    exact ⟨hfront.mp hdrop, hback.mp h⟩
  · rintro ⟨hhead, hlast⟩
    rw [trim, hfront.mpr hhead, hback.mpr hlast]

end Text
