import Mathlib

/-!
# Splitting at runs of separators

`splitRuns p s` splits a text at every longest run of separators, as `Split` of a Go regular
expression `[...]+` does.  A run at the start or at the end leaves an empty piece there; inside
the text there is no empty piece.

A text is split from the left.  What is needed to take one apart that was put together is the
piece behind its last run (`splitRuns_append_run`).
-/

namespace Text

variable {α : Type*} {p : α → Bool} {w s : List α} {c : α}

/-- The pieces of a text between its runs of separators. -/
def splitRuns (p : α → Bool) : List α → List (List α)
  | [] => [[]]
  | c :: s =>
    if p c then
      -- inside a run nothing happens, at its end a piece begins
      if s.head?.any p then splitRuns p s else [] :: splitRuns p s
    else (splitRuns p s).modifyHead (c :: ·)

theorem splitRuns_cons_of_neg (hc : p c = false) (s : List α) :
    splitRuns p (c :: s) = (splitRuns p s).modifyHead (c :: ·) := by
  rw [splitRuns, if_neg (by simp [hc])]

theorem splitRuns_cons_of_run {d : α} (hc : p c = true) (hd : p d = true) (s : List α) :
    splitRuns p (c :: d :: s) = splitRuns p (d :: s) := by
  rw [splitRuns, if_pos hc, if_pos (by simp [hd])]

theorem splitRuns_cons_of_end (hc : p c = true) (hs : s.head?.any p = false) :
    splitRuns p (c :: s) = [] :: splitRuns p s := by
  rw [splitRuns, if_pos hc, if_neg (by simp [hs])]

theorem splitRuns_ne_nil (p : α → Bool) (s : List α) : splitRuns p s ≠ [] := by
  fun_induction splitRuns p s with
  | case1 => exact List.cons_ne_nil _ _
  | case2 c s hc hrun ih => exact ih
  | case3 c s hc hrun ih => exact List.cons_ne_nil _ _
  | case4 c s hc ih => rwa [Ne, List.modifyHead_eq_nil_iff]

/-- **A piece has no separator.** -/
theorem eq_false_of_mem_splitRuns (hw : w ∈ splitRuns p s) : ∀ a ∈ w, p a = false := by
  fun_induction splitRuns p s generalizing w with
  | case1 =>
    obtain rfl := List.mem_singleton.mp hw
    exact fun a ha => absurd ha List.not_mem_nil
  | case2 c s hc hrun ih => exact ih hw
  | case3 c s hc hrun ih =>
    rcases List.mem_cons.mp hw with rfl | hw
    · exact fun a ha => absurd ha List.not_mem_nil
    · exact ih hw
  | case4 c s hc ih =>
    obtain ⟨first, rest, hsplit⟩ := List.exists_cons_of_ne_nil (splitRuns_ne_nil p s)
    rw [hsplit] at ih
    rw [hsplit, List.modifyHead_cons] at hw
    rcases List.mem_cons.mp hw with rfl | hw
    · intro a ha
      rcases List.mem_cons.mp ha with rfl | ha
      · simpa using hc
      · exact ih List.mem_cons_self a ha
    · exact ih (List.mem_cons_of_mem first hw)

theorem splitRuns_of_forall (hw : ∀ a ∈ w, p a = false) : splitRuns p w = [w] := by
  induction w with
  | nil => rfl
  | cons c w ih =>
    rw [splitRuns_cons_of_neg (hw c List.mem_cons_self),
      ih fun a ha => hw a (List.mem_cons_of_mem c ha), List.modifyHead_cons]

theorem splitRuns_run_append {run : List α} (hne : run ≠ []) (hrun : ∀ a ∈ run, p a = true)
    (hw : ∀ a ∈ w, p a = false) : splitRuns p (run ++ w) = [[], w] := by
  induction run with
  | nil => exact absurd rfl hne
  | cons c run ih =>
    have hc : p c = true := hrun c List.mem_cons_self
    cases run with
    | nil =>
      have hhead : w.head?.any p = false := by
        cases w with
        | nil => rfl
        | cons a w => simpa using hw a List.mem_cons_self
      rw [List.singleton_append, splitRuns_cons_of_end hc hhead, splitRuns_of_forall hw]
    | cons d run =>
      have hd : p d = true := hrun d (List.mem_cons_of_mem c List.mem_cons_self)
      rw [List.cons_append, List.cons_append, splitRuns_cons_of_run hc hd]
      exact ih (List.cons_ne_nil d run) fun a ha => hrun a (List.mem_cons_of_mem c ha)

/-- **The piece behind a run.**  The text in front of the run is not empty and does not end in a
separator, so the run is a longest one. -/
theorem splitRuns_append_run {run : List α} (hs : s.getLast?.all (! p ·) = true) (hnil : s ≠ [])
    (hne : run ≠ []) (hrun : ∀ a ∈ run, p a = true) (hw : ∀ a ∈ w, p a = false) :
    splitRuns p (s ++ run ++ w) = splitRuns p s ++ [w] := by
  induction s with
  | nil => exact absurd rfl hnil
  | cons c s ih =>
    by_cases hempty : s = []
    · subst hempty
      have hc : p c = false := by simpa using hs
      rw [List.append_assoc, List.singleton_append, splitRuns_cons_of_neg hc,
        splitRuns_run_append hne hrun hw, splitRuns_cons_of_neg hc]
      rfl
    · obtain ⟨d, t, rfl⟩ := List.exists_cons_of_ne_nil hempty
      have hlater := ih (by rwa [List.getLast?_cons_cons] at hs) hempty
      rw [List.append_assoc] at hlater ⊢
      rw [List.cons_append]
      by_cases hc : p c = true
      · by_cases hd : p d = true
        · rw [splitRuns_cons_of_run hc hd, List.cons_append, splitRuns_cons_of_run hc hd,
            ← List.cons_append, hlater]
        · rw [splitRuns_cons_of_end hc (by simpa using hd),
            splitRuns_cons_of_end hc (by simpa using hd), hlater, List.cons_append]
      · have hc : p c = false := by simpa using hc
        obtain ⟨first, rest, hsplit⟩ := List.exists_cons_of_ne_nil (splitRuns_ne_nil p (d :: t))
        rw [splitRuns_cons_of_neg hc, splitRuns_cons_of_neg hc, hlater, hsplit, List.cons_append,
          List.modifyHead_cons, List.modifyHead_cons, List.cons_append]

/-- **The last piece** is what stands behind the last separator, and it is not the only one. -/
theorem splitRuns_append_cons (hc : p c = true) (s : List α) (hw : ∀ a ∈ w, p a = false) :
    ∃ ws ≠ [], splitRuns p (s ++ c :: w) = ws ++ [w] := by
  have hrun : ∀ a ∈ s.rtakeWhile p ++ [c], p a = true := by
    intro a ha
    rcases List.mem_append.mp ha with ha | ha
    · exact List.mem_rtakeWhile_imp ha
    · rwa [List.mem_singleton.mp ha]
  have hs : s ++ c :: w = s.rdropWhile p ++ (s.rtakeWhile p ++ [c]) ++ w := by
    have hsplit : s.rdropWhile p ++ s.rtakeWhile p = s := List.rdropWhile_append_rtakeWhile ..
    rw [← List.append_assoc, hsplit, List.append_assoc, List.singleton_append]
  rw [hs]
  by_cases hempty : s.rdropWhile p = []
  · exact ⟨[[]], List.cons_ne_nil _ _, by
      rw [hempty, List.nil_append, splitRuns_run_append (by simp) hrun hw]
      rfl⟩
  · refine ⟨splitRuns p (s.rdropWhile p), splitRuns_ne_nil p _,
      splitRuns_append_run ?_ hempty (by simp) hrun hw⟩
    rw [List.getLast?_eq_getLast_of_ne_nil hempty, Option.all_some, Bool.not_eq_true',
      ← Bool.not_eq_true]
    exact List.rdropWhile_last_not p s hempty

end Text
