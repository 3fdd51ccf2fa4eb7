import Mathlib

/-!
# Replacing texts in texts

`replaceAll old new s` puts `new` for every occurrence of `old`, from left to right and without
looking at what was put in, as `strings.Replace` of the Go library does for an `old` that is not
empty.  It is structural: `replaceFrom old new n` is what is left to do in a text whose first `n`
entries belong to an occurrence that was replaced.

Replacing single entries is a map of the entries (`replaceAll_singleton`), and where an entry of
`old` is missing nothing happens (`replaceAll_of_notMem`).
-/

namespace Text

variable {α : Type*} [DecidableEq α] {old new s : List α} {a : α}

/-- Replace in the text without its first `n` entries. -/
def replaceFrom (old new : List α) : ℕ → List α → List α
  | _, [] => []
  | n + 1, _ :: s => replaceFrom old new n s
  | 0, c :: s =>
    if old <+: c :: s then new ++ replaceFrom old new (old.length - 1) s
    else c :: replaceFrom old new 0 s

/-- `strings.Replace(s, old, new, -1)`. -/
def replaceAll (old new s : List α) : List α := replaceFrom old new 0 s

@[simp] theorem replaceAll_nil : replaceAll old new [] = [] := rfl

theorem replaceAll_cons_of_neg {c : α} (h : ¬old <+: c :: s) :
    replaceAll old new (c :: s) = c :: replaceAll old new s := by
  rw [replaceAll, replaceFrom, if_neg h]
  rfl

theorem replaceAll_singleton (a : α) (new s : List α) :
    replaceAll [a] new s = s.flatMap fun c => if c = a then new else [c] := by
  induction s with
  | nil => rfl
  | cons c s ih =>
    rw [List.flatMap_cons, ← ih, replaceAll, replaceFrom]
    by_cases hc : c = a
    · subst hc
      simp [replaceAll]
    · have hnot : ¬[a] <+: c :: s := by
        rw [List.cons_prefix_cons]
        exact fun h => hc h.1.symm
      simp [hc, hnot, replaceAll]

theorem replaceAll_map (a b : α) (s : List α) :
    replaceAll [a] [b] s = s.map fun c => if c = a then b else c := by
  rw [replaceAll_singleton, List.map_eq_flatMap]
  congr 1
  funext c
  split_ifs <;> rfl

theorem replaceAll_singleton_nil (a : α) (s : List α) : replaceAll [a] [] s = s.filter (· ≠ a) := by
  rw [replaceAll_singleton]
  induction s with
  | nil => rfl
  | cons c s ih =>
    rw [List.flatMap_cons, ih]
    by_cases hc : c = a <;> simp [hc]

theorem replaceAll_of_notMem (hold : a ∈ old) (h : a ∉ s) : replaceAll old new s = s := by
  induction s with
  | nil => rfl
  | cons c s ih =>
    rw [replaceAll_cons_of_neg fun hpre => h (hpre.subset hold),
      ih fun hs => h (List.mem_cons_of_mem c hs)]

theorem map_replace_map_replace {b : α} (h : b ∉ s) :
    (s.map fun c => if c = a then b else c).map (fun c => if c = b then a else c) = s := by
  rw [List.map_map]
  conv_rhs => rw [← List.map_id s]
  refine List.map_congr_left fun c hc => ?_
  have hcb : c ≠ b := fun heq => h (heq ▸ hc)
  simp only [Function.comp_apply, id_eq]
  split_ifs with hca
  · exact hca.symm
  · exact absurd rfl ‹_›
  · rfl

end Text
