import OpenFalcon.Text.Cut

/-!
# Records `k=v` with separators between them

`render sep eq` writes pairs as `k=v,k=v,...`, and `records sep eq` reads them back: it splits
at every separator and cuts each piece at its first `eq`.  Nothing is escaped, so this is a
round trip exactly for pairs without separators in them (`Clean`), and whatever was read is
clean (`records_render`, `clean_of_mem_records`).

Reading drops pieces and repeated keys, and writing puts back less than was there.  In any
measure of length, distinct pieces of a text, written again, are not longer than the text
(`weight_intercalate_le`).
-/

namespace Text

variable {α : Type*} {sep eq c : α} {p : List α × List α}

/-! ## Writing -/

/-- One pair, `k=v`. -/
def field (eq : α) (p : List α × List α) : List α := p.1 ++ eq :: p.2

/-- Pairs with separators between them. -/
def render (sep eq : α) (ps : List (List α × List α)) : List α :=
  [sep].intercalate (ps.map (field eq))

/-- A pair that can be written and read back. -/
structure Clean (sep eq : α) (p : List α × List α) : Prop where
  eq_notMem : eq ∉ p.1
  sep_notMem_key : sep ∉ p.1
  sep_notMem_value : sep ∉ p.2

/-- Pairs of texts as entries of a map. -/
def pairEntries (ps : List (List Char × List Char)) : List (Σ _ : String, String) :=
  ps.map fun p => ⟨String.ofList p.1, String.ofList p.2⟩

theorem Clean.sep_notMem_field (h : Clean sep eq p) (hne : sep ≠ eq) : sep ∉ field eq p := by
  simp [field, h.sep_notMem_key, h.sep_notMem_value, hne]

variable {ws : List (List α)}

theorem mem_intercalate (h : c ∈ [sep].intercalate ws) : c = sep ∨ ∃ s ∈ ws, c ∈ s := by
  induction ws with
  | nil => exact absurd h (by simp)
  | cons s ws ih =>
    cases ws with
    | nil =>
      rw [List.intercalate_singleton] at h
      exact Or.inr ⟨s, List.mem_singleton_self s, h⟩
    | cons t ws =>
      rw [List.intercalate_cons_cons, List.mem_append, List.mem_append, List.mem_singleton] at h
      rcases h with (h | h) | h
      · exact Or.inr ⟨s, List.mem_cons_self, h⟩
      · exact Or.inl h
      · rcases ih h with h | ⟨u, hu, h⟩
        · exact Or.inl h
        · exact Or.inr ⟨u, List.mem_cons_of_mem s hu, h⟩

/-! ## Length -/

section

variable (w : α → ℕ)

/-- The length of a text, each entry counted with a weight. -/
def weight (s : List α) : ℕ := (s.map w).sum

@[simp] theorem weight_append (s t : List α) : weight w (s ++ t) = weight w s + weight w t := by
  simp [weight]

/-- Between `n` pieces there are `n - 1` separators. -/
theorem weight_intercalate (h : ws ≠ []) :
    weight w ([sep].intercalate ws) + w sep = (ws.map fun s => weight w s + w sep).sum := by
  induction ws with
  | nil => exact absurd rfl h
  | cons s ws ih =>
    cases ws with
    | nil => simp
    | cons t ws =>
      have hrest := ih (List.cons_ne_nil t ws)
      rw [List.intercalate_cons_cons, List.map_cons, List.sum_cons, ← hrest]
      simp only [weight_append]
      simp only [weight, List.map_cons, List.map_nil, List.sum_cons, List.sum_nil]
      omega

theorem weight_filter_le (p : α → Bool) (s : List α) : weight w (s.filter p) ≤ weight w s :=
  (List.filter_sublist.map w).sum_le_sum fun _ _ => Nat.zero_le _

end

/-! ## Reading -/

variable [DecidableEq α]

/-- The pieces of a text, cut at their first `eq`; a piece without one has no pair. -/
def records (sep eq : α) (s : List α) : List (Option (List α × List α)) :=
  (s.splitOn sep).map (cut eq)

theorem cut_field (h : eq ∉ p.1) : cut eq (field eq p) = some p :=
  cut_append_cons h p.2

/-- **Clean pairs are read back.** -/
theorem records_render (hne : sep ≠ eq) {ps : List (List α × List α)} (hps : ps ≠ [])
    (hclean : ∀ p ∈ ps, Clean sep eq p) : records sep eq (render sep eq ps) = ps.map some := by
  have hsplit : (render sep eq ps).splitOn sep = ps.map (field eq) := by
    refine List.splitOn_intercalate sep ?_ (by simpa using hps)
    intro w hw
    obtain ⟨p, hp, rfl⟩ := List.mem_map.mp hw
    exact (hclean p hp).sep_notMem_field hne
  rw [records, hsplit, List.map_map]
  refine List.map_congr_left fun p hp => ?_
  exact cut_field (hclean p hp).eq_notMem

variable {s : List α}

theorem field_mem_of_mem_records (h : some p ∈ records sep eq s) : field eq p ∈ s.splitOn sep := by
  obtain ⟨w, hw, hcut⟩ := List.mem_map.mp h
  obtain ⟨rfl, -⟩ := cut_eq_some_iff.mp hcut
  exact hw

/-- **What is read is clean.** -/
theorem clean_of_mem_records (h : some p ∈ records sep eq s) : Clean sep eq p := by
  have hpiece := notMem_of_mem_splitOn (field_mem_of_mem_records h)
  obtain ⟨w, -, hcut⟩ := List.mem_map.mp h
  refine ⟨(cut_eq_some_iff.mp hcut).2, ?_, ?_⟩
  · exact fun hsep => hpiece (List.mem_append_left _ hsep)
  · exact fun hsep => hpiece (List.mem_append_right _ (List.mem_cons_of_mem _ hsep))

/-! ## Leaving characters out -/

theorem cut_filter {p : α → Bool} (hc : p c = true) (s : List α) :
    cut c (s.filter p) = (cut c s).map (Prod.map (List.filter p) (List.filter p)) := by
  cases hcut : cut c s with
  | none =>
    rw [cut_eq_none_iff] at hcut
    exact cut_eq_none_iff.mpr fun hmem => hcut (List.mem_filter.mp hmem).1
  | some q =>
    obtain ⟨rfl, hnot⟩ := cut_eq_some_iff.mp hcut
    rw [List.filter_append, List.filter_cons_of_pos hc]
    exact cut_append_cons (fun hmem => hnot (List.mem_filter.mp hmem).1) _

theorem splitOn_filter {p : α → Bool} (hsep : p sep = true) (s : List α) :
    (s.filter p).splitOn sep = (s.splitOn sep).map (List.filter p) := by
  induction s with
  | nil => simp [List.splitOn_nil]
  | cons a s ih =>
    obtain ⟨first, rest, hsplit⟩ := List.exists_cons_of_ne_nil (List.splitOn_ne_nil sep s)
    rw [List.splitOn_cons_eq_if_modifyHead, hsplit, List.modifyHead_cons]
    rw [hsplit] at ih
    by_cases ha : a = sep
    · subst ha
      rw [List.filter_cons_of_pos hsep, List.splitOn_cons_eq_if_modifyHead, ih]
      simp
    · by_cases hpa : p a = true
      · rw [List.filter_cons_of_pos hpa, List.splitOn_cons_eq_if_modifyHead, ih]
        simp [ha, hpa]
      · rw [List.filter_cons_of_neg hpa, ih]
        simp [ha, hpa]

/-- **The pairs are those of the text**, with the entries left out. -/
theorem records_filter {p : α → Bool} (hsep : p sep = true) (heq : p eq = true) (s : List α) :
    records sep eq (s.filter p) =
      (records sep eq s).map (Option.map (Prod.map (List.filter p) (List.filter p))) := by
  rw [records, records, splitOn_filter hsep, List.map_map, List.map_map]
  exact List.map_congr_left fun w _ => cut_filter heq w

/-- **Distinct pieces of a text, written again, are not longer than the text.** -/
theorem weight_intercalate_le (w : α → ℕ) (hnodup : ws.Nodup) (hsub : ws ⊆ s.splitOn sep) :
    weight w ([sep].intercalate ws) ≤ weight w s := by
  by_cases hws : ws = []
  · subst hws
    exact Nat.zero_le _
  · obtain ⟨ws', hperm, hsublist⟩ := List.subperm_of_subset hnodup hsub
    have hsum : (ws.map fun t => weight w t + w sep).sum ≤
        ((s.splitOn sep).map fun t => weight w t + w sep).sum := by
      rw [← (hperm.map _).sum_eq]
      exact (hsublist.map _).sum_le_sum fun _ _ => Nat.zero_le _
    have hjoin : [sep].intercalate (s.splitOn sep) = s := List.intercalate_splitOn sep
    rw [← weight_intercalate w hws, ← weight_intercalate w (List.splitOn_ne_nil sep s),
      hjoin] at hsum
    omega

end Text
