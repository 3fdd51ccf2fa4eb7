import Mathlib

/-!
# Lists kept newest first

A buffer that pushes at the front and drops at the back is ordered by its stamps:
the front entry is the newest, the back entry the oldest, and no stamp repeats.
`NewestFirst stamp l` says so.

The rules are the ones a buffer needs.  Pushing asks about the front entry only
(`newestFirst_cons_of_head?`), dropping entries asks nothing (`NewestFirst.sublist`), and the
front entry and the back entry bound all others (`NewestFirst.stamp_le_head`,
`NewestFirst.stamp_getLast_le`).

What such a buffer accepts are the records of the sequence that is offered to it: the entries that
are newer than everything before them (`records`).  To know whether an entry is one it is enough to
look at the last record (`records_cons`).
-/

namespace Order

variable {α β : Type*}

section Preorder

variable [Preorder β] {stamp : α → β} {l l₁ l₂ : List α} {a : α}

/-- The stamps decrease strictly from front to back. -/
def NewestFirst (stamp : α → β) (l : List α) : Prop :=
  l.Pairwise fun a b => stamp b < stamp a

instance [DecidableLT β] (l : List α) : Decidable (NewestFirst stamp l) :=
  inferInstanceAs (Decidable (l.Pairwise fun a b => stamp b < stamp a))

@[simp] theorem newestFirst_nil : NewestFirst stamp ([] : List α) :=
  List.Pairwise.nil

@[simp] theorem newestFirst_singleton (a : α) : NewestFirst stamp [a] :=
  List.pairwise_singleton _ a

theorem newestFirst_cons :
    NewestFirst stamp (a :: l) ↔ (∀ b ∈ l, stamp b < stamp a) ∧ NewestFirst stamp l :=
  List.pairwise_cons

theorem newestFirst_append :
    NewestFirst stamp (l₁ ++ l₂) ↔
      NewestFirst stamp l₁ ∧ NewestFirst stamp l₂ ∧
        ∀ a ∈ l₁, ∀ b ∈ l₂, stamp b < stamp a :=
  List.pairwise_append

theorem NewestFirst.sublist (h : NewestFirst stamp l₂) (hsub : l₁.Sublist l₂) :
    NewestFirst stamp l₁ :=
  List.Pairwise.sublist hsub h

/-- Only the stamps matter: a list with the same stamps, or with some of them in
the same order, is newest first as well. -/
theorem NewestFirst.of_map_sublist {γ : Type*} {stamp' : γ → β} {m : List γ}
    (h : NewestFirst stamp l) (hsub : (m.map stamp').Sublist (l.map stamp)) :
    NewestFirst stamp' m := by
  have hl : (l.map stamp).Pairwise fun a b => b < a := List.pairwise_map.mpr h
  exact List.pairwise_map.mp (hl.sublist hsub)

/-- **Pushing at the front asks about the front entry only.** -/
theorem newestFirst_cons_of_head? (h : NewestFirst stamp l)
    (hhead : ∀ b, l.head? = some b → stamp b < stamp a) : NewestFirst stamp (a :: l) := by
  refine newestFirst_cons.mpr ⟨?_, h⟩
  cases l with
  | nil => simp
  | cons c l =>
    have hc : stamp c < stamp a := hhead c rfl
    intro b hb
    rcases List.mem_cons.mp hb with rfl | hb
    · exact hc
    · exact lt_trans ((newestFirst_cons.mp h).1 b hb) hc

end Preorder

section LinearOrder

variable [LinearOrder β] {stamp : α → β} {l : List α} {a : α}

/-- **The back entry is the oldest.** -/
theorem NewestFirst.stamp_getLast_le (h : NewestFirst stamp l) (hne : l ≠ []) (ha : a ∈ l) :
    stamp (l.getLast hne) ≤ stamp a := by
  have hsplit : l.dropLast ++ [l.getLast hne] = l := List.dropLast_append_getLast hne
  rw [← hsplit] at h
  rw [← hsplit, List.mem_append, List.mem_singleton] at ha
  rcases ha with ha | rfl
  · exact le_of_lt ((newestFirst_append.mp h).2.2 a ha _ (List.mem_singleton_self _))
  · exact le_refl _

theorem NewestFirst.stamp_le_head (h : NewestFirst stamp l) {b : α} (hb : l.head? = some b)
    (ha : a ∈ l) : stamp a ≤ stamp b := by
  cases l with
  | nil => simp at ha
  | cons c l =>
    obtain rfl : c = b := by simpa using hb
    rcases List.mem_cons.mp ha with rfl | ha
    · exact le_refl _
    · exact le_of_lt ((newestFirst_cons.mp h).1 a ha)

/-! ## Records -/

/-- The entries that are newer than all before them.  The list and the records are latest first. -/
def records (stamp : α → β) : List α → List α
  | [] => []
  | a :: earlier =>
    if ∀ b ∈ earlier, stamp b < stamp a then a :: records stamp earlier
    else records stamp earlier

theorem records_sublist (l : List α) : (records stamp l).Sublist l := by
  induction l with
  | nil => exact List.Sublist.slnil
  | cons a l ih =>
    rw [records]
    split_ifs
    · exact ih.cons_cons a
    · exact ih.cons a

/-- **The last record is the newest entry.** -/
theorem exists_head?_records (stamp : α → β) (hne : l ≠ []) :
    ∃ r, (records stamp l).head? = some r ∧ ∀ a ∈ l, stamp a ≤ stamp r := by
  induction l with
  | nil => exact absurd rfl hne
  | cons a l ih =>
    rw [records]
    split_ifs with hnew
    · refine ⟨a, rfl, fun b hb => ?_⟩
      rcases List.mem_cons.mp hb with rfl | hb
      · exact le_refl _
      · exact le_of_lt (hnew b hb)
    · push Not at hnew
      obtain ⟨b, hb, hle⟩ := hnew
      obtain ⟨r, hr, hmax⟩ := ih (List.ne_nil_of_mem hb)
      refine ⟨r, hr, fun c hc => ?_⟩
      rcases List.mem_cons.mp hc with rfl | hc
      · exact hle.trans (hmax b hb)
      · exact hmax c hc

/-- An entry is a record exactly if it is newer than the last one. -/
theorem records_cons (a : α) (l : List α) :
    records stamp (a :: l) =
      if ∀ r, (records stamp l).head? = some r → stamp r < stamp a then a :: records stamp l
      else records stamp l := by
  have hiff : (∀ b ∈ l, stamp b < stamp a) ↔
      ∀ r, (records stamp l).head? = some r → stamp r < stamp a := by
    constructor
    · intro h r hr
      exact h r ((records_sublist l).mem (List.mem_of_mem_head? hr))
    · intro h b hb
      obtain ⟨r, hr, hmax⟩ := exists_head?_records stamp (List.ne_nil_of_mem hb)
      exact (hmax b hb).trans_lt (h r hr)
  rw [records]
  exact if_congr hiff rfl rfl

theorem newestFirst_records (l : List α) : NewestFirst stamp (records stamp l) := by
  induction l with
  | nil => exact newestFirst_nil
  | cons a l ih =>
    rw [records]
    split_ifs with hnew
    · exact newestFirst_cons.mpr ⟨fun b hb => hnew b ((records_sublist l).mem hb), ih⟩
    · exact ih

end LinearOrder

end Order
