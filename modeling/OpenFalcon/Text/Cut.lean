import Mathlib

/-!
# Cutting and slicing texts

A text is a list, of characters or of bytes.  Programs take texts apart in three ways: by
the position of a separator and slices around it (`index`, `slice`), by a cut at the first
separator (`cut`), and by a split at every separator (`List.splitOn`).  The first can go out
of bounds, and then there is no result.

Joining by a separator loses the place of the join.  Two joins of two texts are the same
text exactly if the parts are the same or one pair is the other with the join moved to
another separator (`append_cons_eq_append_cons_iff`).
-/

namespace Text

variable {α : Type*} {s w pre post a' b' a b : List α} {c : α}

/-! ## Slices -/

/-- The entries from position `lo` to before position `hi`.  Out of bounds there is no
result. -/
def slice (s : List α) (lo hi : Int) : Option (List α) :=
  if 0 ≤ lo ∧ lo ≤ hi ∧ hi ≤ s.length then some ((s.take hi.toNat).drop lo.toNat) else none

theorem slice_eq_none {lo hi : Int} (h : lo < 0 ∨ hi < lo ∨ (s.length : Int) < hi) :
    slice s lo hi = none :=
  if_neg (by omega)

theorem slice_eq_some {mid : List α} (hs : s = pre ++ mid ++ post) {lo hi : Int}
    (hlo : lo = pre.length) (hhi : hi = pre.length + mid.length) : slice s lo hi = some mid := by
  subst hs hlo hhi
  have hhi : ((pre.length : Int) + mid.length).toNat = (pre ++ mid).length := by
    rw [List.length_append]
    omega
  rw [slice, if_pos (by simp only [List.length_append]; omega), hhi, List.take_left,
    Int.toNat_natCast, List.drop_left]

theorem infix_of_slice {lo hi : Int} (h : slice s lo hi = some w) : w <:+: s := by
  rw [slice] at h
  split_ifs at h
  obtain rfl := Option.some.inj h
  exact (List.drop_suffix _ _).isInfix.trans (List.take_prefix _ _).isInfix

/-! ## Moving the join -/

/-- **Two joins of two texts are one text** exactly if the parts agree, or the join of one
stands at a later separator of the other. -/
theorem append_cons_eq_append_cons_iff :
    a ++ c :: b = a' ++ c :: b' ↔
      (a = a' ∧ b = b') ∨ (∃ d, a' = a ++ c :: d ∧ b = d ++ c :: b') ∨
        ∃ d, a = a' ++ c :: d ∧ b' = d ++ c :: b := by
  constructor
  · intro h
    rcases List.append_eq_append_iff.mp h with ⟨d, ha, hb⟩ | ⟨d, ha, hb⟩
    · cases d with
      | nil => exact Or.inl ⟨by simpa using ha.symm, (List.cons.inj hb).2⟩
      | cons e d =>
        obtain ⟨rfl, hrest⟩ := List.cons.inj hb
        exact Or.inr (Or.inl ⟨d, ha, hrest⟩)
    · cases d with
      | nil => exact Or.inl ⟨by simpa using ha, (List.cons.inj hb).2.symm⟩
      | cons e d =>
        obtain ⟨rfl, hrest⟩ := List.cons.inj hb
        exact Or.inr (Or.inr ⟨d, ha, hrest⟩)
  · rintro (⟨rfl, rfl⟩ | ⟨d, rfl, rfl⟩ | ⟨d, rfl, rfl⟩)
    · rfl
    · simp
    · simp

theorem eq_of_append_cons_eq_last (hb : c ∉ b) (hb' : c ∉ b') (h : a ++ c :: b = a' ++ c :: b') :
    a = a' ∧ b = b' := by
  rcases append_cons_eq_append_cons_iff.mp h with heq | ⟨d, -, rfl⟩ | ⟨d, -, rfl⟩
  · exact heq
  · exact absurd (List.mem_append_right d List.mem_cons_self) hb
  · exact absurd (List.mem_append_right d List.mem_cons_self) hb'

/-- A text without the character that stands at the start of a text ends before the character. -/
theorem prefix_append_cons_iff {q : List α} (hc : c ∉ q) (x y : List α) :
    q <+: x ++ c :: y ↔ q <+: x := by
  constructor
  · intro h
    rcases List.prefix_or_prefix_of_prefix h (List.prefix_append x (c :: y)) with hq | hx
    · exact hq
    · obtain ⟨rest, rfl⟩ := hx
      have hrest : rest <+: c :: y := (List.prefix_append_right_inj x).mp h
      cases rest with
      | nil => rw [List.append_nil]
      | cons d rest =>
        obtain rfl := (List.cons_prefix_cons.mp hrest).1
        exact absurd (List.mem_append_right x List.mem_cons_self) hc
  · intro h
    exact h.trans (List.prefix_append x (c :: y))

/-! ## Positions -/

variable [DecidableEq α]

/-- The position of the first `c`, and `-1` if there is none. -/
def index (c : α) (s : List α) : Int :=
  if c ∈ s then (s.idxOf c : Int) else -1

theorem index_of_notMem (h : c ∉ s) : index c s = -1 :=
  if_neg h

theorem index_append_cons (h : c ∉ pre) (post : List α) :
    index c (pre ++ c :: post) = pre.length := by
  rw [index, if_pos (by simp), List.idxOf_append_of_notMem h, List.idxOf_cons_self]
  simp

/-! ## The first separator -/

/-- Cut a text at the first `c`. -/
def cut (c : α) : List α → Option (List α × List α)
  | [] => none
  | a :: s => if a = c then some ([], s) else (cut c s).map fun p => (a :: p.1, p.2)

/-- **A cut is at the first separator.** -/
theorem cut_eq_some_iff : cut c s = some (pre, post) ↔ s = pre ++ c :: post ∧ c ∉ pre := by
  induction s generalizing pre with
  | nil => simp [cut]
  | cons a s ih =>
    rw [cut]
    split_ifs with ha
    · subst ha
      rw [Option.some_inj, Prod.mk.injEq]
      constructor
      · rintro ⟨rfl, rfl⟩
        exact ⟨rfl, List.not_mem_nil⟩
      · rintro ⟨hs, hnot⟩
        cases pre with
        | nil => exact ⟨rfl, (List.cons.inj hs).2⟩
        | cons b pre =>
          obtain ⟨rfl, -⟩ := List.cons.inj hs
          exact absurd List.mem_cons_self hnot
    · rw [Option.map_eq_some_iff]
      constructor
      · rintro ⟨⟨pre', post'⟩, hcut, heq⟩
        obtain ⟨rfl, rfl⟩ := Prod.mk.inj heq
        obtain ⟨rfl, hnot⟩ := ih.mp hcut
        exact ⟨rfl, by simp [hnot, Ne.symm ha]⟩
      · rintro ⟨hs, hnot⟩
        cases pre with
        | nil => exact absurd (List.cons.inj hs).1 ha
        | cons b pre =>
          obtain ⟨rfl, rfl⟩ := List.cons.inj hs
          exact ⟨(pre, post), ih.mpr ⟨rfl, fun h => hnot (List.mem_cons_of_mem _ h)⟩, rfl⟩

theorem cut_eq_none_iff : cut c s = none ↔ c ∉ s := by
  induction s with
  | nil => simp [cut]
  | cons a s ih =>
    rw [cut]
    split_ifs with ha
    · simp [ha]
    · simp [ih, Ne.symm ha]

theorem cut_append_cons (h : c ∉ pre) (post : List α) :
    cut c (pre ++ c :: post) = some (pre, post) :=
  cut_eq_some_iff.mpr ⟨rfl, h⟩

/-- Cut a text at the last `c`. -/
def cutLast (c : α) (s : List α) : Option (List α × List α) :=
  (cut c s.reverse).map fun p => (p.2.reverse, p.1.reverse)

theorem cutLast_eq_some_iff : cutLast c s = some (pre, post) ↔ s = pre ++ c :: post ∧ c ∉ post := by
  have hreverse : s.reverse = post.reverse ++ c :: pre.reverse ↔ s = pre ++ c :: post := by
    rw [List.reverse_eq_iff]
    simp
  rw [cutLast, Option.map_eq_some_iff]
  constructor
  · rintro ⟨⟨a, b⟩, hcut, heq⟩
    obtain ⟨rfl, rfl⟩ := Prod.mk.inj heq
    obtain ⟨hs, hnot⟩ := cut_eq_some_iff.mp hcut
    exact ⟨hreverse.mp (by simpa using hs), by simpa using hnot⟩
  · rintro ⟨hs, hnot⟩
    refine ⟨(post.reverse, pre.reverse), cut_eq_some_iff.mpr ⟨hreverse.mpr hs, ?_⟩, by simp⟩
    simpa using hnot

theorem eq_of_append_cons_eq (ha : c ∉ a) (ha' : c ∉ a') (h : a ++ c :: b = a' ++ c :: b') :
    a = a' ∧ b = b' := by
  have hcut := cut_append_cons ha b
  rw [h, cut_append_cons ha' b', Option.some_inj, Prod.mk.injEq] at hcut
  exact ⟨hcut.1.symm, hcut.2.symm⟩

/-! ## Every separator -/

omit [DecidableEq α] in
/-- **The entries of a piece** are entries of the text, and none is a separator. -/
theorem mem_pieceP {p : α → Bool} {a : α} (hw : w ∈ s.splitOnP p) (ha : a ∈ w) :
    a ∈ s ∧ p a = false := by
  induction s generalizing w with
  | nil =>
    rw [List.splitOnP_nil, List.mem_singleton] at hw
    subst hw
    exact absurd ha List.not_mem_nil
  | cons b s ih =>
    have later : ∀ {w}, w ∈ s.splitOnP p → a ∈ w → a ∈ b :: s ∧ p a = false := fun hw ha =>
      ⟨List.mem_cons_of_mem b (ih hw ha).1, (ih hw ha).2⟩
    obtain ⟨first, rest, hsplit⟩ := List.exists_cons_of_ne_nil (List.splitOnP_ne_nil p s)
    rw [List.splitOnP_cons_eq_if_modifyHead] at hw
    split_ifs at hw with hb
    · rcases List.mem_cons.mp hw with rfl | hw
      · exact absurd ha List.not_mem_nil
      · exact later hw ha
    · rw [hsplit, List.modifyHead_cons] at hw
      rcases List.mem_cons.mp hw with rfl | hw
      · rcases List.mem_cons.mp ha with rfl | ha
        · exact ⟨List.mem_cons_self, by simpa using hb⟩
        · exact later (hsplit ▸ List.mem_cons_self) ha
      · exact later (hsplit ▸ List.mem_cons_of_mem _ hw) ha

theorem mem_piece {a : α} (hw : w ∈ s.splitOn c) (ha : a ∈ w) : a ∈ s ∧ a ≠ c := by
  rw [List.splitOn_eq_splitOnP] at hw
  simpa using mem_pieceP hw ha

theorem notMem_of_mem_splitOn (hw : w ∈ s.splitOn c) : c ∉ w :=
  fun hc => (mem_piece hw hc).2 rfl

theorem infix_of_mem_splitOn (hw : w ∈ s.splitOn c) : w <:+: s := by
  have hjoin : ∀ ws : List (List α), w ∈ ws → w <:+: [c].intercalate ws := by
    intro ws hmem
    induction ws with
    | nil => exact absurd hmem List.not_mem_nil
    | cons v ws ih =>
      cases ws with
      | nil =>
        obtain rfl := List.mem_singleton.mp hmem
        rw [List.intercalate_singleton]
      | cons u ws =>
        rw [List.intercalate_cons_cons]
        rcases List.mem_cons.mp hmem with rfl | hmem
        · exact ((List.prefix_append _ _).trans (List.prefix_append _ _)).isInfix
        · exact (ih hmem).trans (List.suffix_append _ _).isInfix
  have hpart := hjoin _ hw
  rwa [List.intercalate_splitOn] at hpart

/-! ## Parts that do not cross a character -/

theorem takeWhile_append_cons (c : α) (x y : List α) :
    (x ++ c :: y).takeWhile (· ≠ c) = x.takeWhile (· ≠ c) := by
  induction x with
  | nil => simp
  | cons b x ih =>
    by_cases hb : b = c
    · simp [hb]
    · rw [List.cons_append, List.takeWhile_cons_of_pos (by simpa using hb), ih,
        List.takeWhile_cons_of_pos (by simpa using hb)]

theorem rtakeWhile_append_cons (hw : c ∉ w) (s : List α) :
    (s ++ c :: w).rtakeWhile (· ≠ c) = w := by
  have hall : ∀ a ∈ w.reverse, decide (a ≠ c) = true := fun a ha => by
    simpa using fun heq : a = c => hw (heq ▸ List.mem_reverse.mp ha)
  rw [List.rtakeWhile, List.reverse_append, List.reverse_cons, List.append_assoc,
    List.takeWhile_append_of_pos hall, List.singleton_append,
    List.takeWhile_cons_of_neg (by simp), List.append_nil, List.reverse_reverse]

end Text
