import Mathlib.Data.List.Induction
import OpenFalcon.Hbs.Template

/-!
# How `ParentIds` ends

`ParentIds` of `modules/hbs/cache/strategies.go` as it is written: a loop without a condition, which
follows the links to the parents and counts its rounds, and a second loop that writes the ids it has
collected in reverse order.  `Template` has the same function as a recursion on the rounds that are
left (`parentIdsAfter_eq`).

The table of templates may have anything in it.  A parent may be missing, a template may be its own
parent, and several may be each other's.  The counter makes the loop end in every case, and up to
nine templates what it returns is exact (`parentIds_chain`).
-/

namespace OpenFalcon.Hbs

open Common Machine

/-! ## The source -/

/-- The first loop of `ParentIds`, for a number of rounds: `none` if it has not come to its end
then, and otherwise what it has collected, `some none` if it has given up at a depth of ten. -/
def parentIdsRounds (allTpls : GoMap Int Template) :
    ℕ → List Int → Int → ℕ → Option (Option (List Int))
  | 0, _, _, _ => none
  | rounds + 1, ret, tid, depth =>
    if tid ≤ 0 then some (some ret)
    else
      match allTpls.lookup tid with
      | none => some (some ret)
      | some t =>
        if depth + 1 = 10 then some none
        else parentIdsRounds allTpls rounds (ret ++ [tid]) t.parentId (depth + 1)

/-- The second loop: `desc[sz-i-1] = item`. -/
def desc (ret : List Int) : List Int :=
  ret.zipIdx.foldl (fun desc e => desc.set (ret.length - e.2 - 1) e.1) (List.replicate ret.length 0)

/-- `ParentIds`, for a number of rounds of the first loop. -/
def parentIdsAfter (allTpls : GoMap Int Template) (tid : Int) (rounds : ℕ) : Option (List Int) :=
  (parentIdsRounds allTpls rounds [] tid 0).map fun broke =>
    broke.elim [] fun ret => if ret.length ≤ 1 then ret else desc ret

/-! ## The two loops -/

/-- After some rounds the second loop has written the end of the list. -/
theorem foldl_desc (sz : ℕ) (items : List Int) (hle : items.length ≤ sz) :
    items.zipIdx.foldl (fun desc e => desc.set (sz - e.2 - 1) e.1) (List.replicate sz 0) =
      List.replicate (sz - items.length) 0 ++ items.reverse := by
  induction items using List.reverseRecOn with
  | nil => simp
  | append_singleton items item ih =>
    rw [List.length_append, List.length_singleton] at hle
    rw [List.zipIdx_append, List.foldl_append, ih (by omega)]
    obtain ⟨left, hleft⟩ : ∃ left, sz - items.length = left + 1 := ⟨sz - items.length - 1, by omega⟩
    simp only [List.zipIdx_singleton, List.foldl_cons, List.foldl_nil, zero_add, List.length_append,
      List.length_singleton, List.reverse_append, List.reverse_singleton]
    rw [hleft, Nat.add_sub_cancel, List.replicate_succ', List.append_assoc, Nat.sub_add_eq, hleft,
      Nat.add_sub_cancel]
    rw [List.set_append_right _ _ (by simp), List.length_replicate, Nat.sub_self]
    rfl

/-- **The second loop reverses.** -/
theorem desc_eq_reverse (ret : List Int) : desc ret = ret.reverse := by
  rw [desc, foldl_desc _ _ le_rfl, Nat.sub_self, List.replicate_zero, List.nil_append]

variable {rounds : ℕ} (m : GoMap Int Template)

/-- The first loop counts up to ten, and `parentIdsLoop` counts down. -/
theorem parentIdsRounds_eq (ret : List Int) (tid : Int) {n depth : ℕ} (hdepth : depth + n = 10)
    (hn : 0 < n) (hrounds : n ≤ rounds) :
    parentIdsRounds m rounds ret tid depth = some ((parentIdsLoop m n tid).map (ret ++ ·)) := by
  induction n generalizing ret tid depth rounds with
  | zero => exact absurd hn (lt_irrefl 0)
  | succ n ih =>
    obtain ⟨rounds, rfl⟩ : ∃ r, rounds = r + 1 := ⟨rounds - 1, by omega⟩
    rw [parentIdsRounds, parentIdsLoop]
    by_cases hpos : tid ≤ 0
    · rw [if_pos hpos, if_pos hpos, Option.map_some, List.append_nil]
    · rw [if_neg hpos, if_neg hpos]
      cases m.lookup tid with
      | none => simp
      | some t =>
        simp only
        split_ifs with hten
        · obtain rfl : n = 0 := by omega
          rfl
        · rw [ih _ _ (by omega) (by omega) (by omega), Option.map_map]
          refine congrArg (fun f => some (Option.map f _)) (funext fun l => ?_)
          simp

/-- What `ParentIds` returns, of every map of templates. -/
theorem parentIdsAfter_eq_some (tid : Int) (hrounds : 10 ≤ rounds) :
    parentIdsAfter m tid rounds = some ((parentIdsLoop m 10 tid).elim [] List.reverse) := by
  rw [parentIdsAfter, parentIdsRounds_eq m [] tid (Nat.zero_add 10) (by omega) hrounds,
    Option.map_some]
  cases parentIdsLoop m 10 tid with
  | none => rfl
  | some l =>
    refine congrArg some ?_
    show (if l.length ≤ 1 then l else desc l) = l.reverse
    split_ifs with hone
    · rcases l with _ | ⟨x, _ | ⟨y, l⟩⟩
      · rfl
      · rfl
      · simp at hone
    · exact desc_eq_reverse l

/-- **`parentIds` is `ParentIds`.** -/
theorem parentIdsAfter_eq (allTpls : TemplateCache) (tid : Int) (hrounds : 10 ≤ rounds) :
    parentIdsAfter allTpls.m tid rounds = some (parentIds allTpls tid) := by
  rw [parentIdsAfter_eq_some _ _ hrounds, parentIds]
  cases parentIdsLoop allTpls.m 10 tid <;> rfl

/-- **Parent chains.**  For every map of templates and every id: `ParentIds` returns after at most
ten rounds.  If following the links to the parents comes to a stop after at most nine templates, it
returns these, the root first and the id last, without repetition.  Otherwise, and so whenever the
links lead into a cycle, it returns the empty list. -/
theorem parentIds_chain (m : GoMap Int Template) (tid : Int) :
    ∃ ret, (∀ rounds, 10 ≤ rounds → parentIdsAfter m tid rounds = some ret) ∧
      (∀ l, Follows (parentLink m) tid l → l.length ≤ 9 →
        ret = l.reverse ∧ ret.Nodup ∧ (ret ≠ [] → ret.getLast? = some tid)) ∧
      ((¬ ∃ l, Follows (parentLink m) tid l ∧ l.length ≤ 9) → ret = []) ∧
      ∀ c, Relation.ReflTransGen (fun x y => parentLink m x = some y) tid c →
        Relation.TransGen (fun x y => parentLink m x = some y) c c → ret = [] := by
  have hloop : ∀ l, parentIdsLoop m 10 tid = some l ↔
      Follows (parentLink m) tid l ∧ l.length < 10 := fun l => parentIdsLoop_eq_some_iff_follows
  refine ⟨_, fun rounds hrounds => parentIdsAfter_eq_some m tid hrounds, ?_, ?_, ?_⟩
  · intro l hway hlen
    rw [(hloop l).mpr ⟨hway, Nat.lt_succ_of_le hlen⟩]
    refine ⟨rfl, List.nodup_reverse.mpr hway.nodup, fun hne => ?_⟩
    show l.reverse.getLast? = some tid
    cases hway with
    | stop _ => exact absurd rfl hne
    | step _ _ => rw [List.getLast?_reverse, List.head?_cons]
  · intro hlong
    cases hsome : parentIdsLoop m 10 tid with
    | none => rfl
    | some l =>
      obtain ⟨hway, hlen⟩ := (hloop l).mp hsome
      exact absurd ⟨l, hway, Nat.le_of_lt_succ hlen⟩ hlong
  · intro c hreach hcycle
    cases hsome : parentIdsLoop m 10 tid with
    | none => rfl
    | some l => exact absurd ((hloop l).mp hsome).1 (not_follows_of_cycle hreach hcycle)

end OpenFalcon.Hbs
