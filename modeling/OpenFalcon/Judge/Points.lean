import OpenFalcon.Judge.Func

/-!
# The points of a series, and the loops over them

`HistoryData` hands out points, newest first: the values of a gauge as they are, and for
any other series the rates between neighbours, one point fewer.  `points` are all of them.  The
four walks of `HistoryData` are one: the newest `limit` points, and whether there are so many
(`historyData_eq`).

The alarm functions walk over these points by index.  A walk whose indices are there reads a
list (`Walks`), and each loop of `func.go` is a statement about the list it reads: a fold
(`foldValues_eq`), all of it (`allLoop_eq`), a count (`lookupLoop_eq`).  The loops of `diff` and
`kdiff` stop at the first answer.

No function panics (`isSome_evaluate`).  Those of two arguments index with a sum of both, and one
argument may be negative; then the other loop is empty and nothing is read.
-/

namespace OpenFalcon.Judge

open Numeric

variable {F : Type}

/-! ## Points -/

/-- The point of an item of a gauge. -/
def ownPoint (it : JudgeItem F) : HistoryData F := ⟨it.timestamp, it.value⟩

variable [Float64 F] {L : List (JudgeItem F)} {fn : Function F} {n : ℕ}

/-- The point between an item and the next older one, stamped with the newer. -/
def ratePoint (current next : JudgeItem F) : HistoryData F :=
  ⟨current.timestamp, (current.value - next.value) /
    Float64.ofRat (current.timestamp - next.timestamp : Int)⟩

/-- All points of a list of items.  The type of the newest item decides. -/
def points (L : List (JudgeItem F)) : List (HistoryData F) :=
  match L with
  | [] => []
  | firstItem :: _ =>
    if firstItem.judgeType = JudgeType.GAUGE then L.map ownPoint
    else List.zipWith ratePoint L L.tail

omit [Float64 F] in
theorem gaugeHistory_eq (h : n ≤ L.length) : gaugeHistory n L = some ((L.map ownPoint).take n) := by
  induction n generalizing L with
  | zero => rfl
  | succ n ih =>
    cases L with
    | nil => simp at h
    | cons it L =>
      rw [gaugeHistory, ih (by simpa using h)]
      rfl

theorem rateHistory_eq (h : n ≤ L.length - 1) :
    rateHistory n L = some ((List.zipWith ratePoint L L.tail).take n) := by
  induction n generalizing L with
  | zero => rfl
  | succ n ih =>
    match L with
    | [] => simp at h
    | [_] => simp at h
    | current :: next :: L =>
      rw [rateHistory, ih (by simpa using h)]
      rfl

/-- **What `HistoryData` returns**: the newest `limit` points, and whether there are so many. -/
theorem historyData_eq (L : List (JudgeItem F)) (limit : Int) :
    historyData L limit =
      some ((points L).take limit.toNat, decide (1 ≤ limit ∧ limit ≤ (points L).length)) := by
  unfold historyData
  split_ifs with hlimit
  · rw [Int.toNat_eq_zero.mpr (by omega), decide_eq_false (by omega)]
    rfl
  · match L with
    | [] =>
      rw [decide_eq_false (by simp only [points, List.length_nil]; omega), points]
      simp
    | firstItem :: rest =>
      have hlength : (List.zipWith ratePoint (firstItem :: rest) rest).length = rest.length := by
        simp
      simp only [points]
      split_ifs with hgauge hsize hsize
      · rw [gaugeHistory_eq (by omega), decide_eq_false (by simp only [List.length_map]; omega),
          List.take_of_length_le (by simp), List.take_of_length_le (by
            simp only [List.length_map]; omega)]
        rfl
      · rw [gaugeHistory_eq (by omega), decide_eq_true (by simp only [List.length_map]; omega)]
        rfl
      · rw [rateHistory_eq (by omega), List.tail_cons, decide_eq_false (by
            rw [hlength]; simp only [List.length_cons] at hsize; omega),
          List.take_of_length_le (by simp only [List.length_cons] at hsize ⊢; omega),
          List.take_of_length_le (by simp only [List.length_cons] at hsize ⊢; omega)]
        rfl
      · simp only [List.length_cons] at hsize
        rw [rateHistory_eq (by simp only [List.length_cons]; omega), List.tail_cons,
          decide_eq_true (by rw [hlength]; omega)]
        rfl

/-! ## Walks by index -/

/-- Reading at the indices `is`, one after the other, reads `ws`. -/
def Walks (vs : List (HistoryData F)) (is : List ℕ) (ws : List (HistoryData F)) : Prop :=
  is.map (fun i => vs[i]?) = ws.map some

section Walks

variable {vs ws : List (HistoryData F)} {is : List ℕ} {triggers : F → Bool} {num : Int}

omit [Float64 F]

theorem walks_nil_iff : Walks vs [] ws ↔ ws = [] := by
  rw [Walks, List.map_nil, eq_comm, List.map_eq_nil_iff]

theorem walks_cons_iff {i : ℕ} :
    Walks vs (i :: is) ws ↔ ∃ w ws', ws = w :: ws' ∧ vs[i]? = some w ∧ Walks vs is ws' := by
  cases ws with
  | nil => simp [Walks]
  | cons w ws =>
    rw [Walks, List.map_cons, List.map_cons, List.cons.injEq]
    constructor
    · rintro ⟨hw, hws⟩
      exact ⟨w, ws, rfl, hw, hws⟩
    · rintro ⟨w', ws', heq, hw, hws⟩
      obtain ⟨rfl, rfl⟩ := List.cons.inj heq
      exact ⟨hw, hws⟩

/-- **The loop `for i := lo; i < hi; i++`** reads the points from `lo` to before `hi`, if they
are there. -/
theorem walks_indices (lo : ℕ) {hi : Int} (h : hi ≤ vs.length) :
    Walks vs (indices lo hi) ((vs.take hi.toNat).drop lo) := by
  refine List.ext_getElem? fun i => ?_
  simp only [indices, List.getElem?_map, List.getElem?_drop, List.getElem?_take]
  by_cases hi' : i < hi.toNat - lo
  · have hlt : lo + i < vs.length := by omega
    simp [hi', show lo + i < hi.toNat by omega, List.getElem?_eq_getElem hlt]
  · simp [hi', show ¬lo + i < hi.toNat by omega]

theorem foldValues_eq {f : F → F → F} (h : Walks vs is ws) (acc : F) :
    foldValues vs f acc is = some ((ws.map HistoryData.value).foldl f acc) := by
  induction is generalizing ws acc with
  | nil =>
    rw [walks_nil_iff.mp h]
    rfl
  | cons i is ih =>
    obtain ⟨w, ws', rfl, hw, hws⟩ := walks_cons_iff.mp h
    rw [foldValues, hw, Option.bind_some, ih hws]
    rfl

theorem allLoop_eq (h : Walks vs is ws) :
    allLoop vs triggers true is = some (ws.all fun w => triggers w.value) := by
  induction is generalizing ws with
  | nil =>
    rw [walks_nil_iff.mp h]
    rfl
  | cons i is ih =>
    obtain ⟨w, ws', rfl, hw, hws⟩ := walks_cons_iff.mp h
    rw [allLoop, hw, Option.bind_some, ih hws, List.all_cons]
    cases triggers w.value <;> rfl

theorem lookupLoop_eq {n : Int} (h : Walks vs is ws) (hn : n < num) :
    lookupLoop vs triggers num n is =
      some (decide (num ≤ n + ws.countP fun w => triggers w.value)) := by
  induction is generalizing ws n with
  | nil =>
    rw [walks_nil_iff.mp h, lookupLoop, List.countP_nil, decide_eq_false (by omega)]
  | cons i is ih =>
    obtain ⟨w, ws', rfl, hw, hws⟩ := walks_cons_iff.mp h
    rw [lookupLoop, hw, Option.bind_some]
    split_ifs with htrig hnum
    · rw [List.countP_cons, if_pos htrig, decide_eq_true (by push_cast; omega)]
    · rw [ih hws (by omega), List.countP_cons, if_pos htrig]
      congr 2
      push_cast
      exact propext ⟨by omega, by omega⟩
    · rw [ih hws hn, List.countP_cons, if_neg htrig, Nat.add_zero]

/-- Counting past `num` reads what counting to it reads. -/
theorem isSome_lookupLoop (h : Walks vs is ws) (n : Int) :
    (lookupLoop vs triggers num n is).isSome = true := by
  induction is generalizing ws n with
  | nil => rfl
  | cons i is ih =>
    obtain ⟨w, ws', rfl, hw, hws⟩ := walks_cons_iff.mp h
    rw [lookupLoop, hw, Option.bind_some]
    split_ifs
    · rfl
    · exact ih hws _
    · exact ih hws _

theorem isSome_diffLoop {skip : F → Bool} {left : F → F} (h : Walks vs is ws) (acc : F × Bool) :
    (diffLoop vs skip left triggers acc is).isSome = true := by
  induction is generalizing ws acc with
  | nil => rfl
  | cons i is ih =>
    obtain ⟨w, ws', rfl, hw, hws⟩ := walks_cons_iff.mp h
    rw [diffLoop, hw, Option.bind_some]
    split_ifs
    · exact ih hws _
    · rfl
    · exact ih hws _

/-! ## The nested loops -/

theorem kdiffInner_spec (left : F → F → F) (triggers : F → Bool) {older : ℕ}
    {old : HistoryData F} (hold : vs[older]? = some old) (h : Walks vs is ws) (acc : F × Bool) :
    ∃ r, kdiffInner vs left triggers older acc is = some r ∧
      (r.2 = true ↔ (ws = [] → acc.2 = true) ∧
        ∀ w ∈ ws, triggers (left w.value old.value) = true) := by
  induction is generalizing ws acc with
  | nil =>
    rw [walks_nil_iff.mp h]
    exact ⟨acc, rfl, by simp⟩
  | cons j js ih =>
    obtain ⟨w, ws', rfl, hw, hws⟩ := walks_cons_iff.mp h
    simp only [kdiffInner, hw, hold, Option.bind_some]
    split_ifs with htrig
    · obtain ⟨r, hr, hiff⟩ := ih hws (left w.value old.value, true)
      refine ⟨r, hr, ?_⟩
      rw [hiff, List.forall_mem_cons]
      simp [htrig]
    · exact ⟨_, rfl, by simp [htrig]⟩

end Walks

section

variable {vs us os ns : List (HistoryData F)} {is : List ℕ} {left : F → F → F}
  {triggers : F → Bool} {num limit : Int}

/-- **The nested loops** answer whether no point they test is zero and every newer point triggers
against every older one.  The points tested are not the ones divided by. -/
theorem kdiffOuter_spec (hns : Walks vs (indices 0 limit) ns) (hne : ns ≠ [])
    (hus : Walks vs is us) (hos : Walks vs (is.map fun i : ℕ => (limit + num - 1 - i).toNat) os)
    (acc : F × Bool) :
    ∃ r, kdiffOuter vs left triggers num limit acc is = some r ∧
      (r.2 = true ↔ (is = [] → acc.2 = true) ∧
        (∀ u ∈ us, Float64.eq u.value (Float64.ofRat 0) = false) ∧
          ∀ o ∈ os, ∀ w ∈ ns, triggers (left w.value o.value) = true) := by
  induction is generalizing us os acc with
  | nil =>
    rw [walks_nil_iff.mp hus, walks_nil_iff.mp hos]
    exact ⟨acc, rfl, by simp⟩
  | cons i is ih =>
    obtain ⟨u, us', rfl, hu, hus'⟩ := walks_cons_iff.mp hus
    obtain ⟨o, os', rfl, ho, hos'⟩ := walks_cons_iff.mp hos
    rw [kdiffOuter, hu, Option.bind_some]
    split_ifs with hzero
    · exact ⟨_, rfl, by simp [hzero]⟩
    · obtain ⟨r, hr, hinner⟩ := kdiffInner_spec left triggers ho hns (acc.1, false)
      rw [hr, Option.bind_some]
      have hrow : r.2 = true ↔ ∀ w ∈ ns, triggers (left w.value o.value) = true := by
        rw [hinner]
        simp [hne]
      split_ifs with htrig
      · obtain ⟨q, hq, houter⟩ := ih hus' hos' r
        refine ⟨q, hq, ?_⟩
        rw [houter, List.forall_mem_cons, List.forall_mem_cons, ← hrow]
        simp [hzero, htrig]
      · refine ⟨r, rfl, ?_⟩
        rw [List.forall_mem_cons, List.forall_mem_cons, ← hrow]
        simp [htrig]

/-- Without newer points nothing triggers, after the first point at the latest. -/
theorem isSome_kdiffOuter_of_nil (hlimit : indices 0 limit = []) {i : ℕ} (hi : i < vs.length)
    (acc : F × Bool) : (kdiffOuter vs left triggers num limit acc (i :: is)).isSome = true := by
  rw [kdiffOuter, List.getElem?_eq_getElem hi, Option.bind_some]
  split_ifs
  · rfl
  · rw [hlimit, kdiffInner, Option.bind_some]
    rfl

omit [Float64 F] in
theorem walks_older (hnum : 0 ≤ num) (hlimit : 0 ≤ limit)
    (hlength : (vs.length : Int) = limit + num) :
    Walks vs ((indices 0 num).map fun i : ℕ => (limit + num - 1 - i).toNat)
      (vs.drop limit.toNat).reverse := by
  refine List.ext_getElem? fun i => ?_
  by_cases hi : i < num.toNat
  · have hold : i < (vs.drop limit.toNat).length := by
      rw [List.length_drop]
      omega
    have hindex : (limit + num - 1 - (i : Int)).toNat = limit.toNat +
        ((vs.drop limit.toNat).length - 1 - i) := by
      rw [List.length_drop]
      omega
    have hlt : limit.toNat + ((vs.drop limit.toNat).length - 1 - i) < vs.length := by
      rw [List.length_drop]
      omega
    simp only [indices, List.getElem?_map, List.getElem?_range' hi, Option.map_some, Nat.zero_add,
      Nat.one_mul, List.getElem?_reverse hold, List.getElem?_drop, hindex,
      List.getElem?_eq_getElem hlt, Nat.sub_zero]
  · rw [List.getElem?_eq_none (by simp [indices]; omega),
      List.getElem?_eq_none (by simp; omega)]

variable (left triggers) in
/-- The loops of `kdiff` and `kpdiff`, over as many points as they ask for. -/
theorem kdiffOuter_indices_spec (hnum : 1 ≤ num) (hlimit : 1 ≤ limit)
    (hlength : (vs.length : Int) = limit + num) (acc : F × Bool) :
    ∃ r, kdiffOuter vs left triggers num limit acc (indices 0 num) = some r ∧
      (r.2 = true ↔
        (∀ u ∈ vs.take num.toNat, Float64.eq u.value (Float64.ofRat 0) = false) ∧
          ∀ w ∈ vs.take limit.toNat, ∀ o ∈ vs.drop limit.toNat,
            triggers (left w.value o.value) = true) := by
  have hns : Walks vs (indices 0 limit) (vs.take limit.toNat) :=
    walks_indices 0 (by omega)
  have hus : Walks vs (indices 0 num) (vs.take num.toNat) := walks_indices 0 (by omega)
  have hne : vs.take limit.toNat ≠ [] := by
    refine List.ne_nil_of_length_pos ?_
    rw [List.length_take]
    omega
  have hindices : indices 0 num ≠ [] := by
    refine List.ne_nil_of_length_pos ?_
    rw [indices, List.length_range']
    omega
  obtain ⟨r, hr, hiff⟩ := kdiffOuter_spec hns hne hus
    (walks_older (by omega) (by omega) hlength) acc
  refine ⟨r, hr, ?_⟩
  rw [hiff]
  simp only [hindices, false_implies, true_and, List.mem_reverse]
  exact and_congr_right fun _ => forall₂_comm

/-- A negative argument empties one of the loops, before an index is out of range. -/
theorem isSome_kdiffOuter_indices (hpos : 1 ≤ limit + num)
    (hlength : (vs.length : Int) = limit + num) (acc : F × Bool) :
    (kdiffOuter vs left triggers num limit acc (indices 0 num)).isSome = true := by
  rcases lt_or_ge num 1 with hnum | hnum
  · rw [indices, Int.toNat_eq_zero.mpr (by omega)]
    rfl
  · rcases lt_or_ge limit 1 with hlimit | hlimit
    · obtain ⟨m, hm⟩ : ∃ m, num.toNat - 0 = m + 1 := ⟨num.toNat - 1, by omega⟩
      rw [indices, hm, List.range'_succ]
      refine isSome_kdiffOuter_of_nil ?_ (by omega) acc
      rw [indices, Int.toNat_eq_zero.mpr (by omega)]
      rfl
    · obtain ⟨r, hr, -⟩ := kdiffOuter_indices_spec left triggers hnum hlimit hlength acc
      rw [hr]
      rfl

end

/-! ## No panic -/

/-- **On the points a function asks for, it does not panic.** -/
theorem isSome_evaluate (fn : Function F) {vs : List (HistoryData F)} (hpos : 1 ≤ fn.name.window)
    (hlength : (vs.length : Int) = fn.name.window) : (fn.evaluate vs).isSome = true := by
  obtain ⟨name, operator, rightValue⟩ := fn
  simp only at hpos hlength
  obtain ⟨first, rest, rfl⟩ : ∃ first rest, vs = first :: rest :=
    List.exists_cons_of_ne_nil (by rintro rfl; simp at hlength; omega)
  have hhead : (first :: rest)[0]? = some first := rfl
  have hwalk : ∀ lo {hi : Int}, hi ≤ name.window →
      Walks (first :: rest) (indices lo hi) (((first :: rest).take hi.toNat).drop lo) :=
    fun lo _ hle => walks_indices lo (hlength ▸ hle)
  cases name with
  | max limit | min limit =>
    simp [Function.evaluate, foldValues_eq (hwalk 1 (le_refl limit))]
  | all limit => simp [Function.evaluate, allLoop_eq (hwalk 0 (le_refl limit))]
  | sum limit | avg limit =>
    simp [Function.evaluate, foldValues_eq (hwalk 0 (le_refl limit))]
  | diff limit | pdiff limit =>
    simpa [Function.evaluate] using isSome_diffLoop (hwalk 1 (le_refl (limit + 1))) _
  | stddev limit => simp [Function.evaluate]
  | lookup num limit =>
    simpa [Function.evaluate] using isSome_lookupLoop (hwalk 0 (le_refl limit)) 0
  | kdiff num limit | kpdiff num limit => exact isSome_kdiffOuter_indices hpos hlength _

theorem compute_of_enough (hpos : 1 ≤ fn.name.window) (henough : fn.name.window ≤ (points L).length)
    :
    fn.compute L = (fn.evaluate ((points L).take fn.name.window.toNat)).map fun r =>
      ⟨(points L).take fn.name.window.toNat, r.1, r.2, true⟩ := by
  have hne : (points L).take fn.name.window.toNat ≠ [] := by
    refine List.ne_nil_of_length_pos ?_
    rw [List.length_take]
    omega
  rw [Function.compute, historyData_eq, Option.bind_some, decide_eq_true ⟨hpos, henough⟩,
    if_neg (by simp [hne])]

theorem compute_of_short (hshort : ¬(1 ≤ fn.name.window ∧ fn.name.window ≤ (points L).length)) :
    fn.compute L = some ⟨(points L).take fn.name.window.toNat, Float64.ofRat 0, false, false⟩ := by
  rw [Function.compute, historyData_eq, Option.bind_some, decide_eq_false hshort, if_pos (.inl rfl)]

/-- **No alarm function panics**, and with enough points the history is not empty. -/
theorem exists_compute (fn : Function F) (L : List (JudgeItem F)) :
    ∃ c, fn.compute L = some c ∧ (c.isEnough = true → c.vs ≠ []) := by
  by_cases henough : 1 ≤ fn.name.window ∧ fn.name.window ≤ (points L).length
  · have hlength : (((points L).take fn.name.window.toNat).length : Int) = fn.name.window := by
      rw [List.length_take]
      omega
    obtain ⟨r, hr⟩ := Option.isSome_iff_exists.mp (isSome_evaluate fn henough.1 hlength)
    refine ⟨_, by rw [compute_of_enough henough.1 henough.2, hr, Option.map_some], fun _ => ?_⟩
    refine List.ne_nil_of_length_pos ?_
    simp only
    omega
  · exact ⟨_, compute_of_short henough, fun h => by simp at h⟩

end OpenFalcon.Judge
