import OpenFalcon.Judge.FuncSafe

/-!
# The points of a history, on 64 bits

`historyData` computes the rates of a counter with integers.  The code subtracts two timestamps on
64 bits, and `historyData64` does so too.  The two agree as long as no difference of neighbours is
too large, and a difference of two numbers that are not negative never is.

`pushFrontAndMaintain` refuses a timestamp that is zero or less, but it looks only if the list has
a front item.  The first item of a list can have any timestamp, and a difference of the second item
and this one can be `2 ^ 63` or more.  On 64 bits that is a negative number.  Nothing else can go
wrong: the points of a list that was filled by `pushFrontAndMaintain` are exact if and only if the
differences they are computed from fit (`history_points_exact_iff`).
-/

namespace OpenFalcon.Judge

open Numeric Order Text

variable {F : Type} {L : List (JudgeItem F)} {current : JudgeItem F} {i : ℕ}

/-- A list that `PushFrontAndMaintain` made.  Timestamps have 64 bits. -/
inductive Reachable : List (JudgeItem F) → Prop
  | empty : Reachable []
  | push {L L' : List (JudgeItem F)} {v : JudgeItem F} {maxCount : Int} {needJudge : Bool} :
      Reachable L → Fits64 v.timestamp →
      pushFrontAndMaintain L v maxCount = some (L', needJudge) → Reachable L'

theorem Reachable.newestFirst (h : Reachable L) : NewestFirst JudgeItem.timestamp L := by
  induction h with
  | empty => exact newestFirst_nil
  | push _ _ hpush ih => exact newestFirst_pushFrontAndMaintain ih hpush

theorem Reachable.fits64 (h : Reachable L) : ∀ it ∈ L, Fits64 it.timestamp := by
  induction h with
  | empty => exact fun it hit => absurd hit List.not_mem_nil
  | push _ hv hpush ih =>
    rcases pushFrontAndMaintain_cases hpush with ⟨-, rfl⟩ | ⟨-, rfl, -⟩
    · exact ih
    · intro it hit
      rcases List.mem_cons.mp (List.mem_of_mem_take hit) with rfl | hit
      · exact hv
      · exact ih it hit

theorem Reachable.lt_of_neighbours (h : Reachable L) {next : JudgeItem F}
    (hcurrent : L[i]? = some current) (hnext : L[i + 1]? = some next) :
    next.timestamp < current.timestamp := by
  obtain ⟨hi, rfl⟩ := List.getElem?_eq_some_iff.mp hcurrent
  obtain ⟨hj, rfl⟩ := List.getElem?_eq_some_iff.mp hnext
  exact List.pairwise_iff_getElem.mp h.newestFirst i (i + 1) hi hj (Nat.lt_succ_self i)

/-- `diffTs` of `HistoryData`. -/
def diffTs (current next : JudgeItem F) : Int := wrap64 (current.timestamp - next.timestamp)

theorem diffTs_pos_iff {next : JudgeItem F} (hcurrent : Fits64 current.timestamp)
    (hnext : Fits64 next.timestamp) (hlt : next.timestamp < current.timestamp) :
    0 < diffTs current next ↔ current.timestamp - next.timestamp < 2 ^ 63 := by
  unfold Fits64 at hcurrent hnext
  exact wrap64_pos_iff (by omega) (by omega)

theorem diffTs_eq {next : JudgeItem F} (hlt : next.timestamp < current.timestamp)
    (hclose : current.timestamp - next.timestamp < 2 ^ 63) :
    diffTs current next = current.timestamp - next.timestamp :=
  wrap64_eq_iff.mpr ⟨by omega, hclose⟩

variable [Float64 F] {limit : Int} {firstItem : JudgeItem F}

/-- The counter walk of `HistoryData` on 64 bits. -/
def rateHistory64 : ℕ → List (JudgeItem F) → Option (List (HistoryData F))
  | 0, _ => some []
  | n + 1, current :: next :: L =>
    let diffVal := current.value - next.value
    (rateHistory64 n (next :: L)).map fun vs =>
      ⟨current.timestamp, diffVal / Float64.ofRat (diffTs current next : Int)⟩ :: vs
  | _ + 1, _ => none

/-- `HistoryData` on 64 bits. -/
def historyData64 (L : List (JudgeItem F)) (limit : Int) : Option (List (HistoryData F) × Bool) :=
  if limit < 1 then some ([], false)
  else
    match L with
    | [] => some ([], false)
    | firstItem :: _ =>
      let size : Int := L.length
      if firstItem.judgeType = JudgeType.GAUGE then
        if size < limit then (gaugeHistory size.toNat L).map fun vs => (vs, false)
        else (gaugeHistory limit.toNat L).map fun vs => (vs, true)
      else
        if size < wrap64 (limit + 1) then
          (rateHistory64 (size - 1).toNat L).map fun vs => (vs, false)
        else (rateHistory64 limit.toNat L).map fun vs => (vs, true)

/-- The point between an item and the next older one, computed on 64 bits. -/
def ratePoint64 (current next : JudgeItem F) : HistoryData F :=
  ⟨current.timestamp,
    (current.value - next.value) / Float64.ofRat (diffTs current next : Int)⟩

/-- All points of a counter. -/
def ratePoints64 (L : List (JudgeItem F)) : List (HistoryData F) :=
  List.zipWith ratePoint64 L L.tail

theorem length_ratePoints64 (L : List (JudgeItem F)) : (ratePoints64 L).length = L.length - 1 := by
  rw [ratePoints64, List.length_zipWith, List.length_tail]
  omega

theorem getElem?_ratePoints64 {next : JudgeItem F} (hcurrent : L[i]? = some current)
    (hnext : L[i + 1]? = some next) : (ratePoints64 L)[i]? = some (ratePoint64 current next) := by
  rw [ratePoints64, List.getElem?_zipWith, hcurrent, List.getElem?_tail, hnext]

theorem timestamps_ratePoints64 (L : List (JudgeItem F)) :
    (ratePoints64 L).map HistoryData.timestamp =
      (L.map JudgeItem.timestamp).take (L.length - 1) := by
  refine List.ext_getElem? fun i => ?_
  rw [List.getElem?_map, List.getElem?_take, List.getElem?_map]
  split_ifs with hi
  · have hcurrent : L[i]? = some L[i] := List.getElem?_eq_getElem (by omega)
    have hnext : L[i + 1]? = some L[i + 1] := List.getElem?_eq_getElem (by omega)
    rw [getElem?_ratePoints64 hcurrent hnext, hcurrent]
    rfl
  · rw [List.getElem?_eq_none (by rw [length_ratePoints64]; omega), Option.map_none]

theorem rateHistory64_eq {n : ℕ} (h : n ≤ L.length - 1) :
    rateHistory64 n L = some ((ratePoints64 L).take n) := by
  induction n generalizing L with
  | zero => rfl
  | succ n ih =>
    match L with
    | [] => simp at h
    | [_] => simp at h
    | current :: next :: L =>
      rw [rateHistory64, ih (by simpa using h)]
      rfl

theorem historyData64_of_gauge (h : firstItem.judgeType = .GAUGE) (rest : List (JudgeItem F))
    (limit : Int) :
    historyData64 (firstItem :: rest) limit =
      some (((firstItem :: rest).map ownPoint).take limit.toNat,
        decide (1 ≤ limit ∧ limit ≤ (firstItem :: rest).length)) := by
  have heq : historyData64 (firstItem :: rest) limit = historyData (firstItem :: rest) limit := by
    simp only [historyData64, historyData, if_pos h]
  rw [heq, historyData_eq, points, if_pos h, List.length_map]

theorem historyData64_of_rate (h : firstItem.judgeType ≠ .GAUGE) (rest : List (JudgeItem F))
    (hfits : Fits64 (limit + 1)) :
    historyData64 (firstItem :: rest) limit =
      some ((ratePoints64 (firstItem :: rest)).take limit.toNat,
        decide (1 ≤ limit ∧ limit + 1 ≤ (firstItem :: rest).length)) := by
  have hsize : (firstItem :: rest).length = rest.length + 1 := List.length_cons
  have hlength := length_ratePoints64 (firstItem :: rest)
  simp only [historyData64, if_neg h, wrap64_eq_iff.mpr hfits]
  split_ifs with hlimit hshort
  · rw [Int.toNat_eq_zero.mpr (by omega), decide_eq_false (by omega), List.take_zero]
  · rw [rateHistory64_eq (by omega), decide_eq_false (by omega),
      List.take_of_length_le (by omega), List.take_of_length_le (by omega)]
    rfl
  · rw [rateHistory64_eq (by omega), decide_eq_true (by omega)]
    rfl

/-- What `HistoryData(limit)` should return for a list whose front item has the type
`judgeType`. -/
structure ExactHistory (judgeType : JudgeType) (L : List (JudgeItem F)) (limit : Int)
    (vs : List (HistoryData F)) (isEnough : Bool) : Prop where
  enough : isEnough = true ↔
    1 ≤ limit ∧ (if judgeType = .GAUGE then limit else limit + 1) ≤ L.length
  none : limit < 1 → vs = []
  count : 1 ≤ limit →
    (vs.length : Int) = min limit (if judgeType = .GAUGE then L.length else L.length - 1)
  timestamps : vs.map HistoryData.timestamp = (L.map JudgeItem.timestamp).take vs.length
  own : judgeType = .GAUGE → vs.map HistoryData.value = (L.map JudgeItem.value).take vs.length
  rates : judgeType ≠ .GAUGE → ∀ i point current next, vs[i]? = some point →
    L[i]? = some current → L[i + 1]? = some next →
      0 < diffTs current next ∧ diffTs current next = current.timestamp - next.timestamp ∧
        point.value = (current.value - next.value) /
          Float64.ofRat (current.timestamp - next.timestamp : Int)

omit [Float64 F] in
/-- Of the newest `limit` items and the one behind them, no two neighbours are `2 ^ 63` seconds
apart. -/
def CloseTimes (limit : Int) (L : List (JudgeItem F)) : Prop :=
  ∀ (i : ℕ) current next, (i : Int) < limit → L[i]? = some current → L[i + 1]? = some next →
    current.timestamp - next.timestamp < 2 ^ 63

omit [Float64 F] in
/-- It is enough that the oldest item does not have a negative timestamp. -/
theorem closeTimes_of_nonneg (hL : Reachable L)
    (h : ∀ oldest, L.getLast? = some oldest → 0 ≤ oldest.timestamp) (limit : Int) :
    CloseTimes limit L := by
  intro i current next _ hcurrent hnext
  have hne : L ≠ [] := List.ne_nil_of_mem (List.mem_of_getElem? hcurrent)
  have holdest := h _ (List.getLast?_eq_some_getLast hne)
  have hle := hL.newestFirst.stamp_getLast_le hne (List.mem_of_getElem? hnext)
  have hfits := hL.fits64 current (List.mem_of_getElem? hcurrent)
  unfold Fits64 at hfits
  omega

omit [Float64 F] in
theorem map_take_eq {α : Type} {f : HistoryData F → α} {g : JudgeItem F → α}
    {all : List (HistoryData F)} (h : all.map f = (L.map g).take all.length) (n : ℕ) :
    (all.take n).map f = (L.map g).take (all.take n).length := by
  rw [List.map_take, h, List.take_take, List.length_take]

theorem exactHistory_of_gauge (L : List (JudgeItem F)) (limit : Int) :
    ExactHistory .GAUGE L limit ((L.map ownPoint).take limit.toNat)
      (decide (1 ≤ limit ∧ limit ≤ L.length)) := by
  have hlength : (L.map ownPoint).length = L.length := List.length_map _
  refine ⟨?_, fun hlimit => ?_, fun hlimit => ?_, ?_, fun _ => ?_, fun hne => absurd rfl hne⟩
  · rw [decide_eq_true_iff, if_pos rfl]
  · rw [Int.toNat_eq_zero.mpr (by omega), List.take_zero]
  · rw [List.length_take, hlength, if_pos rfl]
    omega
  · refine map_take_eq ?_ _
    rw [List.map_map, hlength, ← List.length_map JudgeItem.timestamp, List.take_length]
    rfl
  · refine map_take_eq ?_ _
    rw [List.map_map, hlength, ← List.length_map JudgeItem.value, List.take_length]
    rfl

/-- The points of a counter are exact if and only if the differences of timestamps fit. -/
theorem exactHistory_rate_iff {judgeType : JudgeType} (hrate : judgeType ≠ .GAUGE)
    (hL : Reachable L) (hne : L ≠ []) (limit : Int) :
    ExactHistory judgeType L limit ((ratePoints64 L).take limit.toNat)
      (decide (1 ≤ limit ∧ limit + 1 ≤ L.length)) ↔ CloseTimes limit L := by
  have hpos : 0 < L.length := List.length_pos_of_ne_nil hne
  have hlength := length_ratePoints64 L
  have hdiff : ∀ {i : ℕ} {current next : JudgeItem F}, L[i]? = some current →
      L[i + 1]? = some next →
      (0 < diffTs current next ↔ current.timestamp - next.timestamp < 2 ^ 63) := by
    intro i current next hcurrent hnext
    exact diffTs_pos_iff (hL.fits64 _ (List.mem_of_getElem? hcurrent))
      (hL.fits64 _ (List.mem_of_getElem? hnext)) (hL.lt_of_neighbours hcurrent hnext)
  constructor
  · intro hexact i current next hi hcurrent hnext
    have hvs : ((ratePoints64 L).take limit.toNat)[i]? = some (ratePoint64 current next) := by
      rw [List.getElem?_take_of_lt (by omega), getElem?_ratePoints64 hcurrent hnext]
    exact (hdiff hcurrent hnext).mp (hexact.rates hrate i _ current next hvs hcurrent hnext).1
  · intro hclose
    refine ⟨?_, fun hlimit => ?_, fun hlimit => ?_, ?_, fun hgauge => absurd hgauge hrate, ?_⟩
    · rw [decide_eq_true_iff, if_neg hrate]
    · rw [Int.toNat_eq_zero.mpr (by omega), List.take_zero]
    · rw [List.length_take, hlength, if_neg hrate]
      omega
    · refine map_take_eq ?_ _
      rw [timestamps_ratePoints64, hlength]
    · intro _ i point current next hvs hcurrent hnext
      rw [List.getElem?_take] at hvs
      split_ifs at hvs with hi
      rw [getElem?_ratePoints64 hcurrent hnext] at hvs
      have hsmall := hclose i current next (by omega) hcurrent hnext
      have heq := diffTs_eq (hL.lt_of_neighbours hcurrent hnext) hsmall
      refine ⟨(hdiff hcurrent hnext).mpr hsmall, heq, ?_⟩
      rw [← Option.some.inj hvs, ratePoint64, heq]

/-- **History points are exact, if and only if the timestamps are not too far apart.**  For a list
that `PushFrontAndMaintain` made and a limit that a function of at most 16 characters asks for,
`HistoryData` returns what it should for every gauge, and for any other series exactly if no
difference of timestamps that it divides by is too large for 64 bits. -/
theorem history_points_exact_iff {str : Bytes} (hlength : characters str ≤ 16) {operator : String}
    {rightValue : F} {fn : Function F}
    (hparse : parseFuncFromString str operator rightValue = some (.ok fn))
    {L : List (JudgeItem F)} (hL : Reachable L) {firstItem : JudgeItem F}
    (hfirst : L.head? = some firstItem) :
    (∃ vs isEnough, historyData64 L fn.name.window = some (vs, isEnough) ∧
        ExactHistory firstItem.judgeType L fn.name.window vs isEnough) ↔
      (firstItem.judgeType ≠ .GAUGE → CloseTimes fn.name.window L) := by
  obtain ⟨-, -, hfits⟩ := fits64_window (lt_of_parse hlength hparse)
  obtain ⟨rest, rfl⟩ := List.head?_eq_some_iff.mp hfirst
  by_cases hgauge : firstItem.judgeType = .GAUGE
  · refine iff_of_true ?_ (fun hne => absurd hgauge hne)
    exact ⟨_, _, historyData64_of_gauge hgauge rest _, hgauge ▸ exactHistory_of_gauge _ _⟩
  · have hiff := exactHistory_rate_iff hgauge hL (List.cons_ne_nil _ _) fn.name.window
    rw [historyData64_of_rate hgauge rest hfits]
    constructor
    · rintro ⟨vs, isEnough, heq, hexact⟩ -
      obtain ⟨rfl, rfl⟩ := Prod.mk.inj (Option.some.inj heq)
      exact hiff.mp hexact
    · intro hclose
      exact ⟨_, _, rfl, hiff.mpr (hclose hgauge)⟩

theorem take_ratePoints64 (hL : Reachable L) (hclose : CloseTimes limit L) :
    (ratePoints64 L).take limit.toNat = (List.zipWith ratePoint L L.tail).take limit.toNat := by
  refine List.ext_getElem? fun i => ?_
  rw [List.getElem?_take, List.getElem?_take]
  split_ifs with hi
  · rw [ratePoints64, List.getElem?_zipWith, List.getElem?_zipWith, List.getElem?_tail]
    cases hcurrent : L[i]? with
    | none => rfl
    | some current =>
      cases hnext : L[i + 1]? with
      | none => rfl
      | some next =>
        have hsmall := hclose i current next (by omega) hcurrent hnext
        show some (ratePoint64 current next) = some (ratePoint current next)
        rw [ratePoint64, diffTs_eq (hL.lt_of_neighbours hcurrent hnext) hsmall, ratePoint]
  · rfl

/-- **Then the integers of the model are those of the code.** -/
theorem historyData64_eq_historyData (hL : Reachable L) (hfits : Fits64 (limit + 1))
    (hclose : CloseTimes limit L) : historyData64 L limit = historyData L limit := by
  match L with
  | [] => rfl
  | firstItem :: rest =>
    by_cases hgauge : firstItem.judgeType = .GAUGE
    · simp only [historyData64, historyData, if_pos hgauge]
    · have hlength : (List.zipWith ratePoint (firstItem :: rest) rest).length = rest.length := by
        simp
      rw [historyData64_of_rate hgauge rest hfits, take_ratePoints64 hL hclose, historyData_eq,
        points, if_neg hgauge, List.tail_cons, hlength, List.length_cons]
      refine congrArg (fun b => some (_, b)) (decide_eq_decide.mpr ?_)
      omega

/-- An item of a counter. -/
def counterAt (timestamp : Int) (value : Rat) : JudgeItem QFloat :=
  ⟨"host", "if.in", .num value, timestamp, .COUNTER, ∅⟩

/-- Two pushes into an empty list.  Nothing is asked about the timestamp of the first item. -/
theorem reachable_pair {older newer : Int} (holder : Fits64 older) (hnewer : Fits64 newer)
    (hlt : older < newer) (hpos : 0 < newer) (v w : Rat) :
    Reachable [counterAt newer v, counterAt older w] := by
  have hone : Reachable [counterAt older w] :=
    .push .empty holder (show pushFrontAndMaintain [] (counterAt older w) 11 = some (_, true)
      from rfl)
  refine .push hone hnewer (show pushFrontAndMaintain _ (counterAt newer v) 11 = some (_, true)
    from ?_)
  have hkeep : ¬ (newer ≤ older ∨ newer ≤ 0) := by omega
  exact if_neg hkeep

theorem parse_all_one : parseFuncFromString (ascii "all(#1)") ">" (QFloat.num 0) =
    some (.ok ⟨.all 1, ">", .num 0⟩) := rfl

/-- The oldest item of a list may have a negative timestamp, and then a counter that grows has a
negative rate. -/
theorem history_divisor_negative :
    Reachable [counterAt (5 * 10 ^ 18) 1, counterAt (-5 * 10 ^ 18) 0] ∧
      parseFuncFromString (ascii "all(#1)") ">" (QFloat.num 0) =
        some (.ok ⟨.all 1, ">", .num 0⟩) ∧
      diffTs (counterAt (5 * 10 ^ 18) 1) (counterAt (-5 * 10 ^ 18) 0) = -8446744073709551616 ∧
      ¬ ∃ vs isEnough,
        historyData64 [counterAt (5 * 10 ^ 18) 1, counterAt (-5 * 10 ^ 18) 0] 1 =
            some (vs, isEnough) ∧
          ExactHistory .COUNTER [counterAt (5 * 10 ^ 18) 1, counterAt (-5 * 10 ^ 18) 0] 1 vs
            isEnough := by
  have hdiff : diffTs (counterAt (5 * 10 ^ 18) 1) (counterAt (-5 * 10 ^ 18) 0) =
      -8446744073709551616 := by
    unfold diffTs wrap64
    decide
  refine ⟨reachable_pair (by decide) (by decide) (by decide) (by decide) _ _, parse_all_one, hdiff,
    ?_⟩
  rintro ⟨vs, isEnough, heq, hexact⟩
  rw [historyData64_of_rate (by decide) _ (by decide)] at heq
  obtain ⟨rfl, -⟩ := Prod.mk.inj (Option.some.inj heq)
  have hpos := (hexact.rates (by decide) 0 _ _ _ rfl rfl rfl).1
  rw [hdiff] at hpos
  exact absurd hpos (by decide)

/-- The condition met, by a minute between two items. -/
theorem minute_points_exact :
    ∃ vs isEnough, historyData64 [counterAt 120 5, counterAt 60 2] 1 = some (vs, isEnough) ∧
      ExactHistory .COUNTER [counterAt 120 5, counterAt 60 2] 1 vs isEnough := by
  have hL : Reachable [counterAt 120 5, counterAt 60 2] :=
    reachable_pair (by decide) (by decide) (by decide) (by decide) _ _
  refine (history_points_exact_iff (by decide) parse_all_one hL rfl).mpr fun _ => ?_
  refine closeTimes_of_nonneg hL (fun oldest holdest => ?_) _
  rw [← Option.some.inj holdest]
  decide

theorem historyData64_eq_historyData_minute :
    historyData64 [counterAt 120 5, counterAt 60 2] 1 =
      historyData [counterAt 120 5, counterAt 60 2] 1 := by
  have hL : Reachable [counterAt 120 5, counterAt 60 2] :=
    reachable_pair (by decide) (by decide) (by decide) (by decide) _ _
  refine historyData64_eq_historyData hL (by decide) (closeTimes_of_nonneg hL (fun o ho => ?_) _)
  rw [← Option.some.inj ho]
  decide

end OpenFalcon.Judge
