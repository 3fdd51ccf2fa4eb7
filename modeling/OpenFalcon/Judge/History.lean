import OpenFalcon.Numeric.Float64
import OpenFalcon.Order.NewestFirst
import OpenFalcon.Common.Tags

/-!
# The judge history of one series

`modules/judge/store/linkedlist.go`.  A series keeps its most recent items in a
linked list, newest at the front.  `pushFrontAndMaintain` is the only way in: it
refuses an item that is not newer than the front one, and cuts the list back to
`maxCount` items from the old end.  `historyData` is the only way out: it walks
from the front and returns the items' own values for a gauge, and the rates
between neighbours for a counter.

A list is a `List`, front first.  `none` is a run-time panic: `Remove` of the nil
element when the list is cut below zero items, `Next` of the nil element when the
walk runs off the end.

Two facts about this file carry everything above it.  The list is newest first
whatever is pushed (`newestFirst_pushFrontAndMaintain`), and the timestamps
`historyData` returns are an initial segment of the list's
(`timestamps_historyData`) --- in both branches, because the rate of two
neighbours is stamped with the newer one.
-/

namespace OpenFalcon.Judge

open Numeric Order Common

/-- The type of a series.  The source reads the first letter of the text and
tells a gauge from the other two. -/
inductive JudgeType where
  | GAUGE
  | COUNTER
  | DERIVE
  deriving DecidableEq

/-- `model.JudgeItem`. -/
structure JudgeItem (F : Type) where
  endpoint : String
  metric : String
  value : F
  timestamp : Int
  judgeType : JudgeType
  tags : Tags

/-- `model.HistoryData`. -/
structure HistoryData (F : Type) where
  timestamp : Int
  value : F
  deriving DecidableEq

variable {F : Type} {L L' : List (JudgeItem F)} {maxCount : Int} {needJudge : Bool} {n : ℕ}
  {v : JudgeItem F}

/-! ## Pushing -/

/-- `this.L.Remove(this.L.Back())`, `n` times.  The back of an empty list is the
nil element, and removing it panics. -/
def removeBack : ℕ → List (JudgeItem F) → Option (List (JudgeItem F))
  | 0, L => some L
  | _ + 1, [] => none
  | n + 1, it :: L => removeBack n (it :: L).dropLast

theorem removeBack_eq_take (h : n ≤ L.length) : removeBack n L = some (L.take (L.length - n)) := by
  induction n generalizing L with
  | zero => simp [removeBack]
  | succ n ih =>
    cases L with
    | nil => simp at h
    | cons it L =>
      have hlen : ((it :: L).dropLast).length = L.length := by simp
      have hn : n ≤ L.length := by simpa using h
      rw [removeBack, ih (by rw [hlen]; exact hn), hlen, List.dropLast_eq_take,
        List.take_take]
      congr 2
      simp only [List.length_cons]
      omega

theorem removeBack_eq_none (h : L.length < n) : removeBack n L = none := by
  induction n generalizing L with
  | zero => simp at h
  | succ n ih =>
    cases L with
    | nil => rfl
    | cons it L =>
      rw [removeBack]
      refine ih ?_
      simp only [List.length_dropLast, List.length_cons] at h ⊢
      omega

/-- `PushFrontAndMaintain`: the list afterwards, and whether the item has to be
judged.  A repeated or wrongly stamped item is dropped. -/
def pushFrontAndMaintain (L : List (JudgeItem F)) (v : JudgeItem F) (maxCount : Int) :
    Option (List (JudgeItem F) × Bool) :=
  match L.head? with
  | some front =>
    if v.timestamp ≤ front.timestamp ∨ v.timestamp ≤ 0 then some (L, false)
    else cut (v :: L)
  | none => cut (v :: L)
where
  /-- Cut the list back to `maxCount` items. -/
  cut (L : List (JudgeItem F)) : Option (List (JudgeItem F) × Bool) :=
    if (L.length : Int) ≤ maxCount then some (L, true)
    else (removeBack ((L.length : Int) - maxCount).toNat L).map fun L' => (L', true)

theorem cut_eq (h : pushFrontAndMaintain.cut maxCount L = some (L', needJudge)) :
    L' = L.take maxCount.toNat ∧ needJudge = true := by
  unfold pushFrontAndMaintain.cut at h
  split at h
  case isTrue hle =>
    obtain ⟨rfl, rfl⟩ := Prod.mk.inj (Option.some.inj h)
    refine ⟨(List.take_of_length_le ?_).symm, rfl⟩
    omega
  case isFalse hgt =>
    by_cases hneg : 0 ≤ maxCount
    · have hn : ((L.length : Int) - maxCount).toNat ≤ L.length := by omega
      rw [removeBack_eq_take hn, Option.map_some] at h
      obtain ⟨rfl, rfl⟩ := Prod.mk.inj (Option.some.inj h)
      refine ⟨?_, rfl⟩
      congr 1
      omega
    · exfalso
      rw [removeBack_eq_none (show L.length < ((L.length : Int) - maxCount).toNat by omega)] at h
      simp at h

/-- What a push does: it refuses the item and leaves the list alone, or it puts
the item in front of the list, which is empty or has an older front, and keeps
the newest `maxCount`. -/
theorem pushFrontAndMaintain_cases (h : pushFrontAndMaintain L v maxCount = some (L', needJudge)) :
    (needJudge = false ∧ L' = L) ∨
      (needJudge = true ∧ L' = (v :: L).take maxCount.toNat ∧
        ∀ front, L.head? = some front → front.timestamp < v.timestamp) := by
  unfold pushFrontAndMaintain at h
  split at h
  case h_1 front hfront =>
    split at h
    case isTrue =>
      obtain ⟨rfl, rfl⟩ := Prod.mk.inj (Option.some.inj h)
      exact Or.inl ⟨rfl, rfl⟩
    case isFalse hnew =>
      obtain ⟨hL', hneed⟩ := cut_eq h
      refine Or.inr ⟨hneed, hL', ?_⟩
      intro front' hfront'
      rw [hfront, Option.some.injEq] at hfront'
      subst hfront'
      omega
  case h_2 hempty =>
    obtain ⟨hL', hneed⟩ := cut_eq h
    refine Or.inr ⟨hneed, hL', ?_⟩
    intro front hfront
    rw [hempty] at hfront
    exact absurd hfront (by simp)

/-- **The list stays newest first**, whatever is pushed and however it is cut. -/
theorem newestFirst_pushFrontAndMaintain (hL : NewestFirst JudgeItem.timestamp L)
    (h : pushFrontAndMaintain L v maxCount = some (L', needJudge)) :
    NewestFirst JudgeItem.timestamp L' := by
  rcases pushFrontAndMaintain_cases h with ⟨-, rfl⟩ | ⟨-, rfl, hfront⟩
  · exact hL
  · exact (newestFirst_cons_of_head? hL hfront).sublist (List.take_sublist _ _)

/-- **Without a negative `maxCount` a push does not panic.**  It refuses the item and leaves the
list alone, or it puts the item in front of items that are older and keeps the newest
`maxCount`. -/
theorem pushFrontAndMaintain_of_nonneg (hmax : 0 ≤ maxCount) (L : List (JudgeItem F))
    (v : JudgeItem F) :
    pushFrontAndMaintain L v maxCount = some (L, false) ∨
      pushFrontAndMaintain L v maxCount = some ((v :: L).take maxCount.toNat, true) ∧
        ∀ front, L.head? = some front → front.timestamp < v.timestamp := by
  have hcut : ∀ L : List (JudgeItem F),
      (pushFrontAndMaintain.cut maxCount L).isSome = true := by
    intro L
    unfold pushFrontAndMaintain.cut
    split
    · rfl
    · rw [removeBack_eq_take (by omega)]
      rfl
  have hsome : (pushFrontAndMaintain L v maxCount).isSome = true := by
    unfold pushFrontAndMaintain
    split
    · split
      · rfl
      · exact hcut _
    · exact hcut _
  obtain ⟨⟨L', needJudge⟩, hpush⟩ := Option.isSome_iff_exists.mp hsome
  rcases pushFrontAndMaintain_cases hpush with ⟨rfl, rfl⟩ | ⟨rfl, rfl, hfront⟩
  · exact Or.inl hpush
  · exact Or.inr ⟨hpush, hfront⟩

/-! ## Reading -/

variable [Float64 F] {vs : List (HistoryData F)} {isEnough : Bool} {limit : Int}

/-- The gauge walk: `n` items from the front, each with its own value. -/
def gaugeHistory : ℕ → List (JudgeItem F) → Option (List (HistoryData F))
  | 0, _ => some []
  | _ + 1, [] => none
  | n + 1, it :: L => (gaugeHistory n L).map fun vs => ⟨it.timestamp, it.value⟩ :: vs

/-- The counter walk: `n` rates between neighbours, each stamped with the newer
of the two. -/
def rateHistory : ℕ → List (JudgeItem F) → Option (List (HistoryData F))
  | 0, _ => some []
  | n + 1, current :: next :: L =>
    let diffVal := current.value - next.value
    let diffTs := current.timestamp - next.timestamp
    (rateHistory n (next :: L)).map fun vs =>
      ⟨current.timestamp, diffVal / Float64.ofRat diffTs⟩ :: vs
  | _ + 1, _ => none

/-- `HistoryData`: at most `limit` points, and whether there were enough. -/
def historyData (L : List (JudgeItem F)) (limit : Int) : Option (List (HistoryData F) × Bool) :=
  if limit < 1 then some ([], false)
  else
    match L with
    | [] => some ([], false)
    | firstItem :: _ =>
      let size : Int := L.length
      if firstItem.judgeType = JudgeType.GAUGE then
        if size < limit then (gaugeHistory size.toNat L).map fun vs => (vs, false)
        else (gaugeHistory limit.toNat L).map fun vs => (vs, true)
      else
        if size < limit + 1 then (rateHistory (size - 1).toNat L).map fun vs => (vs, false)
        else (rateHistory limit.toNat L).map fun vs => (vs, true)

omit [Float64 F] in
theorem timestamps_gaugeHistory (h : gaugeHistory n L = some vs) :
    vs.map HistoryData.timestamp = (L.map JudgeItem.timestamp).take n := by
  induction n generalizing L vs with
  | zero =>
    obtain rfl : [] = vs := Option.some.inj h
    simp
  | succ n ih =>
    cases L with
    | nil => simp [gaugeHistory] at h
    | cons it L =>
      obtain ⟨ws, hws, rfl⟩ := Option.map_eq_some_iff.mp h
      simp [ih hws]

theorem timestamps_rateHistory (h : rateHistory n L = some vs) :
    vs.map HistoryData.timestamp = (L.map JudgeItem.timestamp).take n := by
  induction n generalizing L vs with
  | zero =>
    obtain rfl : [] = vs := Option.some.inj h
    simp
  | succ n ih =>
    match L with
    | [] => simp [rateHistory] at h
    | [_] => simp [rateHistory] at h
    | current :: next :: L =>
      obtain ⟨ws, hws, rfl⟩ := Option.map_eq_some_iff.mp h
      simp [ih hws]

/-- **The points carry the newest timestamps of the list, in order.**  There are
four walks, gauge or rate and short or long; each reads an initial segment. -/
theorem timestamps_historyData (h : historyData L limit = some (vs, isEnough)) :
    vs.map HistoryData.timestamp <+: L.map JudgeItem.timestamp := by
  unfold historyData at h
  split at h
  case isTrue => simp_all
  case isFalse =>
    split at h
    case h_1 => simp_all
    case h_2 firstItem rest =>
      simp only at h
      split at h <;> split at h <;>
        obtain ⟨ws, hws, heq⟩ := Option.map_eq_some_iff.mp h <;>
        obtain ⟨rfl, -⟩ := Prod.mk.inj heq
      · exact timestamps_gaugeHistory hws ▸ List.take_prefix _ _
      · exact timestamps_gaugeHistory hws ▸ List.take_prefix _ _
      · exact timestamps_rateHistory hws ▸ List.take_prefix _ _
      · exact timestamps_rateHistory hws ▸ List.take_prefix _ _

/-- **The last history point is the oldest one.**  The source compares only this
point with the last alarm, and this is why that is enough. -/
theorem newestFirst_historyData (hL : NewestFirst JudgeItem.timestamp L)
    (h : historyData L limit = some (vs, isEnough)) : NewestFirst HistoryData.timestamp vs :=
  hL.of_map_sublist (timestamps_historyData h).sublist

end OpenFalcon.Judge
