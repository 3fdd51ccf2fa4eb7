import OpenFalcon.Judge.History

/-!
# The alarm functions

`modules/judge/store/func.go`.  A strategy names one of eleven functions of the
history of a series; `compute` evaluates it and says whether the threshold is
crossed.

Every function asks `historyData` for a number of points (`window`), gives up
when there are not enough, and indexes into the points it got.  An index out of
range is a panic, `none` here.  What the functions do with the points differs;
what they return as the points does not: all eleven hand the whole answer of
`historyData` through (`vs_of_compute`).
-/

namespace OpenFalcon.Judge

open Numeric

variable {F : Type} [Float64 F]

/-- `checkIsTriggered`.  An unknown operator never triggers. -/
def checkIsTriggered (leftValue : F) (operator : String) (rightValue : F) : Bool :=
  match operator with
  | "=" | "==" => Float64.lt (Float64.abs (leftValue - rightValue)) (Float64.ofRat (1 / 10000))
  | "!=" => Float64.lt (Float64.ofRat (1 / 10000)) (Float64.abs (leftValue - rightValue))
  | "<" => Float64.lt leftValue rightValue
  | "<=" => Float64.le leftValue rightValue
  | ">" => Float64.lt rightValue leftValue
  | ">=" => Float64.le rightValue leftValue
  | _ => false

/-- The name of a function, with the arguments it was written with. -/
inductive FuncName where
  | max (limit : Int)
  | min (limit : Int)
  | all (limit : Int)
  | sum (limit : Int)
  | avg (limit : Int)
  | diff (limit : Int)
  | pdiff (limit : Int)
  | stddev (limit : Int)
  | lookup (num limit : Int)
  | kdiff (num limit : Int)
  | kpdiff (num limit : Int)
  deriving DecidableEq

/-- What `ParseFuncFromString` returns: a function and the comparison it feeds. -/
structure Function (F : Type) where
  name : FuncName
  operator : String
  rightValue : F

/-- The results of `Compute`. -/
structure Computed (F : Type) where
  vs : List (HistoryData F)
  leftValue : F
  isTriggered : Bool
  isEnough : Bool

/-- The number of points a function asks for. -/
def FuncName.window : FuncName → Int
  | .max limit | .min limit | .all limit | .sum limit | .avg limit | .stddev limit => limit
  | .diff limit | .pdiff limit => limit + 1
  | .lookup _ limit => limit
  | .kdiff num limit | .kpdiff num limit => limit + num

/-! ## The loops -/

/-- The indices of `for i := lo; i < hi; i++`. -/
def indices (lo : ℕ) (hi : Int) : List ℕ := List.range' lo (hi.toNat - lo)

/-- Fold the values at the given indices; an index out of range panics. -/
def foldValues (vs : List (HistoryData F)) (f : F → F → F) : F → List ℕ → Option F
  | acc, [] => some acc
  | acc, i :: is => (vs[i]?).bind fun v => foldValues vs f (f acc v.value) is

/-- The loop of `AllFunction`: stop at the first point that does not trigger. -/
def allLoop (vs : List (HistoryData F)) (triggers : F → Bool) : Bool → List ℕ → Option Bool
  | isTriggered, [] => some isTriggered
  | _, i :: is => (vs[i]?).bind fun v =>
      if triggers v.value then allLoop vs triggers true is else some false

/-- The loop of `LookupFunction`: count the points that trigger up to `num`. -/
def lookupLoop (vs : List (HistoryData F)) (triggers : F → Bool) (num : Int) :
    Int → List ℕ → Option Bool
  | _, [] => some false
  | n, i :: is => (vs[i]?).bind fun v =>
      if triggers v.value then
        if n + 1 = num then some true else lookupLoop vs triggers num (n + 1) is
      else lookupLoop vs triggers num n is

/-- The loop of `DiffFunction` and `PDiffFunction`: stop at the first older point
whose difference triggers.  `skip` is the guard against a zero divisor. -/
def diffLoop (vs : List (HistoryData F)) (skip : F → Bool) (left : F → F)
    (triggers : F → Bool) : F × Bool → List ℕ → Option (F × Bool)
  | acc, [] => some acc
  | acc, i :: is => (vs[i]?).bind fun v =>
      if skip v.value then diffLoop vs skip left triggers acc is
      else if triggers (left v.value) then some (left v.value, true)
      else diffLoop vs skip left triggers (left v.value, false) is

/-- The inner loop of `KDiffFunction` and `KPDiffFunction`, over `j`. -/
def kdiffInner (vs : List (HistoryData F)) (left : F → F → F) (triggers : F → Bool)
    (older : ℕ) : F × Bool → List ℕ → Option (F × Bool)
  | acc, [] => some acc
  | _, j :: js => (vs[j]?).bind fun newer => (vs[older]?).bind fun old =>
      let leftValue := left newer.value old.value
      if triggers leftValue then kdiffInner vs left triggers older (leftValue, true) js
      else some (leftValue, false)

/-- The outer loop of `KDiffFunction` and `KPDiffFunction`, over `i`. -/
def kdiffOuter (vs : List (HistoryData F)) (left : F → F → F) (triggers : F → Bool)
    (num limit : Int) : F × Bool → List ℕ → Option (F × Bool)
  | acc, [] => some acc
  | acc, i :: is => (vs[i]?).bind fun v =>
      if Float64.eq v.value (Float64.ofRat 0) then some (acc.1, false)
      else
        (kdiffInner vs left triggers (limit + num - 1 - i).toNat (acc.1, false)
          (indices 0 limit)).bind fun r =>
            if r.2 then kdiffOuter vs left triggers num limit r is else some r

/-! ## Statistics -/

/-- `utils.ComputeMean`. -/
def computeMean (values : List F) : F :=
  values.foldl (· + ·) (Float64.ofRat 0) / Float64.ofRat values.length

/-- `utils.ComputeStdDeviation`. -/
def computeStdDeviation (values : List F) : F :=
  let mean := computeMean values
  Float64.sqrt (computeMean (values.map fun v => (v - mean) * (v - mean)))

/-! ## Evaluation -/

/-- The left value and the trigger of a function on enough points. -/
def Function.evaluate (fn : Function F) (vs : List (HistoryData F)) : Option (F × Bool) :=
  let triggers := fun leftValue => checkIsTriggered leftValue fn.operator fn.rightValue
  let zero : F := Float64.ofRat 0
  match fn.name with
  | .max limit =>
    (vs[0]?).bind fun v =>
      (foldValues vs (fun m x => if Float64.lt m x then x else m) v.value (indices 1 limit)).map
        fun m => (m, triggers m)
  | .min limit =>
    (vs[0]?).bind fun v =>
      (foldValues vs (fun m x => if Float64.lt x m then x else m) v.value (indices 1 limit)).map
        fun m => (m, triggers m)
  | .all limit =>
    (allLoop vs triggers true (indices 0 limit)).bind fun isTriggered =>
      (vs[0]?).map fun v => (v.value, isTriggered)
  | .lookup num limit =>
    (vs[0]?).bind fun v =>
      (lookupLoop vs triggers num 0 (indices 0 limit)).map fun isTriggered =>
        (v.value, isTriggered)
  | .sum limit =>
    (foldValues vs (· + ·) zero (indices 0 limit)).map fun s => (s, triggers s)
  | .avg limit =>
    (foldValues vs (· + ·) zero (indices 0 limit)).map fun s =>
      (s / Float64.ofRat limit, triggers (s / Float64.ofRat limit))
  | .diff limit =>
    (vs[0]?).bind fun first =>
      diffLoop vs (fun _ => false) (fun x => first.value - x) triggers (zero, false)
        (indices 1 (limit + 1))
  | .pdiff limit =>
    (vs[0]?).bind fun first =>
      diffLoop vs (fun x => Float64.eq x zero)
        (fun x => (first.value - x) / x * Float64.ofRat 100) triggers (zero, false)
        (indices 1 (limit + 1))
  | .stddev _ =>
    (vs[0]?).map fun v =>
      let datas := vs.map HistoryData.value
      let std := computeStdDeviation datas
      let mean := computeMean datas
      let upperBound := mean + fn.rightValue * std
      let lowerBound := mean - fn.rightValue * std
      (v.value, Float64.lt v.value lowerBound || Float64.lt upperBound v.value)
  | .kdiff num limit =>
    kdiffOuter vs (fun newer older => newer - older) triggers num limit (zero, false)
      (indices 0 num)
  | .kpdiff num limit =>
    kdiffOuter vs (fun newer older => (newer - older) / newer * Float64.ofRat 100) triggers
      num limit (zero, false) (indices 0 num)

/-- The functions that check once more that the history is not empty. -/
def FuncName.rejectsEmpty : FuncName → Bool
  | .diff _ | .pdiff _ | .stddev _ | .kdiff _ _ | .kpdiff _ _ => true
  | _ => false

/-- `Compute`. -/
def Function.compute (fn : Function F) (L : List (JudgeItem F)) : Option (Computed F) :=
  (historyData L fn.name.window).bind fun p =>
    if p.2 = false ∨ (fn.name.rejectsEmpty ∧ p.1 = []) then
      some ⟨p.1, Float64.ofRat 0, false, false⟩
    else (fn.evaluate p.1).map fun r => ⟨p.1, r.1, r.2, true⟩

/-- **All eleven functions return the points `historyData` gave them.** -/
theorem vs_of_compute {fn : Function F} {L : List (JudgeItem F)} {r : Computed F}
    (h : fn.compute L = some r) :
    ∃ isEnough, historyData L fn.name.window = some (r.vs, isEnough) := by
  obtain ⟨p, hp, hr⟩ := Option.bind_eq_some_iff.mp h
  refine ⟨p.2, ?_⟩
  rw [hp]
  split at hr
  · rw [← Option.some.inj hr]
  · obtain ⟨q, -, rfl⟩ := Option.map_eq_some_iff.mp hr
    rfl

end OpenFalcon.Judge
