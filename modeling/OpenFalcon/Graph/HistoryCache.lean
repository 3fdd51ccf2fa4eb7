import OpenFalcon.Graph.LastValue
import OpenFalcon.Numeric.FloatOrder
import OpenFalcon.Numeric.Int64

/-!
# The cache of last values

`modules/graph/store/history.go` keeps the three newest items of every counter.  `AddItem` pushes an
item only if it is newer than the front one, so what it accepts are the records of the items it was
called with, and the list is the last three of them (`getAllItems_addItems`).  Everything that is
said about the list follows: it is newest first, and its front item is the newest that was ever
added.

`GetLast` divides the increase of a counter by the difference of two timestamps, on 64 bits.  The
list is newest first, so the true difference is positive, and if it is too large for 64 bits, the
code computes a negative number, which is no step: `getLast64` is `getLast`.
-/

namespace OpenFalcon.Graph

open Numeric Order

variable {F : Type} {key : String}

/-! ## Calls of `AddItem` -/

/-- A sequence of calls of `AddItem`, each with its key. -/
def HistoryCache.addItems (this : HistoryCache F) (calls : List (String × GraphItem F)) :
    HistoryCache F :=
  calls.foldl (fun cache call => cache.addItem call.1 call.2) this

/-- The items of the calls with a key, the last call first. -/
def addedTo (key : String) (calls : List (String × GraphItem F)) : List (GraphItem F) :=
  ((calls.filter fun call => call.1 = key).map Prod.snd).reverse

theorem addedTo_append_singleton (key : String) (calls : List (String × GraphItem F))
    (call : String × GraphItem F) :
    addedTo key (calls ++ [call]) =
      if call.1 = key then call.2 :: addedTo key calls else addedTo key calls := by
  rw [addedTo, List.filter_append, List.map_append, List.reverse_append, addedTo]
  by_cases hkey : call.1 = key
  · simp [hkey]
  · simp [hkey]

variable (this : HistoryCache F)

theorem HistoryCache.addItem_eq (key : String) (val : GraphItem F) :
    this.addItem key val =
      if ∀ first, (this.getAllItems key).head? = some first → first.timestamp < val.timestamp then
        this.insert key ((val :: this.getAllItems key).take defaultHistorySize)
      else this := by
  have hslist : (this.lookup key).getD [] = this.getAllItems key := rfl
  unfold addItem
  simp only [hslist]
  cases this.getAllItems key with
  | nil => simp
  | cons first rest => simp

theorem HistoryCache.getAllItems_addItem (key : String) (val : GraphItem F) :
    (this.addItem key val).getAllItems key =
      if ∀ first, (this.getAllItems key).head? = some first → first.timestamp < val.timestamp then
        (val :: this.getAllItems key).take defaultHistorySize
      else this.getAllItems key := by
  rw [addItem_eq]
  split_ifs
  · rw [getAllItems, AList.lookup_insert, Option.getD_some]
  · rfl

theorem HistoryCache.getAllItems_addItem_of_ne {key' : String} (hne : key' ≠ key)
    (val : GraphItem F) : (this.addItem key' val).getAllItems key = this.getAllItems key := by
  rw [addItem_eq]
  split_ifs
  · rw [getAllItems, AList.lookup_insert_ne hne.symm, getAllItems]
  · rfl

variable {cache : HistoryCache F}

/-- **The list is the last three records**, the newest first. -/
theorem getAllItems_addItems (hfresh : cache.getAllItems key = [])
    (calls : List (String × GraphItem F)) :
    (cache.addItems calls).getAllItems key =
      (records GraphItem.timestamp (addedTo key calls)).take defaultHistorySize := by
  induction calls using List.reverseRecOn with
  | nil => exact hfresh
  | append_singleton calls call ih =>
    rw [HistoryCache.addItems, List.foldl_append, List.foldl_cons, List.foldl_nil,
      addedTo_append_singleton]
    show HistoryCache.getAllItems ((cache.addItems calls).addItem call.1 call.2) key = _
    by_cases hkey : call.1 = key
    · rw [if_pos hkey, hkey, HistoryCache.getAllItems_addItem, ih, records_cons, List.head?_take,
        if_neg (show ¬ defaultHistorySize = 0 by decide)]
      split_ifs
      · show call.2 :: _ = call.2 :: _
        rw [List.take_take]
        rfl
      · rfl
    · rw [if_neg hkey, HistoryCache.getAllItems_addItem_of_ne _ hkey, ih]

/-! ## `GetLast` on 64 bits -/

variable [Float64 F]

/-- The rate of a counter from its history, with the difference of the timestamps on 64 bits. -/
def lastRate64 (step : Int) : List (GraphItem F) → RRDData F
  | f0 :: f1 :: _ =>
    let delta_ts := wrap64 (f0.timestamp - f1.timestamp)
    if delta_ts ≠ step ∨ delta_ts ≤ 0 then noValue
    else ⟨f0.timestamp, increase f0 f1 / Float64.ofRat (delta_ts : Int)⟩
  | _ => noValue

/-- `GetLast` on 64 bits. -/
def getLast64 (env : QueryEnv F) (history : HistoryCache F) (endpoint counter : String) :
    RRDData F :=
  match env.getTypeAndStep endpoint counter with
  | none => noValue
  | some (dsType, step) =>
    if dsType = GAUGE then getLastRaw env.md5 history endpoint counter
    else if dsType = COUNTER ∨ dsType = DERIVE then
      lastRate64 step (history.getAllItems (env.md5 (endpoint ++ "/" ++ counter)))
    else noValue

/-- A difference that does not fit is no step: it is larger than one, and on 64 bits it is
negative. -/
theorem lastRate64_eq {step : Int} (hstep : Fits64 step) {items : List (GraphItem F)}
    (hfits : ∀ it ∈ items, Fits64 it.timestamp) (hnewest : NewestFirst GraphItem.timestamp items) :
    lastRate64 step items = lastRate step items := by
  match items with
  | [] => rfl
  | [_] => rfl
  | f0 :: f1 :: rest =>
    have hlt : f1.timestamp < f0.timestamp :=
      (newestFirst_cons.mp hnewest).1 f1 List.mem_cons_self
    have hf0 := hfits f0 List.mem_cons_self
    have hf1 := hfits f1 (List.mem_cons_of_mem _ List.mem_cons_self)
    unfold Fits64 at hstep hf0 hf1
    rw [lastRate64, lastRate]
    by_cases hclose : f0.timestamp - f1.timestamp < 2 ^ 63
    · rw [wrap64_eq_iff.mpr ⟨by omega, hclose⟩]
    · have hneg : ¬ 0 < wrap64 (f0.timestamp - f1.timestamp) :=
        fun hpos => hclose ((wrap64_pos_iff (by omega) (by omega)).mp hpos)
      rw [if_pos (Or.inr (not_lt.mp hneg)), if_pos (Or.inl (by omega))]

/-- A rate taken over one step is not negative: it is at least 0, or it is `NaN` because the
difference of the values is. -/
structure OneStepRate (step : Int) (f0 f1 : GraphItem F) (d : RRDData F) : Prop where
  step_pos : 0 < step
  interval : f0.timestamp - f1.timestamp = step
  timestamp : d.timestamp = f0.timestamp
  value : d.value = increase f0 f1 / Float64.ofRat step
  not_neg : Float64.lt d.value (Float64.ofRat 0) = false
  nonneg : Float64.isNaN (f0.value - f1.value) = false → Float64.le (Float64.ofRat 0) d.value = true

variable [FloatOrder F]

theorem increase_nonneg {f0 f1 : GraphItem F} (h : Float64.isNaN (f0.value - f1.value) = false) :
    Float64.le (Float64.ofRat 0) (increase f0 f1) = true := by
  unfold increase
  split_ifs with hlt
  · exact FloatOrder.le_ofRat le_rfl
  · exact (FloatOrder.le_iff_not_lt (FloatOrder.isNaN_ofRat 0) h).mpr (Bool.eq_false_iff.mpr hlt)

theorem rate_not_neg (f0 f1 : GraphItem F) {step : Int} (hpos : 0 < step) (hlt : step < 2 ^ 64) :
    Float64.lt (increase f0 f1 / Float64.ofRat step) (Float64.ofRat 0) = false := by
  cases hnan : Float64.isNaN (f0.value - f1.value) with
  | false => exact FloatOrder.not_lt_of_le (FloatOrder.div_nonneg (increase_nonneg hnan) hpos hlt)
  | true =>
    have hincrease : increase f0 f1 = Float64.nan := by
      unfold increase
      rw [FloatOrder.not_lt_of_isNaN hnan, if_neg Bool.false_ne_true]
      exact Float64.eq_nan_of_isNaN hnan
    rw [hincrease, FloatOrder.nan_div]
    exact FloatOrder.not_lt_of_isNaN Float64.isNaN_nan _

/-- What `GetLast` makes of a list that is newest first: nothing, or a rate over one step. -/
theorem lastRate_cases {step : Int} (hstep : Fits64 step) (items : List (GraphItem F)) :
    lastRate step items = noValue ∨
      ∃ f0 f1 rest, items = f0 :: f1 :: rest ∧ OneStepRate step f0 f1 (lastRate step items) := by
  match items with
  | [] => exact Or.inl rfl
  | [_] => exact Or.inl rfl
  | f0 :: f1 :: rest =>
    by_cases hdelta : f0.timestamp - f1.timestamp ≠ step ∨ f0.timestamp - f1.timestamp ≤ 0
    · exact Or.inl (if_pos hdelta)
    · rw [not_or, not_not] at hdelta
      obtain ⟨hinterval, hpos⟩ := hdelta
      have hrate : lastRate step (f0 :: f1 :: rest) =
          ⟨f0.timestamp, increase f0 f1 / Float64.ofRat step⟩ := by
        rw [lastRate, if_neg (not_or.mpr ⟨not_not.mpr hinterval, hpos⟩), hinterval]
      have hlt : step < 2 ^ 64 := by
        unfold Fits64 at hstep
        omega
      rw [hinterval, not_le] at hpos
      rw [hrate]
      refine Or.inr ⟨f0, f1, rest, rfl, hpos, hinterval, rfl, rfl, rate_not_neg f0 f1 hpos hlt, ?_⟩
      intro hnan
      exact FloatOrder.div_nonneg (increase_nonneg hnan) hpos hlt

omit [Float64 F] [FloatOrder F] in
/-- What the calls of `AddItem` leave for one counter. -/
structure LastItems (added items : List (GraphItem F)) : Prop where
  length_le : items.length ≤ 3
  newestFirst : NewestFirst GraphItem.timestamp items
  eq_records : items = (records GraphItem.timestamp added).take 3
  head : added ≠ [] → ∃ first, items.head? = some first ∧ first ∈ added ∧
    ∀ it ∈ added, it.timestamp ≤ first.timestamp

omit [Float64 F] [FloatOrder F] in
theorem lastItems_addItems (hfresh : cache.getAllItems key = [])
    (calls : List (String × GraphItem F)) :
    LastItems (addedTo key calls) ((cache.addItems calls).getAllItems key) := by
  rw [getAllItems_addItems hfresh]
  refine ⟨List.length_take_le _ _, (newestFirst_records _).sublist (List.take_sublist _ _), rfl,
    fun hne => ?_⟩
  obtain ⟨first, hfirst, hmax⟩ := exists_head?_records GraphItem.timestamp hne
  refine ⟨first, ?_, (records_sublist _).mem (List.mem_of_mem_head? hfirst), hmax⟩
  rw [List.head?_take, if_neg (by decide), hfirst]

/-- Calls with items that are old or repeated between those that are new. -/
def disorderedCalls : List (String × GraphItem QFloat) :=
  [("host/metric", counterItem 720 (.num 10)), ("host/metric", counterItem 660 (.num 90)),
    ("host/other", counterItem 900 (.num 1)), ("host/metric", counterItem 780 (.num 70)),
    ("host/metric", counterItem 780 (.num 71))]

end OpenFalcon.Graph
