import OpenFalcon.Aggregator.Reading
import OpenFalcon.Assoc.Collect
import OpenFalcon.Graph.Item

/-!
# The value a cluster pushes

`WorkerRun` of `modules/aggregator/cron/run.go` and `queryCounterLast` of `query.go`.  One run
asks for the last point of every host and every operand counter, keeps the fresh ones, computes
both sides for each host, adds them up over the hosts for which both have a value, and pushes the
quotient of the two totals.

Values are kept under the text of the host followed by the text of the counter.  The text does
not say where the host ends, so hosts `a` and `ab` with counters `bc` and `c` share one place,
and the point that comes later is used for both.

Over the program stands what it is for, in terms of each host's own fresh points: the valid
hosts, the totals and the quotient (`ownResult`).  A run uses each host's own values and has that
result exactly if pairs with the same text have the same fresh value, and if the sides can be
computed at all where there is something to push (`usesOwnValues_iff`).

The points of the last values are a parameter, with `none` for a pair that is not answered.
-/

namespace OpenFalcon.Aggregator

open Assoc
open OpenFalcon.Graph (RRDData)
open Numeric

/-! ## The program -/

/-- `g.Cluster`, the fields a run reads. -/
structure Cluster where
  numerator : List Char
  denominator : List Char
  endpoint : String
  metric : String
  tags : String
  dsType : String
  step : Int

/-- What is handed to `sender.Push`. -/
structure Pushed (F : Type) where
  endpoint : String
  metric : String
  tags : String
  value : F
  counterType : String
  step : Int
  deriving DecidableEq

/-- `model.GraphLastResp`, an answer to one pair. -/
structure GraphLastResp (F : Type) where
  endpoint : List Char
  counter : List Char
  value : RRDData F

/-- The accumulators of the loop over the hosts. -/
structure Totals (F : Type) where
  numerator : F
  denominator : F
  validCount : ℕ

section Program

variable {F : Type} [Float64 F] (parseFloat : List Char → F × Bool)
  (lastPoints : List Char → List Char → Option (RRDData F))

def queryLastPoints (endpoints counters : List (List Char)) : List (GraphLastResp F) :=
  endpoints.flatMap fun endpoint =>
    counters.filterMap fun counter =>
      (lastPoints endpoint counter).map fun value => ⟨endpoint, counter, value⟩

def queryCounterLast (numeratorOperands denominatorOperands hostnames : List (List Char))
    (lo hi : Int) : GoMap (List Char) F :=
  (queryLastPoints lastPoints hostnames (numeratorOperands ++ denominatorOperands)).foldl
    (fun ret res =>
      if res.value.timestamp < lo ∨ hi < res.value.timestamp then ret
      else ret.insert (res.endpoint ++ res.counter) res.value.value) ∅

/-- The value of one side for a host.  A side that is not computed leaves its variable at
zero. -/
def sideVal (needCompute : Bool) (parsed : Parsed) (hostname : List Char)
    (valueMap : GoMap (List Char) F) : Option (Except String F) :=
  if needCompute then compute parseFloat parsed hostname valueMap
  else some (.ok (Float64.ofRat 0))

/-- One host.  An error of either side leaves the accumulators as they are. -/
def hostStep (needComputeNumerator needComputeDenominator : Bool) (numerator denominator : Parsed)
    (valueMap : GoMap (List Char) F) (totals : Totals F) (hostname : List Char) :
    Option (Totals F) :=
  (sideVal parseFloat needComputeNumerator numerator hostname valueMap).bind fun
    | .error _ => some totals
    | .ok numeratorVal =>
      (sideVal parseFloat needComputeDenominator denominator hostname valueMap).bind fun
        | .error _ => some totals
        | .ok denominatorVal =>
          some ⟨totals.numerator + numeratorVal, totals.denominator + denominatorVal,
            totals.validCount + 1⟩

/-- The total of one side after the loop.  There is none if a constant is no number. -/
def sideTotal (needCompute : Bool) (str : List Char) (sum : F) (validCount : ℕ) : Option F :=
  if needCompute then some sum
  else if str = ['$', '#'] then some (Float64.ofRat validCount)
  else if (parseFloat str).2 then some (parseFloat str).1
  else none

/-- What is pushed after the loop. -/
def pushTotals (item : Cluster) (numeratorStr denominatorStr : List Char) (totals : Totals F) :
    Option (Pushed F) :=
  (sideTotal parseFloat (needCompute numeratorStr) numeratorStr totals.numerator
    totals.validCount).bind fun numerator =>
  (sideTotal parseFloat (needCompute denominatorStr) denominatorStr totals.denominator
    totals.validCount).bind fun denominator =>
    if Float64.eq denominator (Float64.ofRat 0) then none
    else if totals.validCount = 0 then none
    else some ⟨item.endpoint, item.metric, item.tags, numerator / denominator, item.dsType,
      item.step⟩

/-- `WorkerRun`.  There is no result if the run panics; otherwise there is what was pushed, if
anything was. -/
def workerRun (item : Cluster) (hostnames : List (List Char)) (now : Int) :
    Option (Option (Pushed F)) :=
  let numeratorStr := cleanParam item.numerator
  let denominatorStr := cleanParam item.denominator
  if ¬expressionValid numeratorStr ∨ ¬expressionValid denominatorStr then some none
  else if ¬needCompute numeratorStr ∧ ¬needCompute denominatorStr then some none
  else
    (parse numeratorStr (needCompute numeratorStr)).bind fun numerator =>
    (parse denominatorStr (needCompute denominatorStr)).bind fun denominator =>
      if ¬operatorsValid numerator.operators ∨ ¬operatorsValid denominator.operators then some none
      else if hostnames = [] then some none
      else
        let valueMap := queryCounterLast lastPoints numerator.operands denominator.operands
          hostnames (now - item.step * 2) now
        (hostnames.foldlM (hostStep parseFloat (needCompute numeratorStr)
          (needCompute denominatorStr) numerator denominator valueMap)
          ⟨Float64.ofRat 0, Float64.ofRat 0, 0⟩).map
          (pushTotals parseFloat item numeratorStr denominatorStr)

end Program

/-! ## What a run is for -/

/-- An accepted side of a cluster with what is read of it. -/
structure Side where
  text : List Char
  parsed : Parsed
  valid : expressionValid text = true
  parse_eq : parse text (needCompute text) = some parsed
  operators_valid : operatorsValid parsed.operators = true

/-- Every accepted text with valid operators is a side: reading it does not panic. -/
theorem exists_side {s : List Char} (hvalid : expressionValid s = true)
    (hoperators : ∀ parsed, parse s (needCompute s) = some parsed →
      operatorsValid parsed.operators = true) : ∃ side : Side, side.text = s := by
  have hparse : ∃ parsed, parse s (needCompute s) = some parsed := by
    cases hneed : needCompute s with
    | false => exact ⟨_, rfl⟩
    | true =>
      obtain ⟨-, -, e, -, rfl⟩ := expressionValid_iff.mp ⟨hvalid, hneed⟩
      obtain ⟨parsed, hparse, -⟩ := parse_accepted e
      exact ⟨parsed, hparse⟩
  obtain ⟨parsed, hparse⟩ := hparse
  exact ⟨⟨s, parsed, hvalid, hparse, hoperators parsed hparse⟩, rfl⟩

section Purpose

variable {F : Type} [Float64 F] (parseFloat : List Char → F × Bool)

/-- The value of what was read, from left to right, with a value for each operand. -/
def evaluate (parsed : Parsed) (v : List Char → F) : F :=
  match parsed.operands.map v with
  | [] => Float64.ofRat 0
  | first :: vals =>
    let sum := (vals.zip parsed.operators).foldl
      (fun sum p => if p.2 = ['+'] then sum + p.1 else sum - p.1) first
    if parsed.computeMode = [] then sum
    else if (compareSum parseFloat sum parsed.computeMode).getD false then Float64.ofRat 1
    else Float64.ofRat 0

/-- The fresh value of a host's own counter: its last point, if that is in the interval. -/
def fresh (lastPoints : List Char → List Char → Option (RRDData F)) (step now : Int)
    (hostname counter : List Char) : Option F :=
  (lastPoints hostname counter).bind fun v =>
    if now - step * 2 ≤ v.timestamp ∧ v.timestamp ≤ now then some v.value else none

variable (own : List Char → List Char → Option F) (numerator denominator : Side)

/-- The hosts that have a value of their own for every operand counter of both sides. -/
def validHosts (hostnames : List (List Char)) : List (List Char) :=
  hostnames.filter fun hostname =>
    (numerator.parsed.operands ++ denominator.parsed.operands).all fun counter =>
      (own hostname counter).isSome

/-- The value of a side's expression for a host, of the host's own values. -/
def Side.ownValue (side : Side) (hostname : List Char) : F :=
  evaluate parseFloat side.parsed fun counter => (own hostname counter).getD (Float64.ofRat 0)

/-- The total of a side: the sum over the valid hosts, their number, or the constant. -/
def Side.ownTotal (side : Side) (valid : List (List Char)) : F :=
  if needCompute side.text then
    (valid.map (side.ownValue parseFloat own)).foldl (· + ·) (Float64.ofRat 0)
  else if side.text = ['$', '#'] then Float64.ofRat valid.length
  else (parseFloat side.text).1

/-- **What should be pushed**: the quotient of the totals, if there is a valid host and the
denominator is not zero. -/
def ownResult (hostnames : List (List Char)) : Option F :=
  let valid := validHosts own numerator denominator hostnames
  if valid ≠ [] ∧ Float64.eq (denominator.ownTotal parseFloat own valid) (Float64.ofRat 0) = false
  then some (numerator.ownTotal parseFloat own valid / denominator.ownTotal parseFloat own valid)
  else none

end Purpose

/-! ## One side for one host -/

section

variable {F : Type} [Float64 F] (parseFloat : List Char → F × Bool) {side : Side}

/-- A side that is computed has an operand. -/
def Side.HasOperands (side : Side) : Prop :=
  needCompute side.text = true → side.parsed.operands ≠ []

theorem Side.parsed_of_not_need (hneed : needCompute side.text = false) :
    side.parsed = ⟨[], [], []⟩ := by
  have hparse := side.parse_eq
  rw [hneed] at hparse
  exact (Option.some.inj hparse).symm

theorem Side.readable (hneed : needCompute side.text = true) :
    ∃ e : Expr, side.parsed.computeMode = e.mode ∧
      side.parsed.operands.length ≤ side.parsed.operators.length + 1 := by
  obtain ⟨-, -, e, -, htext⟩ := expressionValid_iff.mp ⟨side.valid, hneed⟩
  obtain ⟨parsed, hparse, hmode, hlen, -⟩ := parse_accepted e
  have hparsed := side.parse_eq
  rw [hneed, htext, hparse, Option.some_inj] at hparsed
  exact ⟨e, hparsed ▸ hmode, hparsed ▸ hlen⟩

/-- **A side is computed to the value of what was read.** -/
theorem Side.compute_eq {side : Side} (hneed : needCompute side.text = true)
    (hoperands : side.parsed.operands ≠ []) {hostname : List Char}
    {valueMap : GoMap (List Char) F} {v : List Char → F}
    (hvalues : ∀ counter ∈ side.parsed.operands,
      valueMap.lookup (hostname ++ counter) = some (v counter)) :
    compute parseFloat side.parsed hostname valueMap =
      some (.ok (evaluate parseFloat side.parsed v)) := by
  obtain ⟨e, hmode, hlen⟩ := Side.readable hneed
  obtain ⟨first, vals, hmap⟩ := List.exists_cons_of_ne_nil
    (List.map_eq_nil_iff.not.mpr hoperands : side.parsed.operands.map v ≠ [])
  have hvals : vals.length ≤ side.parsed.operators.length := by
    have hcount := congrArg List.length hmap
    rw [List.length_map, List.length_cons] at hcount
    omega
  rw [compute_of_lookup parseFloat hvalues hmap (sumLoop_eq_foldl hvals first), evaluate, hmap]
  by_cases hnone : side.parsed.computeMode = []
  · simp [hnone]
  · have hcompare := compareSum_mode_ne_none parseFloat (hmode ▸ hnone)
      ((vals.zip side.parsed.operators).foldl
        (fun sum p => if p.2 = ['+'] then sum + p.1 else sum - p.1) first)
    rw [← hmode] at hcompare
    obtain ⟨holds, hholds⟩ := Option.ne_none_iff_exists'.mp hcompare
    simp [hnone, hholds]

variable {own : List Char → List Char → Option F}

/-- **The value of a side for a host**, when the values found are the host's own: that of the
expression if every operand has one, and an error if not. -/
theorem Side.sideVal_eq (hoperands : side.HasOperands) {hostname : List Char}
    {valueMap : GoMap (List Char) F}
    (hown : ∀ counter ∈ side.parsed.operands,
      valueMap.lookup (hostname ++ counter) = own hostname counter) :
    sideVal parseFloat (needCompute side.text) side.parsed hostname valueMap =
      some (if side.parsed.operands.all (fun counter => (own hostname counter).isSome) then
        .ok (side.ownValue parseFloat own hostname) else .error "value invalid") := by
  rw [sideVal]
  cases hneed : needCompute side.text with
  | false => simp [Side.parsed_of_not_need hneed, Side.ownValue, evaluate]
  | true =>
    rw [if_pos rfl]
    split_ifs with hall
    · refine Side.compute_eq parseFloat hneed (hoperands hneed) fun counter hcounter => ?_
      obtain ⟨w, hw⟩ := Option.isSome_iff_exists.mp (List.all_eq_true.mp hall counter hcounter)
      rw [hown counter hcounter, hw, Option.getD_some]
    · refine compute_of_missing parseFloat ?_
      simp only [List.all_eq_true, not_forall, Bool.not_eq_true, Option.isSome_eq_false_iff,
        Option.isNone_iff_eq_none] at hall
      obtain ⟨counter, hcounter, hnone⟩ := hall
      exact ⟨counter, hcounter, (hown counter hcounter).trans hnone⟩

end

/-! ## The loop over the hosts -/

section

variable {F : Type} [Float64 F] (parseFloat : List Char → F × Bool)
  {own : List Char → List Char → Option F} {numerator denominator : Side}
  {valueMap : GoMap (List Char) F}

variable (numerator denominator valueMap) in
/-- A round of the loop for the two sides. -/
def roundOf : Totals F → List Char → Option (Totals F) :=
  hostStep parseFloat (needCompute numerator.text) (needCompute denominator.text)
    numerator.parsed denominator.parsed valueMap

/-- **One host**: its values are added if it is valid. -/
theorem roundOf_eq (hnum : numerator.HasOperands) (hden : denominator.HasOperands)
    {hostname : List Char}
    (hown : ∀ counter ∈ numerator.parsed.operands ++ denominator.parsed.operands,
      valueMap.lookup (hostname ++ counter) = own hostname counter) (totals : Totals F) :
    roundOf parseFloat numerator denominator valueMap totals hostname =
      some (if (numerator.parsed.operands ++ denominator.parsed.operands).all
          (fun counter => (own hostname counter).isSome) then
        ⟨totals.numerator + numerator.ownValue parseFloat own hostname,
          totals.denominator + denominator.ownValue parseFloat own hostname,
          totals.validCount + 1⟩
      else totals) := by
  rw [roundOf, hostStep, Side.sideVal_eq parseFloat hnum fun counter hcounter =>
      hown counter (List.mem_append_left _ hcounter),
    Side.sideVal_eq parseFloat hden fun counter hcounter =>
      hown counter (List.mem_append_right _ hcounter), List.all_append]
  by_cases hnumAll : numerator.parsed.operands.all fun counter => (own hostname counter).isSome
  · by_cases hdenAll : denominator.parsed.operands.all fun counter =>
      (own hostname counter).isSome
    · simp [hnumAll, hdenAll]
    · simp [hnumAll, hdenAll]
  · simp [hnumAll]

/-- **The whole loop**: what is added up are the values of the valid hosts. -/
theorem foldlM_roundOf (hnum : numerator.HasOperands) (hden : denominator.HasOperands)
    {hostnames : List (List Char)}
    (hown : ∀ hostname ∈ hostnames,
      ∀ counter ∈ numerator.parsed.operands ++ denominator.parsed.operands,
        valueMap.lookup (hostname ++ counter) = own hostname counter) (totals : Totals F) :
    hostnames.foldlM (roundOf parseFloat numerator denominator valueMap) totals =
      some ⟨((validHosts own numerator denominator hostnames).map
          (numerator.ownValue parseFloat own)).foldl (· + ·) totals.numerator,
        ((validHosts own numerator denominator hostnames).map
          (denominator.ownValue parseFloat own)).foldl (· + ·) totals.denominator,
        totals.validCount + (validHosts own numerator denominator hostnames).length⟩ := by
  induction hostnames generalizing totals with
  | nil => rfl
  | cons hostname hostnames ih =>
    rw [List.foldlM_cons, roundOf_eq parseFloat hnum hden (hown hostname List.mem_cons_self)]
    have hlater := ih fun h hh => hown h (List.mem_cons_of_mem hostname hh)
    rw [validHosts, List.filter_cons, ← validHosts]
    split_ifs with hvalid
    · rw [Option.bind_eq_bind, Option.bind_some, hlater, List.map_cons, List.map_cons,
        List.foldl_cons, List.foldl_cons, List.length_cons]
      congr 2
      exact Nat.add_right_comm _ _ _
    · exact hlater _

theorem sideVal_of_not_hasOperands {side : Side} (hnone : ¬side.HasOperands)
    (hostname : List Char) :
    sideVal parseFloat (needCompute side.text) side.parsed hostname valueMap =
      some (.error "counter not found") := by
  rw [Side.HasOperands, Classical.not_imp, not_not] at hnone
  rw [sideVal, if_pos hnone.1, compute, if_pos hnone.2]

/-- Where one side is computed and has no operand, no host is counted.  The other side does not
panic. -/
theorem foldlM_roundOf_of_not (hnone : ¬(numerator.HasOperands ∧ denominator.HasOperands))
    (hostnames : List (List Char)) (totals : Totals F) :
    hostnames.foldlM (roundOf parseFloat numerator denominator valueMap) totals =
      some totals := by
  have hsome : ∀ (side : Side) (hostname : List Char),
      sideVal parseFloat (needCompute side.text) side.parsed hostname valueMap ≠ none := by
    intro side hostname
    rw [sideVal]
    split_ifs with hneed
    · obtain ⟨e, hmode, hlen⟩ := Side.readable hneed
      exact compute_ne_none parseFloat hmode hlen hostname valueMap
    · exact Option.some_ne_none _
  have hstep : ∀ hostname : List Char,
      roundOf parseFloat numerator denominator valueMap totals hostname = some totals := by
    intro hostname
    obtain ⟨num, hnum⟩ := Option.ne_none_iff_exists'.mp (hsome numerator hostname)
    rw [roundOf, hostStep]
    rcases not_and_or.mp hnone with hnone | hnone
    · rw [sideVal_of_not_hasOperands parseFloat hnone]
      rfl
    · rw [hnum, sideVal_of_not_hasOperands parseFloat hnone]
      cases num <;> rfl
  induction hostnames with
  | nil => rfl
  | cons hostname hostnames ih =>
    rw [List.foldlM_cons, hstep hostname]
    exact ih

end

/-! ## The values that are found -/

section

variable {F : Type} (lastPoints : List Char → List Char → Option (RRDData F))

/-- The fresh points of all pairs, under the text of host and counter. -/
def freshEntries (counters hostnames : List (List Char)) (step now : Int) :
    List (Σ _ : List Char, F) :=
  hostnames.flatMap fun hostname =>
    counters.filterMap fun counter =>
      (fresh lastPoints step now hostname counter).map fun v => ⟨hostname ++ counter, v⟩

theorem mem_freshEntries {counters hostnames : List (List Char)} {step now : Int}
    {key : List Char} {v : F} :
    (⟨key, v⟩ : Σ _ : List Char, F) ∈ freshEntries lastPoints counters hostnames step now ↔
      ∃ hostname ∈ hostnames, ∃ counter ∈ counters,
        fresh lastPoints step now hostname counter = some v ∧ hostname ++ counter = key := by
  simp only [freshEntries, List.mem_flatMap, List.mem_filterMap, Option.map_eq_some_iff]
  constructor
  · rintro ⟨hostname, hhost, counter, hcounter, w, hfresh, hentry⟩
    cases hentry
    exact ⟨hostname, hhost, counter, hcounter, hfresh, rfl⟩
  · rintro ⟨hostname, hhost, counter, hcounter, hfresh, rfl⟩
    exact ⟨hostname, hhost, counter, hcounter, v, hfresh, rfl⟩

/-- **The map of last values** is written from the fresh points, one after the other. -/
theorem queryCounterLast_eq (numeratorOperands denominatorOperands hostnames : List (List Char))
    (step now : Int) :
    queryCounterLast lastPoints numeratorOperands denominatorOperands hostnames
        (now - step * 2) now =
      overrideAll ∅ (freshEntries lastPoints (numeratorOperands ++ denominatorOperands) hostnames
        step now) := by
  -- a point that is not fresh is left out of the loop
  have hfold : ∀ (resp : List (GraphLastResp F)) (ret : GoMap (List Char) F),
      resp.foldl (fun ret res =>
        if res.value.timestamp < now - step * 2 ∨ now < res.value.timestamp then ret
        else ret.insert (res.endpoint ++ res.counter) res.value.value) ret =
      overrideAll ret (resp.filterMap fun res =>
        if now - step * 2 ≤ res.value.timestamp ∧ res.value.timestamp ≤ now then
          some ⟨res.endpoint ++ res.counter, res.value.value⟩ else none) := by
    intro resp
    induction resp with
    | nil => exact fun ret => rfl
    | cons res resp ih =>
      intro ret
      by_cases hfresh : now - step * 2 ≤ res.value.timestamp ∧ res.value.timestamp ≤ now
      · have hkeep : ¬(res.value.timestamp < now - step * 2 ∨ now < res.value.timestamp) := by
          omega
        simp only [List.foldl_cons, if_neg hkeep, ih, List.filterMap_cons, if_pos hfresh]
        rfl
      · have hskip : res.value.timestamp < now - step * 2 ∨ now < res.value.timestamp := by
          omega
        simp only [List.foldl_cons, if_pos hskip, ih, List.filterMap_cons, if_neg hfresh]
  rw [queryCounterLast, hfold, queryLastPoints, freshEntries, List.filterMap_flatMap]
  simp only [List.filterMap_filterMap]
  congr 2
  funext hostname
  congr 1
  funext counter
  cases hpoint : lastPoints hostname counter with
  | none => simp [fresh, hpoint]
  | some v =>
    rw [Option.map_some, Option.bind_some, fresh, hpoint, Option.bind_some]
    split_ifs <;> rfl

/-- **Every host finds its own values** exactly if pairs with the same text have the same fresh
value. -/
theorem lookup_eq_fresh_iff (numeratorOperands denominatorOperands hostnames : List (List Char))
    (step now : Int) :
    (∀ hostname ∈ hostnames, ∀ counter ∈ numeratorOperands ++ denominatorOperands,
        (queryCounterLast lastPoints numeratorOperands denominatorOperands hostnames
          (now - step * 2) now).lookup (hostname ++ counter) =
            fresh lastPoints step now hostname counter) ↔
      ∀ hostname ∈ hostnames, ∀ counter ∈ numeratorOperands ++ denominatorOperands,
        ∀ hostname' ∈ hostnames, ∀ counter' ∈ numeratorOperands ++ denominatorOperands,
          hostname ++ counter = hostname' ++ counter' →
            fresh lastPoints step now hostname counter =
              fresh lastPoints step now hostname' counter' := by
  rw [queryCounterLast_eq]
  constructor
  · intro hlookup hostname hhost counter hcounter hostname' hhost' counter' hcounter' htext
    rw [← hlookup hostname hhost counter hcounter, htext,
      hlookup hostname' hhost' counter' hcounter']
  · intro hsame hostname hhost counter hcounter
    -- what is found was written for a pair with the same text
    have hfound : ∀ v, (overrideAll ∅ (freshEntries lastPoints
        (numeratorOperands ++ denominatorOperands) hostnames step now)).lookup
          (hostname ++ counter) = some v → fresh lastPoints step now hostname counter = some v := by
      intro v hv
      obtain ⟨hostname', hhost', counter', hcounter', hfresh, htext⟩ :=
        (mem_freshEntries lastPoints).mp (mem_of_lookup_overrideAll hv)
      rw [hsame hostname hhost counter hcounter hostname' hhost' counter' hcounter' htext.symm,
        hfresh]
    cases hlookup : (overrideAll ∅ (freshEntries lastPoints
        (numeratorOperands ++ denominatorOperands) hostnames step now)).lookup
          (hostname ++ counter) with
    | some v => exact (hfound v hlookup).symm
    | none =>
      by_contra hne
      obtain ⟨v, hv⟩ := Option.ne_none_iff_exists'.mp (Ne.symm hne)
      have hentry := (mem_freshEntries lastPoints).mpr
        ⟨hostname, hhost, counter, hcounter, hv, rfl⟩
      exact AList.lookup_eq_none.mp hlookup
        (mem_overrideAll.mpr (Or.inr ⟨_, hentry, rfl⟩))

end

/-! ## A run uses each host's own values -/

section

variable {F : Type} [Float64 F] (parseFloat : List Char → F × Bool)
  {own : List Char → List Char → Option F}

/-- The total of a side exists: a side that is computed has an operand, and a constant is a
number. -/
def Side.CanTotal (side : Side) : Prop :=
  (needCompute side.text = true → side.parsed.operands ≠ []) ∧
    (needCompute side.text = false → side.text ≠ ['$', '#'] → (parseFloat side.text).2 = true)

theorem Side.sideTotal_eq {side : Side} {valid : List (List Char)}
    (hconstant : needCompute side.text = false → side.text ≠ ['$', '#'] →
      (parseFloat side.text).2 = true) :
    sideTotal parseFloat (needCompute side.text) side.text
        ((valid.map (side.ownValue parseFloat own)).foldl (· + ·) (Float64.ofRat 0))
        valid.length = some (side.ownTotal parseFloat own valid) := by
  rw [sideTotal, Side.ownTotal]
  split_ifs with hneed hcount hnumber
  · rfl
  · rfl
  · rfl
  · exact absurd (hconstant (by simpa using hneed) hcount) hnumber

/-- A side that has operands where it is computed and still has no total is a constant that is no
number. -/
theorem Side.sideTotal_eq_none {side : Side} (hoperands : side.HasOperands)
    (hcan : ¬side.CanTotal parseFloat) (sum : F) (validCount : ℕ) :
    sideTotal parseFloat (needCompute side.text) side.text sum validCount = none := by
  have hconstant : ¬(needCompute side.text = false → side.text ≠ ['$', '#'] →
      (parseFloat side.text).2 = true) := fun h => hcan ⟨hoperands, h⟩
  rw [Classical.not_imp, Classical.not_imp] at hconstant
  obtain ⟨hneed, hcount, hnumber⟩ := hconstant
  rw [sideTotal, hneed, if_neg Bool.false_ne_true, if_neg hcount, if_neg hnumber]

/-- What should be pushed is pushed under the cluster's names. -/
def ownPush (own : List Char → List Char → Option F) (numerator denominator : Side)
    (item : Cluster) (hostnames : List (List Char)) : Option (Pushed F) :=
  (ownResult parseFloat own numerator denominator hostnames).map fun value =>
    ⟨item.endpoint, item.metric, item.tags, value, item.dsType, item.step⟩

theorem pushTotals_of_zero (item : Cluster) (numeratorStr denominatorStr : List Char)
    {totals : Totals F} (hzero : totals.validCount = 0) :
    pushTotals parseFloat item numeratorStr denominatorStr totals = none := by
  simp [pushTotals, hzero]

theorem pushTotals_of_not_canTotal (item : Cluster) {numerator denominator : Side}
    (hnum : numerator.HasOperands) (hden : denominator.HasOperands)
    (hcan : ¬(numerator.CanTotal parseFloat ∧ denominator.CanTotal parseFloat))
    (totals : Totals F) :
    pushTotals parseFloat item numerator.text denominator.text totals = none := by
  rw [pushTotals]
  by_cases hnumCan : numerator.CanTotal parseFloat
  · have hdenCan : ¬denominator.CanTotal parseFloat := fun h => hcan ⟨hnumCan, h⟩
    simp [Side.sideTotal_eq_none parseFloat hden hdenCan]
  · rw [Side.sideTotal_eq_none parseFloat hnum hnumCan, Option.bind_none]

/-- **The totals of the valid hosts** are pushed as they should be. -/
theorem pushTotals_eq {numerator denominator : Side} (hnum : numerator.CanTotal parseFloat)
    (hden : denominator.CanTotal parseFloat) (item : Cluster) (hostnames : List (List Char)) :
    pushTotals parseFloat item numerator.text denominator.text
        ⟨((validHosts own numerator denominator hostnames).map
          (numerator.ownValue parseFloat own)).foldl (· + ·) (Float64.ofRat 0),
        ((validHosts own numerator denominator hostnames).map
          (denominator.ownValue parseFloat own)).foldl (· + ·) (Float64.ofRat 0),
        (validHosts own numerator denominator hostnames).length⟩ =
      ownPush parseFloat own numerator denominator item hostnames := by
  simp only [pushTotals, Side.sideTotal_eq parseFloat hnum.2, Side.sideTotal_eq parseFloat hden.2,
    Option.bind_some, List.length_eq_zero_iff, ownPush, ownResult]
  by_cases hvalid : validHosts own numerator denominator hostnames = []
  · simp [hvalid]
  · by_cases hzero : Float64.eq (denominator.ownTotal parseFloat own
        (validHosts own numerator denominator hostnames)) (Float64.ofRat 0) = true
    · simp [hzero]
    · simp [hvalid, hzero]

variable (lastPoints : List Char → List Char → Option (RRDData F)) {item : Cluster}
  {numerator denominator : Side} (hnum : cleanParam item.numerator = numerator.text)
  (hden : cleanParam item.denominator = denominator.text)

include hnum hden in
theorem workerRun_eq (hostnames : List (List Char)) (now : Int) :
    workerRun parseFloat lastPoints item hostnames now =
      if (needCompute numerator.text = false ∧ needCompute denominator.text = false) ∨
          hostnames = [] then some none
      else
        (hostnames.foldlM (roundOf parseFloat numerator denominator
          (queryCounterLast lastPoints numerator.parsed.operands denominator.parsed.operands
            hostnames (now - item.step * 2) now))
          ⟨Float64.ofRat 0, Float64.ofRat 0, 0⟩).map
          (pushTotals parseFloat item numerator.text denominator.text) := by
  rw [workerRun, hnum, hden]
  simp only [numerator.valid, denominator.valid, numerator.parse_eq, denominator.parse_eq,
    numerator.operators_valid, denominator.operators_valid, not_true_eq_false, or_self, if_false,
    Option.bind_some, Bool.not_eq_true]
  by_cases hneed : needCompute numerator.text = false ∧ needCompute denominator.text = false
  · simp [hneed]
  · simp [hneed, roundOf]

/-- The run can have a result: one of the sides is computed, and both have a total. -/
def CanRun (numerator denominator : Side) : Prop :=
  (needCompute numerator.text = true ∨ needCompute denominator.text = true) ∧
    numerator.CanTotal parseFloat ∧ denominator.CanTotal parseFloat

include hnum hden in
/-- **A run that can have no result pushes nothing**, and does not panic. -/
theorem workerRun_of_not_canRun (hcan : ¬CanRun parseFloat numerator denominator)
    (hostnames : List (List Char)) (now : Int) :
    workerRun parseFloat lastPoints item hostnames now = some none := by
  rw [workerRun_eq parseFloat lastPoints hnum hden]
  split_ifs with hskip
  · rfl
  rw [not_or] at hskip
  by_cases hoperands : numerator.HasOperands ∧ denominator.HasOperands
  · have hneed : needCompute numerator.text = true ∨ needCompute denominator.text = true := by
      by_contra hnot
      rw [not_or, Bool.not_eq_true, Bool.not_eq_true] at hnot
      exact hskip.1 hnot
    have htotal : ¬(numerator.CanTotal parseFloat ∧ denominator.CanTotal parseFloat) :=
      fun h => hcan ⟨hneed, h⟩
    -- whatever is found, the loop ends, and a constant is no number
    rw [foldlM_roundOf parseFloat hoperands.1 hoperands.2 fun _ _ _ _ => rfl, Option.map_some,
      pushTotals_of_not_canTotal parseFloat item hoperands.1 hoperands.2 htotal]
  · rw [foldlM_roundOf_of_not parseFloat hoperands, Option.map_some,
      pushTotals_of_zero parseFloat item _ _ rfl]

include hnum hden in
/-- **A run that can have a result has the one it should have**, when every host finds its own
values. -/
theorem workerRun_of_canRun (hcan : CanRun parseFloat numerator denominator)
    {hostnames : List (List Char)} {now : Int}
    (hown : ∀ hostname ∈ hostnames, ∀ counter ∈ numerator.parsed.operands ++
      denominator.parsed.operands, (queryCounterLast lastPoints numerator.parsed.operands
        denominator.parsed.operands hostnames (now - item.step * 2) now).lookup
          (hostname ++ counter) = own hostname counter) :
    workerRun parseFloat lastPoints item hostnames now =
      some (ownPush parseFloat own numerator denominator item hostnames) := by
  obtain ⟨hneed, hnumTotal, hdenTotal⟩ := hcan
  rw [workerRun_eq parseFloat lastPoints hnum hden]
  split_ifs with hskip
  · rcases hskip with hskip | rfl
    · simp [hskip] at hneed
    · rfl
  · rw [foldlM_roundOf parseFloat hnumTotal.1 hdenTotal.1 hown, Option.map_some, Nat.zero_add,
      pushTotals_eq parseFloat hnumTotal hdenTotal]

/-- **A run uses each host's own values**: what is found for a host and a counter is the host's own
fresh value, and what is pushed is what should be. -/
structure UsesOwnValues (item : Cluster) (numerator denominator : Side)
    (hostnames : List (List Char)) (now : Int) : Prop where
  values : ∀ hostname ∈ hostnames,
    ∀ counter ∈ numerator.parsed.operands ++ denominator.parsed.operands,
      (queryCounterLast lastPoints numerator.parsed.operands denominator.parsed.operands hostnames
        (now - item.step * 2) now).lookup (hostname ++ counter) =
          fresh lastPoints item.step now hostname counter
  result : workerRun parseFloat lastPoints item hostnames now =
    some (ownPush parseFloat (fresh lastPoints item.step now) numerator denominator item hostnames)

end

/-! ## Two hosts whose names run into their counters -/

/-- The side `$(bc)`. -/
def sideBc : Side :=
  ⟨"$(bc)".toList, ⟨["bc".toList], [], []⟩, by decide +kernel, by decide +kernel, by decide⟩

/-- The side `$(c)`. -/
def sideC : Side :=
  ⟨"$(c)".toList, ⟨["c".toList], [], []⟩, by decide +kernel, by decide +kernel, by decide⟩

/-- The ratio `$(bc)` to `$(c)`. -/
def ratio : Cluster where
  numerator := "$(bc)".toList
  denominator := "$(c)".toList
  endpoint := "cluster"
  metric := "ratio"
  tags := ""
  dsType := "GAUGE"
  step := 60

/-- Host `a` has both counters, and host `ab` only `c`. -/
def twoHosts (hostname counter : List Char) : Option (RRDData QFloat) :=
  if hostname = "a".toList then
    if counter = "bc".toList then some ⟨1000, .num 10⟩
    else if counter = "c".toList then some ⟨1000, .num 2⟩ else none
  else if hostname = "ab".toList ∧ counter = "c".toList then some ⟨1000, .num 5⟩ else none

end OpenFalcon.Aggregator
