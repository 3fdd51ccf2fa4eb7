import OpenFalcon.Graph.QueryExact
import OpenFalcon.Numeric.Int64

/-!
# The window of a query on 64 bits

`Graph.Query` models `Query` with unbounded timestamps.  The code computes with `int64`, and `Start`
and `End` are any numbers a client sends.  Rounding `End` up can pass the largest integer, and then
the check of the range, a difference itself, wraps around as well and passes; what is left is a
number of points no slice can have.  And even without overflow a client can ask for more points
than `make` gives.

`computed` lists every timestamp `Query` computes on its way through the merge, as an exact number:
as long as they all fit into 64 bits the code computes these very numbers, and the first that does
not fit is the first that comes out wrong.  `window_safe_iff` says exactly when all fit, the size of
the response is one that `make` accepts and its times are those of the window; the response is
then the one of `query` (`map_timestamp_query`).
-/

namespace OpenFalcon.Graph

open Numeric Order

variable {F : Type}

/-! ## The source on 64 bits -/

/-- `start_ts`. -/
def startTs64 (start step : Int) : Int := wrap64 (start - start.tmod step)

/-- `end_ts`. -/
def endTs64 (end_ step : Int) : Int := wrap64 (wrap64 (end_ - end_.tmod step) + step)

/-- `end_ts-start_ts-int64(step)`, which the range check compares with 1. -/
def range64 (step startTs endTs : Int) : Int := wrap64 (wrap64 (endTs - startTs) - step)

/-- `rra1StartTs`. -/
def rra1StartTs64 (now step : Int) : Int :=
  wrap64 (wrap64 (now - now.tmod step) - wrap64 (RRA1PointCnt * step))

/-- `ret_size`. -/
def retSize64 (dsType : String) (step startTs endTs : Int) : Int :=
  if dsType = GAUGE then wrap64 ((wrap64 (endTs - startTs)).tdiv step + 1)
  else (wrap64 (endTs - startTs)).tdiv step

/-- The times of the response. -/
def times64 (step : Int) : ℕ → Int → List Int
  | 0, _ => []
  | n + 1, ts => ts :: times64 step n (wrap64 (ts + step))

/-- The largest allocation of the runtime, on 64-bit Linux. -/
def maxAlloc : Int := 2 ^ 48

/-- `make([]*cmodel.RRDData, size, size)` panics: the length is out of range. -/
def makePanics (size : Int) : Bool := size < 0 ∨ 8 * size > maxAlloc

section

variable [Float64 F] (env : QueryEnv F) (param : GraphQueryParam) (dsType : String) (step : Int)

/-- The request passes the range check and reaches the merge. -/
structure Reaches : Prop where
  range : 1 ≤ range64 step (startTs64 param.start step) (endTs64 param.end_ step)
  recent : rra1StartTs64 env.now step ≤ startTs64 param.start step
  cached : env.items param dsType step ≠ []

/-- The size of the response. -/
def responseSize : Int :=
  retSize64 dsType step (startTs64 param.start step) (endTs64 param.end_ step)

/-! ## The timestamps that are computed -/

/-- The ends of the window, the range check and the beginning of the first archive. -/
def windowTimes (param : GraphQueryParam) (now step : Int) : List Int :=
  [param.start - param.start.tmod step, param.end_ - param.end_.tmod step,
    alignEnd param.end_ step, alignEnd param.end_ step - alignStart param.start step,
    alignEnd param.end_ step - alignStart param.start step - step,
    now - now.tmod step, RRA1PointCnt * step, rra1StartTs now step]

/-- The start the RRD file is asked for, if it is asked. -/
def fetchTimes : List Int :=
  if env.migrateEnabled ∧ (env.fetchAll (env.cacheKey param dsType step)).2 &&& GRAPH_F_MISS ≠ 0
  then []
  else [alignStart param.start step - step]

/-- The results of `ts + step` in the loop over the cached items. -/
def stepTimes (more : Int → Bool) (step : Int) : ℕ → Int → List Int
  | 0, _ => []
  | n + 1, ts => if more ts then (ts + step) :: stepTimes more step n (ts + step) else []

omit [Float64 F] in
/-- What an item is compared with at the time `ts`: `items[itemIdx+1].Timestamp - step`. -/
def compared (step ts : Int) : List (GraphItem F) → List Int
  | item :: next :: _ => if ts = item.timestamp then [next.timestamp - step] else []
  | _ => []

/-- The times items are compared with in that loop. -/
def compareTimes (more : Int → Bool) (step : Int) : ℕ → Int → List (GraphItem F) → List Int
  | 0, _, _ => []
  | n + 1, ts, items =>
    if more ts then
      compared step ts items ++
        compareTimes more step n (ts + step) (counterValue step ts items).2
    else []

/-- The timestamps the cache is filled with. -/
def cacheTimes (dsType : String) (step : Int) (items : List (GraphItem F)) : List Int :=
  match items.head?, items.getLast? with
  | some first, some last =>
    let rounds := (last.timestamp - first.timestamp).toNat + 1
    if dsType = DERIVE ∨ dsType = COUNTER then
      stepTimes (fun ts => ts < last.timestamp) step rounds first.timestamp ++
        compareTimes (fun ts => ts < last.timestamp) step rounds first.timestamp items
    else if dsType = GAUGE then
      stepTimes (fun ts => ts ≤ last.timestamp) step rounds first.timestamp
    else []
  | _, _ => []

/-- The time before which nothing is missing. -/
def lastTs (merged : List (RRDData F)) (first : RRDData F) : Int :=
  match findJunction merged first.timestamp merged.length with
  | 0 => first.timestamp
  | i + 1 => ((merged[i]?).map RRDData.timestamp).getD first.timestamp

/-- The values of `ts` in the loop that appends missing points. -/
def fixTimes (step until_ : Int) : ℕ → Int → List Int
  | 0, ts => [ts]
  | n + 1, ts => ts :: if ts < until_ then fixTimes step until_ n (ts + step) else []

/-- The timestamps of the points that are missing before the cache. -/
def missingTimes (step : Int) (merged : List (RRDData F)) : List (RRDData F) → List Int
  | [] => []
  | first :: _ =>
    fixTimes step first.timestamp (first.timestamp - lastTs merged first).toNat
      (lastTs merged first + step)

/-- The results of `ts += step` in the loop over the response. -/
def responseTimes : List Int :=
  ticks (alignStart param.start step + step) step
    (retSize dsType step (alignStart param.start step) (alignEnd param.end_ step))

/-- **The timestamps `Query` computes.** -/
def computed : List Int :=
  windowTimes param env.now step ++ fetchTimes env param dsType step ++
    cacheTimes dsType step (env.items param dsType step) ++
    missingTimes step
      (cutReply (alignStart param.start step) (alignEnd param.end_ step)
        (env.reply param dsType step))
      (fillCache dsType step (alignStart param.start step) (alignEnd param.end_ step)
        (env.items param dsType step)) ++
    responseTimes param dsType step

/-- The loop that appends missing points is the one of `merge`. -/
theorem merge_cons (step : Int) (merged : List (RRDData F)) (first : RRDData F)
    (cache : List (RRDData F)) :
    merge step merged (first :: cache) =
      mergeCache merged.length (findJunction merged first.timestamp merged.length)
        (merged ++ fixMissing step first.timestamp (first.timestamp - lastTs merged first).toNat
          (lastTs merged first + step)) (first :: cache) := rfl

end

/-! ## The loops -/

section

variable {step : Int} {items : List (GraphItem F)} {startTs bound endTs last : Int} {n : ℕ}
  {merged : List (RRDData F)} {dsType : String} {d : RRDData F}

/-- The first time the loop does not visit. -/
def loopExit (step ts bound : Int) : Int := bound + (ts - bound) % step

theorem le_loopExit (hstep : 0 < step) {ts : Int} (hlt : ts < bound) :
    ts + step ≤ loopExit step ts bound := by
  have hdvd : step ∣ loopExit step ts bound - ts := by
    have hsplit := Int.emod_add_mul_ediv (ts - bound) step
    refine ⟨-((ts - bound) / step), ?_⟩
    rw [loopExit, mul_neg]
    omega
  have hnonneg := Int.emod_nonneg (ts - bound) hstep.ne'
  have hpos : 0 < loopExit step ts bound - ts := by
    rw [loopExit]
    omega
  have hge := Int.le_of_dvd hpos hdvd
  omega

theorem loopExit_add (ts bound : Int) :
    loopExit step (ts + step) bound = loopExit step ts bound := by
  rw [loopExit, loopExit, show ts + step - bound = ts - bound + step by ring, Int.add_emod_right]

theorem loopExit_of_le {ts : Int} (hlt : ts < bound) (hle : bound ≤ ts + step) :
    loopExit step ts bound = ts + step := by
  rw [← loopExit_add, loopExit, Int.emod_eq_of_lt (by omega) (by omega)]
  omega

/-- **The loop variable fits as long as the time at which the loop is left does.** -/
theorem fits_stepTimes_iff (hstep : 0 < step) {ts : Int} (hts : Fits64 ts) (hn : bound - ts ≤ n) :
    (∀ x ∈ stepTimes (fun ts => ts < bound) step n ts, Fits64 x) ↔
      (ts < bound → loopExit step ts bound < 2 ^ 63) := by
  induction n generalizing ts with
  | zero => exact ⟨fun _ hlt => by omega, fun _ x hx => absurd hx List.not_mem_nil⟩
  | succ n ih =>
    rw [stepTimes]
    by_cases hlt : ts < bound
    · rw [if_pos (decide_eq_true hlt), List.forall_mem_cons]
      have hexit := le_loopExit hstep hlt
      have hlo := hts.1
      constructor
      · rintro ⟨hfits, hrest⟩ -
        by_cases hnext : ts + step < bound
        · have hlater := (ih hfits (by omega)).mp hrest hnext
          rwa [loopExit_add] at hlater
        · rw [loopExit_of_le hlt (not_lt.mp hnext)]
          exact hfits.2
      · intro h
        have hfits : Fits64 (ts + step) := ⟨by omega, by have hlater := h hlt; omega⟩
        refine ⟨hfits, (ih hfits (by omega)).mpr fun _ => ?_⟩
        rw [loopExit_add]
        exact h hlt
    · rw [if_neg (by simpa using hlt)]
      exact ⟨fun _ h => absurd h hlt, fun _ x hx => absurd hx List.not_mem_nil⟩

/-- Every pair of items that is compared is later than the smallest integer by a step.  An item is
compared with the next one when the loop meets it, which is on the grid of the items met before and
before the last one. -/
def ComparesFit (step last : Int) : Int → List (GraphItem F) → Prop
  | ts, item :: next :: rest =>
    ts ≤ item.timestamp ∧ step ∣ item.timestamp - ts ∧ item.timestamp < last →
      -2 ^ 63 ≤ next.timestamp - step ∧ ComparesFit step last (item.timestamp + step) (next :: rest)
  | _, _ => True

theorem comparesFit_add (hstep : 0 < step) {ts : Int} {item next : GraphItem F}
    {rest : List (GraphItem F)} (hne : ts ≠ item.timestamp) :
    ComparesFit step last (ts + step) (item :: next :: rest) ↔
      ComparesFit step last ts (item :: next :: rest) := by
  have hmeets : ts + step ≤ item.timestamp ∧ step ∣ item.timestamp - (ts + step) ∧
      item.timestamp < last ↔
        ts ≤ item.timestamp ∧ step ∣ item.timestamp - ts ∧ item.timestamp < last := by
    have hdvd : step ∣ item.timestamp - (ts + step) ↔ step ∣ item.timestamp - ts := by
      rw [show item.timestamp - (ts + step) = item.timestamp - ts - step by ring]
      exact dvd_sub_self_right
    rw [hdvd]
    constructor
    · rintro ⟨hle, hrest⟩
      exact ⟨by omega, hrest⟩
    · rintro ⟨hle, hon, hlt⟩
      have hgap : step ≤ item.timestamp - ts := Int.le_of_dvd (by omega) hon
      exact ⟨by omega, hon, hlt⟩
  rw [ComparesFit, ComparesFit, hmeets]

theorem comparesFit_of_le {ts : Int} (h : last ≤ ts) (items : List (GraphItem F)) :
    ComparesFit step last ts items := by
  match items with
  | [] | [_] => trivial
  | item :: next :: rest =>
    rw [ComparesFit]
    rintro ⟨hle, -, hlt⟩
    omega

theorem fits_compareTimes_iff [Float64 F] (hstep : 0 < step) {ts : Int}
    (hitems : ∀ item ∈ items, Fits64 item.timestamp) (hn : last - ts ≤ n) :
    (∀ x ∈ compareTimes (fun ts => ts < last) step n ts items, Fits64 x) ↔
      ComparesFit step last ts items := by
  induction n generalizing ts items with
  | zero =>
    exact ⟨fun _ => comparesFit_of_le (by omega) items, fun _ x hx => absurd hx List.not_mem_nil⟩
  | succ n ih =>
    rw [compareTimes]
    by_cases hlt : ts < last
    · rw [if_pos (decide_eq_true hlt)]
      match items with
      | [] => exact (ih hitems (by omega)).trans (iff_of_true trivial trivial)
      | [item] => exact (ih hitems (by omega)).trans (iff_of_true trivial trivial)
      | item :: next :: rest =>
        by_cases heq : ts = item.timestamp
        · have hrest : (∀ x ∈ compareTimes (fun ts => ts < last) step n (ts + step) (next :: rest),
              Fits64 x) ↔ ComparesFit step last (ts + step) (next :: rest) :=
            ih (fun x hx => hitems x (List.mem_cons_of_mem _ hx)) (by omega)
          have hnext := (hitems next (by simp)).2
          rw [compared, if_pos heq, List.singleton_append, List.forall_mem_cons, counterValue,
            if_pos heq, hrest, ComparesFit]
          constructor
          · rintro ⟨hfits, hlater⟩ -
            exact ⟨hfits.1, heq ▸ hlater⟩
          · intro h
            obtain ⟨hge, hlater⟩ := h ⟨heq.le, by rw [← heq, sub_self]; exact dvd_zero _, heq ▸ hlt⟩
            exact ⟨⟨hge, by omega⟩, heq ▸ hlater⟩
        · rw [compared, if_neg heq, List.nil_append, counterValue, if_neg heq]
          exact (ih hitems (by omega)).trans (comparesFit_add hstep heq)
    · rw [if_neg (by simpa using hlt)]
      exact ⟨fun _ => comparesFit_of_le (not_lt.mp hlt) items,
        fun _ x hx => absurd hx List.not_mem_nil⟩

/-- The loop from the first item to the last one is left before the times run out, and the times
compared do not run out either. -/
def LoopFits (dsType : String) (step first last : Int) (items : List (GraphItem F)) : Prop :=
  (dsType = DERIVE ∨ dsType = COUNTER →
    (first < last → loopExit step first last < 2 ^ 63) ∧ ComparesFit step last first items) ∧
  (dsType = GAUGE → first < last + 1 → loopExit step first (last + 1) < 2 ^ 63)

/-- When the timestamps the cache is filled with fit. -/
def CacheFits (dsType : String) (step : Int) (items : List (GraphItem F)) : Prop :=
  ∀ first last, items.head? = some first → items.getLast? = some last →
    LoopFits dsType step first.timestamp last.timestamp items

theorem fits_cacheTimes_iff [Float64 F] (hstep : 0 < step)
    (hitems : ∀ item ∈ items, Fits64 item.timestamp) (dsType : String) :
    (∀ x ∈ cacheTimes dsType step items, Fits64 x) ↔ CacheFits dsType step items := by
  cases items with
  | nil => exact iff_of_true (by simp [cacheTimes]) (by simp [CacheFits])
  | cons first rest =>
    obtain ⟨last, hlast⟩ : ∃ last, (first :: rest).getLast? = some last :=
      ⟨_, List.getLast?_eq_some_getLast (List.cons_ne_nil _ _)⟩
    have hts : Fits64 first.timestamp := hitems first List.mem_cons_self
    have hcache : CacheFits dsType step (first :: rest) ↔
        LoopFits dsType step first.timestamp last.timestamp (first :: rest) := by
      constructor
      · exact fun h => h first last rfl hlast
      · intro h first' last' hfirst' hlast'
        obtain rfl := Option.some.inj hfirst'
        obtain rfl := Option.some.inj (hlast.symm.trans hlast')
        exact h
    rw [hcache, LoopFits, cacheTimes, List.head?_cons, hlast]
    by_cases hcounter : dsType = DERIVE ∨ dsType = COUNTER
    · have hgauge : dsType ≠ GAUGE := by
        rcases hcounter with rfl | rfl <;> decide
      simp only [if_pos hcounter, List.forall_mem_append]
      rw [fits_stepTimes_iff hstep hts (by omega), fits_compareTimes_iff hstep hitems (by omega)]
      exact ⟨fun h => ⟨fun _ => h, fun hg => absurd hg hgauge⟩, fun h => h.1 hcounter⟩
    · simp only [if_neg hcounter]
      by_cases hgauge : dsType = GAUGE
      · simp only [if_pos hgauge, ← Int.lt_add_one_iff]
        rw [fits_stepTimes_iff hstep hts (by omega)]
        exact ⟨fun h => ⟨fun hc => absurd hc hcounter, fun _ => h⟩, fun h => h.2 hgauge⟩
      · simp [hcounter, hgauge]

theorem add_mem_stepTimes {value : Int → List (GraphItem F) → F × List (GraphItem F)}
    {more : Int → Bool} {ts : Int} (h : d ∈ fill value more step startTs endTs n ts items) :
    d.timestamp + step ∈ stepTimes more step n ts ∧ startTs ≤ d.timestamp := by
  induction n generalizing ts items with
  | zero => exact absurd h List.not_mem_nil
  | succ n ih =>
    rw [fill] at h
    rw [stepTimes]
    by_cases hmore : more ts = true
    · rw [if_pos hmore] at h ⊢
      split_ifs at h with hwindow
      · rcases List.mem_cons.mp h with rfl | h
        · exact ⟨List.mem_cons_self, hwindow.1⟩
        · exact ⟨List.mem_cons_of_mem _ (ih h).1, (ih h).2⟩
      · exact ⟨List.mem_cons_of_mem _ (ih h).1, (ih h).2⟩
    · rw [if_neg hmore] at h
      exact absurd h List.not_mem_nil

theorem add_mem_cacheTimes [Float64 F] (h : d ∈ fillCache dsType step startTs endTs items) :
    d.timestamp + step ∈ cacheTimes dsType step items ∧ startTs ≤ d.timestamp := by
  rw [fillCache] at h
  rw [cacheTimes]
  cases hfirst : items.head? with
  | none => simp [hfirst] at h
  | some first =>
    cases hlast : items.getLast? with
    | none => simp [hfirst, hlast] at h
    | some last =>
      rw [hfirst, hlast] at h
      simp only at h ⊢
      split_ifs at h ⊢ with hcounter hgauge
      · obtain ⟨hmem, hlo⟩ := add_mem_stepTimes h
        exact ⟨List.mem_append_left _ hmem, hlo⟩
      · exact add_mem_stepTimes h
      · exact absurd h List.not_mem_nil

/-! ## The points before the cache -/

theorem timestamp_lt_of_findJunction [Float64 F] {ts : Int} {i : ℕ}
    (h : findJunction merged ts n = i + 1) : ∃ d, merged[i]? = some d ∧ d.timestamp < ts := by
  induction n with
  | zero => exact absurd h (Nat.succ_ne_zero i).symm
  | succ n ih =>
    rw [findJunction] at h
    cases hget : merged[n]? with
    | none =>
      rw [hget] at h
      exact ih h
    | some d =>
      rw [hget] at h
      simp only at h
      split_ifs at h with hlt
      · obtain rfl := Nat.succ.inj h
        exact ⟨d, hget, hlt⟩
      · exact ih h

theorem lastTs_bounds [Float64 F] (hmerged : ∀ d ∈ merged, startTs ≤ d.timestamp)
    {first : RRDData F} (hfirst : startTs ≤ first.timestamp) :
    startTs ≤ lastTs merged first ∧ lastTs merged first ≤ first.timestamp := by
  rw [lastTs]
  cases hjunction : findJunction merged first.timestamp merged.length with
  | zero => exact ⟨hfirst, le_rfl⟩
  | succ i =>
    obtain ⟨d, hget, hlt⟩ := timestamp_lt_of_findJunction hjunction
    simp only [hget, Option.map_some, Option.getD_some]
    exact ⟨hmerged d (List.mem_of_getElem? hget), hlt.le⟩

theorem fixTimes_bounds (hstep : 0 < step) {until_ ts : Int} (hts : ts ≤ until_ + step) {x : Int}
    (hx : x ∈ fixTimes step until_ n ts) : ts ≤ x ∧ x ≤ until_ + step := by
  induction n generalizing ts with
  | zero =>
    obtain rfl := List.mem_singleton.mp hx
    exact ⟨le_rfl, hts⟩
  | succ n ih =>
    rw [fixTimes] at hx
    rcases List.mem_cons.mp hx with rfl | hx
    · exact ⟨le_rfl, hts⟩
    · split_ifs at hx with hlt
      · have hlater := ih (by omega) hx
        exact ⟨by omega, hlater.2⟩
      · exact absurd hx List.not_mem_nil

/-- The missing points before the cache are between the window and the cache. -/
theorem fits_missingTimes [Float64 F] (hstep : 0 < step) (hstart : Fits64 startTs)
    (hcache : ∀ x ∈ cacheTimes dsType step items, Fits64 x) (datas : List (RRDData F)) :
    ∀ x ∈ missingTimes step (cutReply startTs endTs datas)
      (fillCache dsType step startTs endTs items), Fits64 x := by
  intro x hx
  cases hfill : fillCache dsType step startTs endTs items with
  | nil =>
    rw [hfill] at hx
    exact absurd hx List.not_mem_nil
  | cons first cache =>
    rw [hfill, missingTimes] at hx
    obtain ⟨hmem, hfirst⟩ := add_mem_cacheTimes (hfill ▸ List.mem_cons_self)
    have hmerged : ∀ d ∈ cutReply startTs endTs datas, startTs ≤ d.timestamp := by
      intro d hd
      have hwindow : startTs ≤ d.timestamp ∧ d.timestamp ≤ endTs := by
        simpa using (List.mem_filter.mp hd).2
      exact hwindow.1
    obtain ⟨hlo, hhi⟩ := lastTs_bounds hmerged hfirst
    obtain ⟨hge, hle⟩ := fixTimes_bounds hstep (by omega) hx
    have hexit := (hcache _ hmem).2
    have hlow := hstart.1
    exact ⟨by omega, by omega⟩

end

/-! ## The window -/

section

variable {step startTs endTs x : Int}

theorem sub_tmod_bounds (hstep : 0 < step) (hx : 0 ≤ x) :
    0 ≤ x - x.tmod step ∧ x - x.tmod step ≤ x := by
  have hmod := Int.tmod_nonneg step hx
  have hdiv := mul_nonneg hstep.le (Int.tdiv_nonneg hx hstep.le)
  have hsum := Int.mul_tdiv_add_tmod x step
  omega

theorem fits_sub_tmod (hstep : 0 < step) (hx : Fits64 x) : Fits64 (x - x.tmod step) := by
  have hlo := hx.1
  have hhi := hx.2
  rcases le_total 0 x with h | h
  · have hbounds := sub_tmod_bounds hstep h
    exact ⟨by omega, by omega⟩
  · have hbounds := sub_tmod_bounds hstep (show 0 ≤ -x by omega)
    rw [Int.neg_tmod] at hbounds
    exact ⟨by omega, by omega⟩

theorem startTs64_eq (hstep : 0 < step) {start : Int} (h : Fits64 start) :
    startTs64 start step = alignStart start step :=
  wrap64_eq_iff.mpr (fits_sub_tmod hstep h)

theorem endTs64_eq (hstep : 0 < step) {end_ : Int} (h : Fits64 end_)
    (hend : Fits64 (alignEnd end_ step)) : endTs64 end_ step = alignEnd end_ step := by
  rw [endTs64, wrap64_eq_iff.mpr (fits_sub_tmod hstep h)]
  exact wrap64_eq_iff.mpr hend

/-- The points of the response cover the window. -/
theorem retSize_mul (dsType : String) (hstep : 0 < step) (hdvd : step ∣ endTs - startTs)
    (hle : startTs ≤ endTs) :
    (retSize dsType step startTs endTs : Int) * step =
      endTs - startTs + if dsType = GAUGE then step else 0 := by
  have hquot : 0 ≤ (endTs - startTs).tdiv step := Int.tdiv_nonneg (by omega) hstep.le
  have hmul : (endTs - startTs).tdiv step * step = endTs - startTs := Int.tdiv_mul_cancel hdvd
  rw [retSize, Nat.cast_add, add_mul, Int.toNat_of_nonneg hquot, hmul]
  split_ifs <;> simp

/-- The size is not computed wrong if it is not negative. -/
theorem retSize64_eq (dsType : String) (hstep : 0 < step) (hfits : Fits64 (endTs - startTs))
    (hle : startTs ≤ endTs)
    (hsize : 0 ≤ retSize64 dsType step startTs endTs ∨
      (retSize dsType step startTs endTs : Int) < 2 ^ 63)
    :
    retSize64 dsType step startTs endTs = retSize dsType step startTs endTs := by
  have hquot : 0 ≤ (endTs - startTs).tdiv step := Int.tdiv_nonneg (by omega) hstep.le
  have hlt := hfits.2
  have hle' : (endTs - startTs).tdiv step ≤ endTs - startTs := Int.tdiv_le_self _ (by omega)
  rw [retSize64, retSize, wrap64_eq_iff.mpr hfits] at *
  split_ifs at hsize ⊢ with hgauge
  · rw [Nat.cast_add, Int.toNat_of_nonneg hquot, Nat.cast_one] at *
    -- one more than the largest integer is the smallest one
    have hne : (endTs - startTs).tdiv step + 1 ≠ 2 ^ 63 := by
      intro heq
      rw [heq] at hsize
      have hwrap : wrap64 (2 ^ 63) = -2 ^ 63 := by decide +kernel
      rw [hwrap] at hsize
      omega
    exact wrap64_eq_iff.mpr ⟨by omega, by omega⟩
  · rw [Nat.add_zero, Int.toNat_of_nonneg hquot]

/-- The times of the response, as long as they fit. -/
theorem times64_eq {n : ℕ} {ts : Int} (h : ∀ x ∈ ticks (ts + step) step n, Fits64 x) :
    times64 step n ts = ticks ts step n := by
  induction n generalizing ts with
  | zero => rfl
  | succ n ih =>
    rw [ticks_succ, List.forall_mem_cons] at h
    rw [times64, wrap64_eq_iff.mpr h.1, ih h.2, ticks_succ]

end

/-! ## Safe windows -/

section

variable [Float64 F] {env : QueryEnv F} {param : GraphQueryParam} {dsType : String} {step : Int}

/-- **The window arithmetic is safe**: every timestamp is computed exactly, the size of the response
is one `make` accepts, and the times of the response are between the start of the window and the
end asked for, rounded up. -/
structure WindowSafe (env : QueryEnv F) (param : GraphQueryParam) (dsType : String)
    (step : Int) : Prop where
  no_overflow : ∀ x ∈ computed env param dsType step, Fits64 x
  size_nonneg : 0 ≤ responseSize param dsType step
  response : ∀ t ∈ times64 step (responseSize param dsType step).toNat
    (startTs64 param.start step),
      startTs64 param.start step ≤ t ∧ t ≤ alignEnd param.end_ step
  no_panic : makePanics (responseSize param dsType step) = false

/-- When the window arithmetic is safe. -/
structure WindowFits (env : QueryEnv F) (param : GraphQueryParam) (dsType : String)
    (step : Int) : Prop where
  /-- The end, rounded up, fits, and for a gauge the step after it. -/
  end_lt : alignEnd param.end_ step < 2 ^ 63
  gauge_lt : dsType = GAUGE → alignEnd param.end_ step + step < 2 ^ 63
  /-- The range is not empty, and its length fits. -/
  range : 1 ≤ alignEnd param.end_ step - alignStart param.start step - step
  length_lt : alignEnd param.end_ step - alignStart param.start step < 2 ^ 63
  /-- The file is asked for a time that fits, if it is asked. -/
  fetch_ge : (env.migrateEnabled ∧
      (env.fetchAll (env.cacheKey param dsType step)).2 &&& GRAPH_F_MISS ≠ 0) ∨
    -2 ^ 63 ≤ alignStart param.start step - step
  /-- The first archive begins at a time that fits. -/
  archive_lt : RRA1PointCnt * step < 2 ^ 63
  archive_ge : -2 ^ 63 ≤ rra1StartTs env.now step
  /-- The points asked for are not too many. -/
  size_le : 8 * (retSize dsType step (alignStart param.start step)
    (alignEnd param.end_ step) : Int) ≤ maxAlloc
  cache : CacheFits dsType step (env.items param dsType step)

/-- What a client and the clock send are 64-bit numbers. -/
structure Received (env : QueryEnv F) (param : GraphQueryParam) (dsType : String)
    (step : Int) : Prop where
  step_pos : 1 ≤ step
  start : Fits64 param.start
  end_ : Fits64 param.end_
  now : Fits64 env.now
  items : ∀ item ∈ env.items param dsType step, Fits64 item.timestamp

theorem dvd_window (start end_ step : Int) : step ∣ alignEnd end_ step - alignStart start step := by
  refine dvd_sub (dvd_add ?_ (dvd_refl step)) (dvd_alignStart start step)
  exact Int.dvd_self_sub_tmod

/-- The loop over the response stays in the window, or one step behind it. -/
theorem fits_responseTimes (hstep : 0 < step) (hstart : Fits64 (alignStart param.start step))
    (hle : alignStart param.start step ≤ alignEnd param.end_ step)
    (hend : alignEnd param.end_ step < 2 ^ 63)
    (hgauge : dsType = GAUGE → alignEnd param.end_ step + step < 2 ^ 63) :
    ∀ x ∈ responseTimes param dsType step, Fits64 x := by
  intro x hx
  obtain ⟨i, hi, rfl⟩ := mem_ticks.mp hx
  have hmul := retSize_mul dsType hstep (dvd_window param.start param.end_ step) hle
  have hpos : (0 : Int) ≤ i * step := by positivity
  have hmono : ((i : Int) + 1) * step ≤
      retSize dsType step (alignStart param.start step) (alignEnd param.end_ step) * step :=
    mul_le_mul_of_nonneg_right (by exact_mod_cast hi) hstep.le
  have hlo := hstart.1
  rw [add_mul, one_mul] at hmono
  refine ⟨by omega, ?_⟩
  split_ifs at hmul with hds
  · have hlast := hgauge hds
    omega
  · omega

theorem WindowSafe.fits (h : WindowSafe env param dsType step)
    (hin : Received env param dsType step) (hreach : Reaches env param dsType step) :
    WindowFits env param dsType step := by
  have hstep : 0 < step := hin.step_pos
  have hover := h.no_overflow
  simp only [computed, List.forall_mem_append] at hover
  obtain ⟨⟨⟨⟨hwindow, hfetch⟩, hcache⟩, -⟩, hresponse⟩ := hover
  simp only [windowTimes, List.forall_mem_cons] at hwindow
  obtain ⟨-, -, hend, hlength, hrange, -, harchive, hrra, -⟩ := hwindow
  have hstart := startTs64_eq hstep hin.start
  have hend' := endTs64_eq hstep hin.end_ hend
  have hnonempty : 1 ≤ alignEnd param.end_ step - alignStart param.start step - step := by
    have hguard := hreach.range
    rwa [range64, hstart, hend', wrap64_eq_iff.mpr hlength, wrap64_eq_iff.mpr hrange] at hguard
  have hsize : responseSize param dsType step =
      retSize dsType step (alignStart param.start step) (alignEnd param.end_ step) := by
    have hnonneg := h.size_nonneg
    rw [responseSize, hstart, hend'] at hnonneg ⊢
    exact retSize64_eq dsType hstep hlength (by omega) (Or.inl hnonneg)
  refine ⟨hend.2, ?_, hnonempty, hlength.2, ?_, harchive.2, hrra.1, ?_,
    (fits_cacheTimes_iff hstep hin.items dsType).mp hcache⟩
  · -- the last addition of the loop over the response
    intro hgauge
    have hmul := retSize_mul dsType hstep (dvd_window param.start param.end_ step)
      (show alignStart param.start step ≤ alignEnd param.end_ step by omega)
    rw [if_pos hgauge] at hmul
    have hpos : 0 < retSize dsType step (alignStart param.start step)
        (alignEnd param.end_ step) := by
      rw [retSize, if_pos hgauge]
      exact Nat.succ_pos _
    obtain ⟨n, hn⟩ := Nat.exists_eq_add_of_lt hpos
    have hlast := hresponse (alignStart param.start step + step + n * step)
      (mem_ticks.mpr ⟨n, by omega, rfl⟩)
    rw [hn, zero_add, Nat.cast_add, Nat.cast_one, add_mul, one_mul] at hmul
    have hlt := hlast.2
    omega
  · rw [fetchTimes] at hfetch
    split_ifs at hfetch with hmiss
    · exact Or.inl hmiss
    · exact Or.inr (hfetch _ List.mem_cons_self).1
  · have hpanic := h.no_panic
    rw [makePanics, decide_eq_false_iff_not, hsize] at hpanic
    omega

theorem WindowFits.safe (h : WindowFits env param dsType step)
    (hin : Received env param dsType step) : WindowSafe env param dsType step := by
  have hstep : 0 < step := hin.step_pos
  have hrange := h.range
  have hstartFits : Fits64 (alignStart param.start step) := fits_sub_tmod hstep hin.start
  have hendFits : Fits64 (alignEnd param.end_ step) := by
    have hlo := hstartFits.1
    exact ⟨by omega, h.end_lt⟩
  have hlength : Fits64 (alignEnd param.end_ step - alignStart param.start step) :=
    ⟨by omega, h.length_lt⟩
  have hstart := startTs64_eq hstep hin.start
  have hend := endTs64_eq hstep hin.end_ hendFits
  have hresponse := fits_responseTimes hstep hstartFits (by omega) h.end_lt h.gauge_lt
  have hsize : responseSize param dsType step =
      retSize dsType step (alignStart param.start step) (alignEnd param.end_ step) := by
    have hle := h.size_le
    rw [responseSize, hstart, hend]
    rw [maxAlloc] at hle
    exact retSize64_eq dsType hstep hlength (by omega) (Or.inr (by omega))
  have hcache := (fits_cacheTimes_iff hstep hin.items dsType).mpr h.cache
  refine ⟨?_, by omega, ?_, ?_⟩
  · simp only [computed, List.forall_mem_append]
    refine ⟨⟨⟨⟨?_, ?_⟩, hcache⟩, fits_missingTimes hstep hstartFits hcache _⟩, hresponse⟩
    · have hnow := fits_sub_tmod hstep hin.now
      have hrra := h.archive_ge
      have hcount : (0 : Int) < RRA1PointCnt * step := mul_pos (by decide) hstep
      simp only [windowTimes, List.forall_mem_cons]
      refine ⟨hstartFits, fits_sub_tmod hstep hin.end_, hendFits, hlength,
        ⟨by omega, by have hlt := h.length_lt; omega⟩, hnow, ⟨by omega, h.archive_lt⟩,
        ⟨hrra, ?_⟩, by simp⟩
      have hlt := hnow.2
      rw [rra1StartTs]
      omega
    · rw [fetchTimes]
      split_ifs with hmiss
      · simp
      · rw [List.forall_mem_singleton]
        have hlt := hstartFits.2
        exact ⟨h.fetch_ge.resolve_left hmiss, by omega⟩
  · rw [hsize, Int.toNat_natCast, hstart, times64_eq hresponse]
    intro t ht
    exact ⟨(bounds_of_mem_ticks hstep ht).1, le_endTs_of_mem_ticks hstep (by omega) ht⟩
  · rw [makePanics, decide_eq_false_iff_not, hsize]
    have hle := h.size_le
    omega

/-- **When the window arithmetic of a query is safe**: for every request that reaches the merge. -/
theorem window_safe_iff (hin : Received env param dsType step)
    (hreach : Reaches env param dsType step) :
    WindowSafe env param dsType step ↔ WindowFits env param dsType step :=
  ⟨fun h => h.fits hin hreach, fun h => h.safe hin⟩

/-- **The response of a request that fits is that of `query`**, time by time. -/
theorem map_timestamp_query (htype : env.getTypeAndStep param.endpoint param.counter =
      some (dsType, step)) (hin : Received env param dsType step)
    (hreach : Reaches env param dsType step) (h : WindowFits env param dsType step) :
    (query env param).values.map RRDData.timestamp =
      times64 step (responseSize param dsType step).toNat (startTs64 param.start step) := by
  have hstep : 0 < step := hin.step_pos
  have hsafe := h.safe hin
  have hover := hsafe.no_overflow
  simp only [computed, List.forall_mem_append] at hover
  obtain ⟨⟨⟨⟨hwindow, -⟩, -⟩, -⟩, hresponse⟩ := hover
  simp only [windowTimes, List.forall_mem_cons] at hwindow
  obtain ⟨-, -, hend, hlength, -, hnow, hcount, hrra, -⟩ := hwindow
  have hstart := startTs64_eq hstep hin.start
  have hend' := endTs64_eq hstep hin.end_ hend
  have hrange := h.range
  have hrecent : rra1StartTs env.now step ≤ alignStart param.start step := by
    have hle := hreach.recent
    rwa [rra1StartTs64, wrap64_eq_iff.mpr hnow, wrap64_eq_iff.mpr hcount, hstart,
      ← rra1StartTs, wrap64_eq_iff.mpr hrra] at hle
  have hsize : responseSize param dsType step =
      retSize dsType step (alignStart param.start step) (alignEnd param.end_ step) := by
    have hnonneg := hsafe.size_nonneg
    rw [responseSize, hstart, hend'] at hnonneg ⊢
    exact retSize64_eq dsType hstep hlength (by omega) (Or.inl hnonneg)
  rw [values_query htype hrange hrecent hreach.cached, fmtResult,
    map_time_walk missingPoint_timestamp, hsize, Int.toNat_natCast, hstart, times64_eq hresponse]

end

/-! ## Requests for one gauge -/

/-- A node with one cached item of a gauge. -/
def oneGauge : QueryEnv QFloat := seriesEnv GAUGE 60 1000 [(720, 10)] ⟨540, 60, []⟩

/-- A request for the gauge from 600 on. -/
def askUntil (end_ : Int) : GraphQueryParam := ⟨600, end_, "AVERAGE", "host", "metric"⟩

theorem received_askUntil {end_ : Int} (h : Fits64 end_) :
    Received oneGauge (askUntil end_) GAUGE 60 where
  step_pos := by decide
  start := show Fits64 600 by decide
  end_ := h
  now := show Fits64 1000 by decide
  items := by
    intro item hitem
    obtain rfl := List.mem_singleton.mp hitem
    exact show Fits64 720 by decide

/-- A request until 840 is safe. -/
theorem window_safe_four_points :
    Reaches oneGauge (askUntil 840) GAUGE 60 ∧ WindowSafe oneGauge (askUntil 840) GAUGE 60 := by
  have hreach : Reaches oneGauge (askUntil 840) GAUGE 60 :=
    ⟨by decide +kernel, by decide +kernel, List.cons_ne_nil _ _⟩
  refine ⟨hreach, (window_safe_iff (received_askUntil (by decide)) hreach).mpr ?_⟩
  refine ⟨by decide, fun _ => by decide, by decide, by decide, Or.inr (by decide), by decide,
    by decide, by decide, ?_⟩
  intro first last hfirst hlast
  obtain rfl := Option.some.inj hfirst
  obtain rfl := Option.some.inj hlast
  exact ⟨fun h => absurd h (by decide), fun _ _ => by decide⟩

theorem map_timestamp_query_four_points :
    (query oneGauge (askUntil 840)).values.map RRDData.timestamp =
      times64 60 (responseSize (askUntil 840) GAUGE 60).toNat (startTs64 600 60) := by
  refine map_timestamp_query rfl (received_askUntil (by decide))
    ⟨by decide +kernel, by decide +kernel, List.cons_ne_nil _ _⟩ ⟨by decide, fun _ => by decide,
      by decide, by decide, Or.inr (by decide), by decide, by decide, by decide, ?_⟩
  intro first last hfirst hlast
  obtain rfl := Option.some.inj hfirst
  obtain rfl := Option.some.inj hlast
  exact ⟨fun h => absurd h (by decide), fun _ _ => by decide⟩

/-- A request until the largest integer passes the range check, since the end of the window and the
difference both wrap around, and asks `make` for a slice it does not have; so does one whose
timestamps all fit. -/
theorem window_not_safe :
    (Reaches oneGauge (askUntil (2 ^ 63 - 1)) GAUGE 60 ∧
        ¬Fits64 (alignEnd (2 ^ 63 - 1) 60) ∧
        makePanics (responseSize (askUntil (2 ^ 63 - 1)) GAUGE 60) = true ∧
        ¬WindowSafe oneGauge (askUntil (2 ^ 63 - 1)) GAUGE 60) ∧
      Reaches oneGauge (askUntil (2 ^ 62)) GAUGE 60 ∧
      makePanics (responseSize (askUntil (2 ^ 62)) GAUGE 60) = true ∧
      ¬WindowSafe oneGauge (askUntil (2 ^ 62)) GAUGE 60 := by
  have hpanic : makePanics (responseSize (askUntil (2 ^ 63 - 1)) GAUGE 60) = true := by
    decide +kernel
  have hpanic' : makePanics (responseSize (askUntil (2 ^ 62)) GAUGE 60) = true := by
    decide +kernel
  refine ⟨⟨⟨by decide +kernel, by decide +kernel, List.cons_ne_nil _ _⟩, by decide +kernel, hpanic,
      fun h => ?_⟩,
    ⟨by decide +kernel, by decide +kernel, List.cons_ne_nil _ _⟩, hpanic', fun h => ?_⟩
  · exact Bool.noConfusion (hpanic.symm.trans h.no_panic)
  · exact Bool.noConfusion (hpanic'.symm.trans h.no_panic)

end OpenFalcon.Graph
