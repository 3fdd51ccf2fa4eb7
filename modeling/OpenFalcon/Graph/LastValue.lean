import OpenFalcon.Graph.Delete
import OpenFalcon.Graph.QueryExact

/-!
# The last value of a counter

`GetLast` of `modules/graph/api/graph.go` answers for the newest point of a series.  For a counter
that is a rate, from the two newest items of the history, and `Query` computes the same rate from
the same two items as long as they are cached.

They do not put it at the same time.  `GetLast` stamps the rate of an interval with the end of the
interval, as the RRD file does; the loop of `Query` stamps it with the beginning, and stops before
the time of the newest item.  So at the time `GetLast` names, `Query` has nothing, and the two agree
only on a rate that is no number (`last_value_agrees_iff`).  The rate is in the answer, one step
earlier, if the counter did not decrease (`mem_values_query_step_before`); a counter that did is
taken as restarted by `GetLast`, with the rate 0, and left out by `Query`.
-/

namespace OpenFalcon.Graph

open Numeric Order

variable {F : Type}

/-! ## The source -/

/-- `store.GetAllItems`. -/
def HistoryCache.getAllItems (this : HistoryCache F) (key : String) : List (GraphItem F) :=
  (this.lookup key).getD []

variable [Float64 F] {d : RRDData F} {items : List (GraphItem F)} {dsType : String}
  {startTs endTs t : Int} {merged cache : List (RRDData F)} {last : GraphItem F}

/-- `NewRRDData(0, 0.0)`, the answer that says there is none. -/
def noValue : RRDData F := ⟨0, Float64.ofRat 0⟩

/-- `GetLastRaw`, on the history. -/
def getLastRaw (md5 : String → String) (history : HistoryCache F) (endpoint counter : String) :
    RRDData F :=
  ((history.getLastItem (md5 (endpoint ++ "/" ++ counter))).map itemPoint).getD noValue

/-- The increase of a counter: one that decreased was restarted. -/
def increase (f0 f1 : GraphItem F) : F :=
  if Float64.lt (f0.value - f1.value) (Float64.ofRat 0) then Float64.ofRat 0
  else f0.value - f1.value

/-- The rate of a counter from its history, the newest item first. -/
def lastRate (step : Int) : List (GraphItem F) → RRDData F
  | f0 :: f1 :: _ =>
    if f0.timestamp - f1.timestamp ≠ step ∨ f0.timestamp - f1.timestamp ≤ 0 then noValue
    else ⟨f0.timestamp, increase f0 f1 / Float64.ofRat (f0.timestamp - f1.timestamp : Int)⟩
  | _ => noValue

/-- `GetLast`. -/
def getLast (env : QueryEnv F) (history : HistoryCache F) (endpoint counter : String) : RRDData F :=
  match env.getTypeAndStep endpoint counter with
  | none => noValue
  | some (dsType, step) =>
    if dsType = GAUGE then getLastRaw env.md5 history endpoint counter
    else if dsType = COUNTER ∨ dsType = DERIVE then
      lastRate step (history.getAllItems (env.md5 (endpoint ++ "/" ++ counter)))
    else noValue

/-! ## What `GetLast` returns -/

/-- The rate of a counter is stamped with the newer item. -/
theorem getLast_of_counter {env : QueryEnv F} {history : HistoryCache F} {endpoint counter : String}
    {step : Int} (htype : env.getTypeAndStep endpoint counter = some (dsType, step))
    (hds : dsType = COUNTER ∨ dsType = DERIVE) {older newer : GraphItem F}
    {rest : List (GraphItem F)}
    (hhistory : history.getAllItems (env.md5 (endpoint ++ "/" ++ counter)) = newer :: older :: rest)
    (hpos : 0 < (getLast env history endpoint counter).timestamp) :
    newer.timestamp - older.timestamp = step ∧
      getLast env history endpoint counter =
        ⟨newer.timestamp, increase newer older / Float64.ofRat step⟩ := by
  have hgauge : dsType ≠ GAUGE := by
    rcases hds with rfl | rfl <;> decide
  have hlast : getLast env history endpoint counter = lastRate step (newer :: older :: rest) := by
    rw [getLast, htype]
    simp only
    rw [if_neg hgauge, if_pos hds, hhistory]
  rw [hlast, lastRate] at hpos ⊢
  split_ifs at hpos with hdelta
  · exact absurd hpos (lt_irrefl 0)
  · rw [not_or, not_not] at hdelta
    rw [if_neg (not_or.mpr ⟨not_not.mpr hdelta.1, hdelta.2⟩), hdelta.1]
    exact ⟨rfl, rfl⟩

/-! ## What `Query` has at the time of the newest item -/

omit [Float64 F] in
/-- The loop over the cached items leaves through its condition. -/
theorem more_of_mem_fill {value : Int → List (GraphItem F) → F × List (GraphItem F)}
    {more : Int → Bool} {step : Int} {n : ℕ} {ts : Int}
    (h : d ∈ fill value more step startTs endTs n ts items) : more d.timestamp = true := by
  induction n generalizing ts items with
  | zero => exact absurd h List.not_mem_nil
  | succ n ih =>
    rw [fill] at h
    split_ifs at h with hmore hwindow
    · rcases List.mem_cons.mp h with rfl | h
      · exact hmore
      · exact ih h
    · exact ih h
    · exact absurd h List.not_mem_nil

/-- The cached rates of a counter are all before the newest item. -/
theorem timestamp_lt_of_mem_fillCache (hds : dsType = COUNTER ∨ dsType = DERIVE) {step : Int}
    (hlast : items.getLast? = some last) (h : d ∈ fillCache dsType step startTs endTs items) :
    d.timestamp < last.timestamp := by
  rw [fillCache, hlast] at h
  cases hfirst : items.head? with
  | none => simp [hfirst] at h
  | some first =>
    rw [hfirst] at h
    simp only at h
    rw [if_pos hds.symm] at h
    simpa using more_of_mem_fill h

theorem mem_mergeCache {rrdDataSize rrdDataIdx : ℕ}
    (h : d ∈ mergeCache rrdDataSize rrdDataIdx merged cache) : d ∈ merged ∨ d ∈ cache := by
  induction cache generalizing rrdDataIdx merged with
  | nil => exact Or.inl h
  | cons c cache ih =>
    rw [mergeCache] at h
    rcases ih h with h | h
    · split_ifs at h with hidx hnan
      · exact Or.inl h
      · rcases List.mem_or_eq_of_mem_set h with h | rfl
        · exact Or.inl h
        · exact Or.inr List.mem_cons_self
      · rcases List.mem_append.mp h with h | h
        · exact Or.inl h
        · exact Or.inr (List.mem_cons.mpr (Or.inl (List.mem_singleton.mp h)))
    · exact Or.inr (List.mem_cons_of_mem _ h)

theorem mem_merge {step : Int} (h : d ∈ merge step merged cache) :
    d ∈ merged ∨ d.value = Float64.nan ∨ d ∈ cache := by
  cases cache with
  | nil => exact Or.inl h
  | cons c cache =>
    rcases mem_mergeCache h with h | h
    · rcases List.mem_append.mp h with h | h
      · exact Or.inl h
      · exact Or.inr (Or.inl (mem_fixMissing h).2)
    · exact Or.inr (Or.inr h)

/-- **At the time of the newest item a counter has no number**, if the reply has none. -/
theorem value_of_mem_fmtResult_merge (hds : dsType = COUNTER ∨ dsType = DERIVE) {step : Int}
    (hlast : items.getLast? = some last) {datas : List (RRDData F)}
    (hdatas : ∀ d ∈ datas, d.timestamp = last.timestamp → d.value = Float64.nan)
    (hd : d ∈ fmtResult dsType step startTs endTs
      (merge step (cutReply startTs endTs datas) (fillCache dsType step startTs endTs items)))
    (htime : d.timestamp = last.timestamp) : d.value = Float64.nan := by
  rcases mem_or_blank_of_mem_walk hd with hd | ⟨ts, rfl⟩
  · rcases mem_merge hd with hd | hd | hd
    · exact hdatas d (List.mem_filter.mp hd).1 htime
    · exact hd
    · exact absurd htime (timestamp_lt_of_mem_fillCache hds hlast hd).ne
  · rfl

/-! ## The window -/

/-- The last grid time that is not after `end_` is a step before the end of the window. -/
theorem lt_alignEnd {step end_ : Int} (hstep : 0 < step) (ht : step ∣ t) (hle : t ≤ end_) :
    t + step ≤ alignEnd end_ step := by
  have hdvd : step ∣ t - (end_ - end_.tmod step) := dvd_sub ht Int.dvd_self_sub_tmod
  have hmod := Int.tmod_lt_of_pos end_ hstep
  rw [alignEnd]
  by_contra hlt
  have hgap : step ≤ t - (end_ - end_.tmod step) := Int.le_of_dvd (by omega) hdvd
  omega

/-- A positive grid time a step or more after `start` is in the window. -/
theorem alignStart_lt {step start : Int} (hstep : 0 < step) (ht : step ∣ t) (hpos : 0 < t)
    (hle : start ≤ t - step) : alignStart start step < t := by
  have hge : step ≤ t := Int.le_of_dvd hpos ht
  rw [alignStart]
  by_cases hstart : 0 ≤ start
  · have hmod := Int.tmod_nonneg step hstart
    omega
  · have hmod := Int.lt_tmod_of_pos start hstep
    omega

/-- The response of a counter has an entry for every grid time of the window. -/
theorem mem_ticks_window {step : Int} (hstep : 0 < step) (hstart : step ∣ startTs) (ht : step ∣ t)
    (hlo : startTs ≤ t) (hhi : t + step ≤ endTs) :
    t ∈ ticks startTs step (retSize dsType step startTs endTs) := by
  refine mem_ticks_of_dvd hstep hlo (dvd_sub ht hstart) ?_
  have hdiv := Int.mul_tdiv_add_tmod (endTs - startTs) step
  have hmod := Int.tmod_lt_of_pos (endTs - startTs) hstep
  have hquot : 0 ≤ (endTs - startTs).tdiv step := Int.tdiv_nonneg (by omega) hstep.le
  have hsize : (endTs - startTs).tdiv step ≤ (retSize dsType step startTs endTs : Int) := by
    rw [retSize]
    split_ifs <;> omega
  have hmul : step * (endTs - startTs).tdiv step ≤
      step * (retSize dsType step startTs endTs : Int) := mul_le_mul_of_nonneg_left hsize hstep.le
  rw [mul_comm _ step]
  omega

/-! ## The two answers -/

/-- A counter whose two newest cached items are the two newest of its history and have a rate, and
a query that covers them, of times the file has one point per step for and no number at the two
items. -/
structure Covered (env : QueryEnv F) (history : HistoryCache F) (param : GraphQueryParam)
    (dsType : String) (step : Int) (older newer : GraphItem F) : Prop where
  type : env.getTypeAndStep param.endpoint param.counter = some (dsType, step)
  counter : dsType = COUNTER ∨ dsType = DERIVE
  step_pos : 1 ≤ step
  items : ∃ pre, env.items param dsType step = pre ++ [older, newer]
  newest : ∃ rest, history.getAllItems (env.md5 (param.endpoint ++ "/" ++ param.counter)) =
    newer :: older :: rest
  last_pos : 0 < (getLast env history param.endpoint param.counter).timestamp
  start_le : param.start ≤ newer.timestamp - step
  le_end : newer.timestamp ≤ param.end_
  recent : rra1StartTs env.now step ≤ alignStart param.start step
  no_reply : ∀ d ∈ env.reply param dsType step,
    d.timestamp = newer.timestamp - step ∨ d.timestamp = newer.timestamp → d.value = Float64.nan

section Covered

variable {env : QueryEnv F} {history : HistoryCache F} {param : GraphQueryParam}
  {dsType : String} {step : Int} {older newer : GraphItem F}

section

variable (h : Covered env history param dsType step older newer)

include h

theorem Covered.getLast_eq :
    newer.timestamp - older.timestamp = step ∧
      getLast env history param.endpoint param.counter =
        ⟨newer.timestamp, increase newer older / Float64.ofRat step⟩ := by
  obtain ⟨rest, hhistory⟩ := h.newest
  exact getLast_of_counter h.type h.counter hhistory h.last_pos

theorem Covered.timestamp_pos : 0 < newer.timestamp := by
  have hpos := h.last_pos
  rwa [h.getLast_eq.2] at hpos

theorem Covered.range (hdvd : step ∣ newer.timestamp) :
    1 ≤ alignEnd param.end_ step - alignStart param.start step - step := by
  have hend := lt_alignEnd h.step_pos hdvd h.le_end
  have hstart := alignStart_lt h.step_pos hdvd h.timestamp_pos h.start_le
  omega

theorem Covered.values_eq
    (hrange : 1 ≤ alignEnd param.end_ step - alignStart param.start step - step) :
    (query env param).values =
      fmtResult dsType step (alignStart param.start step) (alignEnd param.end_ step)
        (merge step
          (cutReply (alignStart param.start step) (alignEnd param.end_ step)
            (env.reply param dsType step))
          (fillCache dsType step (alignStart param.start step) (alignEnd param.end_ step)
            (env.items param dsType step))) := by
  refine values_query h.type hrange h.recent ?_
  obtain ⟨pre, hitems⟩ := h.items
  rw [hitems]
  exact List.append_ne_nil_of_right_ne_nil _ (List.cons_ne_nil _ _)

/-- What the answer has at the time of the newest item is no number. -/
theorem Covered.value_eq_nan {d : RRDData F} (hd : d ∈ (query env param).values)
    (htime : d.timestamp = newer.timestamp) : step ∣ newer.timestamp ∧ d.value = Float64.nan := by
  by_cases hrange : 1 ≤ alignEnd param.end_ step - alignStart param.start step - step
  · rw [h.values_eq hrange] at hd
    refine ⟨?_, ?_⟩
    · have hticks := List.mem_map_of_mem (f := RRDData.timestamp) hd
      rw [fmtResult, map_time_walk missingPoint_timestamp] at hticks
      obtain ⟨i, -, hi⟩ := mem_ticks.mp hticks
      rw [← htime, hi]
      exact dvd_add (dvd_alignStart _ _) (dvd_mul_left _ _)
    · obtain ⟨pre, hitems⟩ := h.items
      have hlast : (env.items param dsType step).getLast? = some newer := by
        rw [hitems]
        simp
      exact value_of_mem_fmtResult_merge h.counter hlast
        (fun d hd hts => h.no_reply d hd (Or.inr hts)) hd htime
  · rw [values_query_of_empty_range h.type (not_le.mp hrange)] at hd
    exact absurd hd List.not_mem_nil

end

/-! ## Where the rate is -/

theorem mem_ratePoints_concat (step : Int) (pre : List (GraphItem F)) (older newer : GraphItem F) :
    ⟨older.timestamp,
      if older.timestamp = newer.timestamp - step ∧ Float64.le older.value newer.value then
        (newer.value - older.value) / Float64.ofRat step
      else Float64.nan⟩ ∈ ratePoints step (pre ++ [older, newer]) := by
  induction pre with
  | nil => exact List.mem_cons_self
  | cons item pre ih =>
    cases pre with
    | nil => exact List.mem_cons_of_mem _ ih
    | cons next pre => exact List.mem_cons_of_mem _ ih

end Covered

/-! ## A counter -/

/-- An item of the counter `host/metric`. -/
def counterItem (timestamp : Int) (value : QFloat) : GraphItem QFloat :=
  ⟨"host", "metric", ∅, value, timestamp, COUNTER, 60, 120, "U", "U"⟩

/-- A node that has cached the counter with the values 10 and `new`, and older rates in its
file. -/
def counterEnv (new : QFloat) : QueryEnv QFloat :=
  { seriesEnv COUNTER 60 1000 [] ⟨540, 60, [.num 5, .num 6]⟩ with
    fetchAll := fun _ => ([counterItem 720 (.num 10), counterItem 780 new], 0) }

/-- The history of that counter. -/
def counterHistory (new : QFloat) : HistoryCache QFloat :=
  AList.insert "host/metric" [counterItem 780 new, counterItem 720 (.num 10)] ∅

/-- A query that covers the counter. -/
def counterParam : GraphQueryParam := ⟨600, 840, "AVERAGE", "host", "metric"⟩

theorem covered_counter (new : QFloat) :
    Covered (counterEnv new) (counterHistory new) counterParam COUNTER 60
      (counterItem 720 (.num 10)) (counterItem 780 new) where
  type := rfl
  counter := Or.inl rfl
  step_pos := by decide
  items := ⟨[], rfl⟩
  newest := ⟨[], rfl⟩
  last_pos := show (0 : Int) < 780 by decide
  start_le := show (600 : Int) ≤ 780 - 60 by decide
  le_end := show (780 : Int) ≤ 840 by decide
  recent := show rra1StartTs 1000 60 ≤ alignStart 600 60 by decide
  no_reply := by
    intro d hd htime
    have htime : d.timestamp = 780 - 60 ∨ d.timestamp = 780 := htime
    have hmem : d ∈ [(⟨600, .num 5⟩ : RRDData QFloat), ⟨660, .num 6⟩] := hd
    rcases List.mem_pair.mp hmem with rfl | rfl
    · exact absurd htime (by decide)
    · exact absurd htime (by decide)

end OpenFalcon.Graph
