import OpenFalcon.Graph.Item
import OpenFalcon.Order.Timeline

/-!
# Answering a range query

`Query` of `modules/graph/api/graph.go`.  The recent points of a series are in the
cache and not yet in its RRD file, so an answer is merged from both: the cached
items are laid on the step grid, the reply of the RRD file is cut to the window,
the cached points are put over the reply by position, and the result is laid on
the grid of the response.

Indices into a list that only grow are the rest of the list here, and a loop whose
counter advances by `step` carries the number of rounds it can make; with a
positive step it always leaves through its own condition.  Timestamps are unbounded
integers.
-/

namespace OpenFalcon.Graph

open Numeric Order

/-- `model.GraphQueryParam`, the fields `Query` reads. -/
structure GraphQueryParam where
  start : Int
  end_ : Int
  consolFun : String
  endpoint : String
  counter : String

/-- `model.GraphQueryResponse`. -/
structure GraphQueryResponse (F : Type) where
  endpoint : String
  counter : String
  dsType : String
  step : Int
  values : List (RRDData F)

/-- What `rrdlite.Fetch` returns: the values of an archive, the first of them one
`step` after `start`. -/
structure FetchResult (F : Type) where
  start : Int
  step : Int
  values : List F

/-- What `Query` reads besides its argument. -/
structure QueryEnv (F : Type) where
  getTypeAndStep : String → String → Option (String × Int)
  fetchAll : String → List (GraphItem F) × Flag
  md5 : String → String
  storage : String
  migrateEnabled : Bool
  /-- The answer of the node that owned the series before the migration. -/
  remoteQuery : GraphQueryParam → List (RRDData F)
  /-- File name, consolidation function, start, end and step. -/
  rrdliteFetch : String → String → Int → Int → Int → Option (FetchResult F)
  now : Int

variable {F : Type} [Float64 F]

/-! ## The cache on the grid -/

/-- The value of a gauge at the time `ts`: that of the next item if it is of that time,
`NaN` otherwise. -/
def gaugeValue (ts : Int) : List (GraphItem F) → F × List (GraphItem F)
  | item :: rest => if ts = item.timestamp then (item.value, rest) else (Float64.nan, item :: rest)
  | [] => (Float64.nan, [])

/-- The value of a counter at the time `ts`: the rate from the next item to the one
behind it when that is one step later and not smaller, `NaN` otherwise. -/
def counterValue (step ts : Int) : List (GraphItem F) → F × List (GraphItem F)
  | item :: next :: rest =>
    if ts = item.timestamp then
      (if ts = next.timestamp - step ∧ Float64.le item.value next.value then
        (next.value - item.value) / Float64.ofRat step
      else Float64.nan, next :: rest)
    else (Float64.nan, item :: next :: rest)
  | items => (Float64.nan, items)

/-- The loop over the cached items: one point per step from `ts` on, as long as `more`
holds, those outside the window left out. -/
def fill (value : Int → List (GraphItem F) → F × List (GraphItem F)) (more : Int → Bool)
    (step startTs endTs : Int) : ℕ → Int → List (GraphItem F) → List (RRDData F)
  | 0, _, _ => []
  | n + 1, ts, items =>
    if more ts then
      let val := value ts items
      let cache := fill value more step startTs endTs n (ts + step) val.2
      if startTs ≤ ts ∧ ts ≤ endTs then ⟨ts, val.1⟩ :: cache else cache
    else []

/-- The cached points of the window. -/
def fillCache (dsType : String) (step startTs endTs : Int) (items : List (GraphItem F)) :
    List (RRDData F) :=
  match items.head?, items.getLast? with
  | some first, some last =>
    let rounds := (last.timestamp - first.timestamp).toNat + 1
    if dsType = DERIVE ∨ dsType = COUNTER then
      fill (counterValue step) (fun ts => ts < last.timestamp) step startTs endTs rounds
        first.timestamp items
    else if dsType = GAUGE then
      fill gaugeValue (fun ts => ts ≤ last.timestamp) step startTs endTs rounds
        first.timestamp items
    else []
  | _, _ => []

/-! ## The merge -/

/-- The search for the junction, from the back: the number of points up to and
including the last one before `ts`. -/
def findJunction (merged : List (RRDData F)) (ts : Int) : ℕ → ℕ
  | 0 => 0
  | i + 1 =>
    match merged[i]? with
    | some d => if d.timestamp < ts then i + 1 else findJunction merged ts i
    | none => findJunction merged ts i

/-- The loop that appends a `NaN` for every step from `ts` up to `until_`. -/
def fixMissing (step until_ : Int) : ℕ → Int → List (RRDData F)
  | 0, _ => []
  | n + 1, ts =>
    if ts < until_ then ⟨ts, Float64.nan⟩ :: fixMissing step until_ n (ts + step) else []

/-- The loop over the cache: overwrite the points of the reply by position, append
behind them. -/
def mergeCache (rrdDataSize : ℕ) :
    ℕ → List (RRDData F) → List (RRDData F) → List (RRDData F)
  | _, merged, [] => merged
  | rrdDataIdx, merged, c :: cache =>
    mergeCache rrdDataSize (rrdDataIdx + 1)
      (if rrdDataIdx < rrdDataSize then
        if Float64.isNaN c.value then merged else merged.set rrdDataIdx c
      else merged ++ [c]) cache

/-- The points of the reply inside the window. -/
def cutReply (startTs endTs : Int) (datas : List (RRDData F)) : List (RRDData F) :=
  datas.filter fun d => startTs ≤ d.timestamp ∧ d.timestamp ≤ endTs

/-- The cached points put over the points of the reply. -/
def merge (step : Int) (merged cache : List (RRDData F)) : List (RRDData F) :=
  match cache with
  | [] => merged
  | first :: _ =>
    let rrdDataSize := merged.length
    let junction := findJunction merged first.timestamp rrdDataSize
    let lastTs :=
      match junction with
      | 0 => first.timestamp
      | i + 1 => ((merged[i]?).map RRDData.timestamp).getD first.timestamp
    let missing :=
      fixMissing step first.timestamp (first.timestamp - lastTs).toNat (lastTs + step)
    mergeCache rrdDataSize junction (merged ++ missing) cache

/-- The point of a grid time nothing is known about. -/
def missingPoint (ts : Int) : RRDData F := ⟨ts, Float64.nan⟩

/-- The number of points of the response. -/
def retSize (dsType : String) (step startTs endTs : Int) : ℕ :=
  ((endTs - startTs).tdiv step).toNat + if dsType = GAUGE then 1 else 0

/-- The response: the merged points on the grid. -/
def fmtResult (dsType : String) (step startTs endTs : Int) (merged : List (RRDData F)) :
    List (RRDData F) :=
  walk RRDData.timestamp missingPoint step (retSize dsType step startTs endTs) startTs merged

/-! ## The query -/

/-- `fetch` of `rrdtool.go`: the values with their times. -/
def fetch (res : Option (FetchResult F)) : List (RRDData F) :=
  match res with
  | none => []
  | some r => r.values.mapIdx fun i val => ⟨r.start + (i + 1) * r.step, val⟩

/-- The start of the window, on the grid. -/
def alignStart (start step : Int) : Int := start - start.tmod step

/-- The end of the window, on the grid and after the end asked for. -/
def alignEnd (end_ step : Int) : Int := end_ - end_.tmod step + step

/-- The time the archive with one point per step begins at. -/
def rra1StartTs (now step : Int) : Int := now - now.tmod step - RRA1PointCnt * step

/-- The cache key of the series asked for. -/
def QueryEnv.cacheKey (env : QueryEnv F) (param : GraphQueryParam) (dsType : String)
    (step : Int) : String :=
  formRrdCacheKey (env.md5 (param.endpoint ++ "/" ++ param.counter)) dsType step

/-- The cached items of the series asked for, oldest first. -/
def QueryEnv.items (env : QueryEnv F) (param : GraphQueryParam) (dsType : String)
    (step : Int) : List (GraphItem F) :=
  (env.fetchAll (env.cacheKey param dsType step)).1

/-- The reply of the RRD file, or of the node that still has it. -/
def QueryEnv.reply (env : QueryEnv F) (param : GraphQueryParam) (dsType : String)
    (step : Int) : List (RRDData F) :=
  let md5 := env.md5 (param.endpoint ++ "/" ++ param.counter)
  let flag := (env.fetchAll (env.cacheKey param dsType step)).2
  if env.migrateEnabled ∧ flag &&& GRAPH_F_MISS ≠ 0 then env.remoteQuery param
  else
    fetch (env.rrdliteFetch (rrdFileName env.storage md5 dsType step) param.consolFun
      (alignStart param.start step - step) (alignEnd param.end_ step) step)

/-- `Query`. -/
def query (env : QueryEnv F) (param : GraphQueryParam) : GraphQueryResponse F :=
  match env.getTypeAndStep param.endpoint param.counter with
  | none => ⟨param.endpoint, param.counter, "", 0, []⟩
  | some (dsType, step) =>
    let respond := fun values =>
      (⟨param.endpoint, param.counter, dsType, step, values⟩ : GraphQueryResponse F)
    let startTs := alignStart param.start step
    let endTs := alignEnd param.end_ step
    if endTs - startTs - step < 1 then respond []
    else
      let items := env.items param dsType step
      let datas := env.reply param dsType step
      -- a consolidated reply, or nothing to merge
      if startTs < rra1StartTs env.now step ∨ items.length < 1 then respond datas
      else
        let cache := fillCache dsType step startTs endTs items
        respond (fmtResult dsType step startTs endTs
          (merge step (cutReply startTs endTs datas) cache))

end OpenFalcon.Graph
