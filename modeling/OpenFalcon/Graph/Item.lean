import OpenFalcon.Numeric.Float64
import OpenFalcon.Common.Tags

/-!
# The records of the graph module

`common/model/graph.go` and the constants and names of `modules/graph/g`: items,
points, series types, migration flags, cache keys and file names.
-/

namespace OpenFalcon.Graph

open Common

/-- `model.GraphItem`. -/
structure GraphItem (F : Type) where
  endpoint : String
  metric : String
  tags : Tags
  value : F
  timestamp : Int
  dsType : String
  step : Int
  heartbeat : Int
  min : String
  max : String

/-- `model.RRDData`, a point of a response. -/
structure RRDData (F : Type) where
  timestamp : Int
  value : F
  deriving DecidableEq

/-! ## The items of a series -/

section

variable {F : Type} {step t : Int} {first last : GraphItem F} {rest items : List (GraphItem F)}

/-- The cached items of a series: in the order of their times, all on the grid. -/
structure OnGrid (step : Int) (items : List (GraphItem F)) : Prop where
  increasing : (items.map GraphItem.timestamp).Pairwise (· < ·)
  aligned : ∀ item ∈ items, step ∣ item.timestamp

theorem OnGrid.first_le (h : OnGrid step (first :: rest))
    (ht : t ∈ (first :: rest).map GraphItem.timestamp) : first.timestamp ≤ t := by
  have hinc := h.increasing
  rw [List.map_cons, List.pairwise_cons] at hinc
  rw [List.map_cons, List.mem_cons] at ht
  rcases ht with rfl | ht
  · exact le_rfl
  · exact (hinc.1 t ht).le

theorem OnGrid.dvd (h : OnGrid step (first :: rest))
    (ht : t ∈ (first :: rest).map GraphItem.timestamp) : step ∣ t := by
  obtain ⟨item, hitem, rfl⟩ := List.mem_map.mp ht
  exact h.aligned item hitem

theorem dropLast_append_last (hlast : items.getLast? = some last) :
    (items.map GraphItem.timestamp).dropLast ++ [last.timestamp] = items.map GraphItem.timestamp :=
  List.dropLast_append_getLast? _ (by rw [List.getLast?_map, hlast]; rfl)

theorem OnGrid.lt_last (h : OnGrid step items) (hlast : items.getLast? = some last)
    (ht : t ∈ (items.map GraphItem.timestamp).dropLast) : t < last.timestamp := by
  have hinc := h.increasing
  rw [← dropLast_append_last hlast, List.pairwise_append] at hinc
  exact hinc.2.2 t ht last.timestamp (List.mem_singleton_self _)

theorem OnGrid.le_last (h : OnGrid step items) (hlast : items.getLast? = some last)
    (ht : t ∈ items.map GraphItem.timestamp) : t ≤ last.timestamp := by
  rw [← dropLast_append_last hlast, List.mem_append, List.mem_singleton] at ht
  rcases ht with ht | rfl
  · exact (h.lt_last hlast ht).le
  · exact le_rfl

end

/-! ## Constants -/

/-- `g.GAUGE`. -/
def GAUGE : String := "GAUGE"

/-- `g.DERIVE`. -/
def DERIVE : String := "DERIVE"

/-- `g.COUNTER`. -/
def COUNTER : String := "COUNTER"

/-- `rrdtool.RRA1PointCnt`: the points of the archive that holds one per step. -/
def RRA1PointCnt : Int := 720

/-- The flag word of a cached series. -/
abbrev Flag := BitVec 32

/-- `g.GRAPH_F_MISS`: the local file of the series is missing. -/
def GRAPH_F_MISS : Flag := 1

/-- `g.GRAPH_F_SENDING`. -/
def GRAPH_F_SENDING : Flag := 4

/-- `g.GRAPH_F_FETCHING`. -/
def GRAPH_F_FETCHING : Flag := 8

/-! ## Names -/

/-- `g.FormRrdCacheKey`. -/
def formRrdCacheKey (md5 dsType : String) (step : Int) : String :=
  md5 ++ "_" ++ dsType ++ "_" ++ toString step

/-- `g.RrdFileName`. -/
def rrdFileName (baseDir md5 dsType : String) (step : Int) : String :=
  baseDir ++ "/" ++ String.ofList (md5.toList.take 2) ++ "/" ++ md5 ++ "_" ++ dsType ++ "_" ++
    toString step ++ ".rrd"

end OpenFalcon.Graph
