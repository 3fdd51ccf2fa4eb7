import OpenFalcon.Common.Tags
import OpenFalcon.Numeric.FloatOrder
import OpenFalcon.Text.Numeral

/-!
# The statistics of the disks

`modules/agent/funcs/diskstats.go`.  Every second `UpdateDiskStats` samples the counters of all
devices and keeps the last two samples of each; from time to time `IOStatsMetrics` reports what was
counted between them.  The counters and the time between the samples are numbers of 64 bits without
a sign, and so are their differences.

`lookup_diskStatsMap` is the run: after any sequence of samples the map has the last two of every
device.  The differences are then what they should be exactly if no counter went back and the clock
went forward by a millisecond, and only with the latter `disk.io.util` is a quotient
(`disk_metrics_meaningful_iff`).  A device that was sampled once has no differences.  They count as
`0`, and `0` divides.
-/

namespace OpenFalcon.Agent

open Numeric Text

/-! ## The source -/

/-- `nux.DiskStats`, with the time in nanoseconds. -/
structure DiskStats where
  device : List Char
  readRequests : BitVec 64
  readSectors : BitVec 64
  msecRead : BitVec 64
  writeRequests : BitVec 64
  writeSectors : BitVec 64
  msecWrite : BitVec 64
  msecTotal : BitVec 64
  msecWeightedTotal : BitVec 64
  ts : Int

/-- `diskStatsMap`.  The first sample of a device is never `nil`. -/
abbrev DiskStatsMap := GoMap (List Char) (DiskStats × Option DiskStats)

/-- The body of the loop of `UpdateDiskStats`. -/
def updateDevice (m : DiskStatsMap) (ds : DiskStats) : DiskStatsMap :=
  m.insert ds.device (ds, (m.lookup ds.device).map Prod.fst)

/-- `UpdateDiskStats`.  Without a list nothing is changed. -/
def updateDiskStats (m : DiskStatsMap) : Option (List DiskStats) → DiskStatsMap
  | some dsList => dsList.foldl updateDevice m
  | none => m

/-- The map after a sequence of updates. -/
def diskStatsMap (updates : List (Option (List DiskStats))) : DiskStatsMap :=
  updates.foldl updateDiskStats ∅

/-- The difference of a counter between two samples. -/
def counterDelta (counter : DiskStats → BitVec 64) (new old : DiskStats) : BitVec 64 :=
  counter new - counter old

def ioReadRequests : DiskStats → DiskStats → BitVec 64 := counterDelta DiskStats.readRequests
def ioReadSectors : DiskStats → DiskStats → BitVec 64 := counterDelta DiskStats.readSectors
def ioMsecRead : DiskStats → DiskStats → BitVec 64 := counterDelta DiskStats.msecRead
def ioWriteRequests : DiskStats → DiskStats → BitVec 64 := counterDelta DiskStats.writeRequests
def ioWriteSectors : DiskStats → DiskStats → BitVec 64 := counterDelta DiskStats.writeSectors
def ioMsecWrite : DiskStats → DiskStats → BitVec 64 := counterDelta DiskStats.msecWrite
def ioMsecTotal : DiskStats → DiskStats → BitVec 64 := counterDelta DiskStats.msecTotal
def ioMsecWeightedTotal : DiskStats → DiskStats → BitVec 64 :=
  counterDelta DiskStats.msecWeightedTotal

/-- `Sub` of two times: a `Duration` is a signed number of 64 bits, and is the largest or the
smallest one if the difference has no place in it. -/
def timeSub (t u : Int) : Int := max (-2 ^ 63) (min (2 ^ 63 - 1) (t - u))

/-- `TS`. -/
def ts (new old : DiskStats) : BitVec 64 :=
  BitVec.ofInt 64 ((timeSub new.ts old.ts).tdiv 1000000)

/-- `IODelta`. -/
def ioDelta (m : DiskStatsMap) (device : List Char) (f : DiskStats → DiskStats → BitVec 64) :
    BitVec 64 :=
  match m.lookup device with
  | none => 0
  | some (_, none) => 0
  | some (new, some old) => f new old

/-- `ShouldHandleDevice`. -/
def shouldHandleDevice (device : List Char) : Bool :=
  let len := (utf8 device).length
  let normal := len ≤ 4 && ("sd".toList.isPrefixOf device || "vd".toList.isPrefixOf device) &&
    !device.any (· ∈ "1234".toList)
  let aws := 4 ≤ len && "xvd".toList.isPrefixOf device
  let flash := 4 ≤ len && ("fio".toList.isPrefixOf device || "nvme".toList.isPrefixOf device)
  let nbd := 4 ≤ len && "nbd".toList.isPrefixOf device
  normal || aws || flash || nbd

/-- A `GaugeValue`.  The divisor is that of the value, if it was computed as a quotient. -/
structure Gauge (F : Type) where
  metric : String
  value : F
  tags : List Char
  divisor : Option (BitVec 64)
  deriving DecidableEq

section Report

variable (F : Type) [Float64 F]

/-- `float64(n)`. -/
def float (n : BitVec 64) : F := Float64.ofRat n.toNat

/-- An average over the requests, `0.0` if there were none. -/
def perRequest (metric : String) (tags : List Char) (sum nIo : BitVec 64) : Gauge F :=
  if nIo ≠ 0 then ⟨metric, float F sum / float F nIo, tags, some nIo⟩
  else ⟨metric, Float64.ofRat 0, tags, none⟩

/-- `disk.io.util`. -/
def util (use duration : BitVec 64) : F :=
  let tmp : F := float F use * Float64.ofRat 100 / float F duration
  if Float64.lt (Float64.ofRat 100) tmp then Float64.ofRat 100 else tmp

/-- The body of the loop of `IOStatsMetrics`. -/
def deviceGauges (m : DiskStatsMap) (device : List Char) : List (Gauge F) :=
  let tags := "device=".toList ++ device
  let rio := ioDelta m device ioReadRequests
  let wio := ioDelta m device ioWriteRequests
  let deltaRsec := ioDelta m device ioReadSectors
  let deltaWsec := ioDelta m device ioWriteSectors
  let ruse := ioDelta m device ioMsecRead
  let wuse := ioDelta m device ioMsecWrite
  let use := ioDelta m device ioMsecTotal
  let nIo := rio + wio
  let duration := ioDelta m device ts
  [⟨"disk.io.read_bytes", float F deltaRsec * Float64.ofRat 512, tags, none⟩,
    ⟨"disk.io.write_bytes", float F deltaWsec * Float64.ofRat 512, tags, none⟩,
    perRequest F "disk.io.avgrq_sz" tags (deltaRsec + deltaWsec) nIo,
    ⟨"disk.io.avgqu-sz", float F (ioDelta m device ioMsecWeightedTotal) / Float64.ofRat 1000, tags,
      some 1000⟩,
    perRequest F "disk.io.await" tags (ruse + wuse) nIo,
    perRequest F "disk.io.svctm" tags use nIo,
    ⟨"disk.io.util", util F use duration, tags, some duration⟩]

/-- `IOStatsMetrics`. -/
def ioStatsMetrics (m : DiskStatsMap) (visit : Visit m) : List (Gauge F) :=
  visit.entries.flatMap fun e => if shouldHandleDevice e.1 then deviceGauges F m e.1 else []

end Report

/-! ## The last two samples -/

/-- All samples of a device, in the order in which they were taken. -/
def history (updates : List (Option (List DiskStats))) (device : List Char) : List DiskStats :=
  (updates.filterMap id).flatten.filter fun ds => ds.device = device

variable {α : Type} {l : List α}

/-- The last sample, and the one before it. -/
def lastTwo (l : List α) : Option (α × Option α) :=
  l.getLast?.map fun a => (a, l.dropLast.getLast?)

theorem lastTwo_concat (l : List α) (a : α) :
    lastTwo (l ++ [a]) = some (a, (lastTwo l).map Prod.fst) := by
  unfold lastTwo
  rw [List.getLast?_concat, List.dropLast_concat, Option.map_some, Option.map_map]
  exact congrArg (fun o => some (a, o)) Option.map_id'.symm

theorem lastTwo_eq_none_iff : lastTwo l = none ↔ l = [] := by
  rw [lastTwo, Option.map_eq_none_iff, List.getLast?_eq_none_iff]

theorem exists_lastTwo (h : l ≠ []) : ∃ p, lastTwo l = some p :=
  Option.ne_none_iff_exists'.mp (lastTwo_eq_none_iff.not.mpr h)

theorem lookup_updateDevice (m : DiskStatsMap) (ds : DiskStats) (device : List Char) :
    (updateDevice m ds).lookup device =
      if ds.device = device then some (ds, (m.lookup device).map Prod.fst)
      else m.lookup device := by
  unfold updateDevice
  split_ifs with h
  · rw [← h, AList.lookup_insert]
  · exact AList.lookup_insert_ne (Ne.symm h)

variable (updates : List (Option (List DiskStats)))

theorem diskStatsMap_eq :
    diskStatsMap updates = (updates.filterMap id).flatten.foldl updateDevice ∅ := by
  induction updates using List.reverseRecOn with
  | nil => rfl
  | append_singleton updates u ih =>
    rw [diskStatsMap, List.foldl_append, ← diskStatsMap, ih, List.filterMap_append,
      List.flatten_append, List.foldl_append]
    cases u with
    | none => rfl
    | some dsList => simp [updateDiskStats]

/-- **The map has the last two samples of every device.** -/
theorem lookup_diskStatsMap (device : List Char) :
    (diskStatsMap updates).lookup device = lastTwo (history updates device) := by
  rw [diskStatsMap_eq, history]
  induction (updates.filterMap id).flatten using List.reverseRecOn with
  | nil => rfl
  | append_singleton samples ds ih =>
    rw [List.foldl_append, List.foldl_cons, List.foldl_nil, lookup_updateDevice, ih,
      List.filter_append]
    by_cases h : ds.device = device
    · rw [if_pos h, List.filter_cons_of_pos (by simpa using h), List.filter_nil, lastTwo_concat]
    · rw [if_neg h, List.filter_cons_of_neg (by simpa using h), List.filter_nil, List.append_nil]

/-! ## Differences -/

/-- A difference is that of the last two samples, or `0`. -/
def TrueDelta (samples : List DiskStats) (delta : BitVec 64) (exact : DiskStats → DiskStats → Int) :
    Prop :=
  delta = 0 ∨
    ∃ new old, lastTwo samples = some (new, some old) ∧ (delta.toNat : Int) = exact new old

/-- **A difference without a sign** is the difference if the number did not go back. -/
theorem sub_eq_zero_or_toNat_iff (x y : BitVec 64) :
    x - y = 0 ∨ ((x - y).toNat : Int) = x.toNat - y.toNat ↔ y ≤ x := by
  have hx := x.isLt
  have hy := y.isLt
  have hzero : (0 : BitVec 64).toNat = 0 := rfl
  rw [← BitVec.toNat_inj, BitVec.toNat_sub, BitVec.le_def, hzero]
  omega

/-- Division towards zero is that of the absolute value. -/
theorem tdiv_cases (x n : Int) : (0 ≤ x ∧ x.tdiv n = x / n) ∨ (x < 0 ∧ x.tdiv n = -(-x / n)) := by
  rcases lt_or_ge x 0 with hneg | hpos
  · refine Or.inr ⟨hneg, ?_⟩
    rw [← Int.tdiv_eq_ediv_of_nonneg (by omega), Int.neg_tdiv, neg_neg]
  · exact Or.inl ⟨hpos, Int.tdiv_eq_ediv_of_nonneg hpos⟩

/-- **The time between two samples** divides, and is the time, if the clock went forward by a
millisecond or more.  The upper bound is where a `Duration` ends. -/
theorem ts_eq_iff (new old : DiskStats) :
    (ts new old ≠ 0 ∧ ((ts new old).toNat : Int) = (new.ts - old.ts).tdiv 1000000) ↔
      1000000 ≤ new.ts - old.ts ∧ new.ts - old.ts < 9223372036855000000 := by
  have hzero : (0 : BitVec 64).toNat = 0 := rfl
  have hnat : ((ts new old).toNat : Int) = (timeSub new.ts old.ts).tdiv 1000000 % 2 ^ 64 := by
    rw [ts, BitVec.toNat_ofInt]
    exact Int.toNat_of_nonneg (Int.emod_nonneg _ (by decide))
  rw [Ne, ← BitVec.toNat_inj, hzero, ← Int.natCast_inj, hnat]
  have hexact := tdiv_cases (new.ts - old.ts) 1000000
  have hwrapped := tdiv_cases (timeSub new.ts old.ts) 1000000
  have hsub : timeSub new.ts old.ts = max (-2 ^ 63) (min (2 ^ 63 - 1) (new.ts - old.ts)) := rfl
  generalize new.ts - old.ts = x at *
  generalize timeSub new.ts old.ts = y at *
  omega

/-- The counters that are read. -/
def counters : List (DiskStats → BitVec 64) :=
  [DiskStats.readRequests, DiskStats.readSectors, DiskStats.msecRead, DiskStats.writeRequests,
    DiskStats.writeSectors, DiskStats.msecWrite, DiskStats.msecTotal, DiskStats.msecWeightedTotal]

/-- All differences of a device are those of its last two samples, or `0`. -/
structure TrueDeltas (updates : List (Option (List DiskStats))) (device : List Char) : Prop where
  counters : ∀ c ∈ counters, TrueDelta (history updates device)
    (ioDelta (diskStatsMap updates) device (counterDelta c))
    fun new old => (c new).toNat - (c old).toNat
  time : TrueDelta (history updates device) (ioDelta (diskStatsMap updates) device ts)
    fun new old => (new.ts - old.ts).tdiv 1000000

/-- From one sample to the next no counter went back, and the clock went forward. -/
structure Advanced (old new : DiskStats) : Prop where
  counters : ∀ c ∈ counters, c old ≤ c new
  time : 1000000 ≤ new.ts - old.ts ∧ new.ts - old.ts < 9223372036855000000

variable {device : List Char}

section Deltas

variable {updates : List (Option (List DiskStats))} {new old : DiskStats}

theorem ioDelta_of_lastTwo (h : lastTwo (history updates device) = some (new, some old))
    (f : DiskStats → DiskStats → BitVec 64) :
    ioDelta (diskStatsMap updates) device f = f new old := by
  rw [ioDelta, lookup_diskStatsMap, h]

theorem ioDelta_of_single (h : lastTwo (history updates device) = some (new, none))
    (f : DiskStats → DiskStats → BitVec 64) : ioDelta (diskStatsMap updates) device f = 0 := by
  rw [ioDelta, lookup_diskStatsMap, h]

theorem trueDelta_iff (h : lastTwo (history updates device) = some (new, some old))
    {delta : BitVec 64} {exact : DiskStats → DiskStats → Int} :
    TrueDelta (history updates device) delta exact ↔
      delta = 0 ∨ (delta.toNat : Int) = exact new old := by
  refine or_congr_right ⟨?_, fun heq => ⟨new, old, h, heq⟩⟩
  rintro ⟨new', old', h', heq⟩
  obtain ⟨rfl, hold⟩ := Prod.mk.inj (Option.some.inj (h.symm.trans h'))
  obtain rfl := Option.some.inj hold
  exact heq

/-- **Differences that mean something**: with two samples, and a time that divides, they are true
exactly if the device advanced. -/
theorem trueDeltas_iff (h : lastTwo (history updates device) = some (new, some old)) :
    TrueDeltas updates device ∧ ioDelta (diskStatsMap updates) device ts ≠ 0 ↔
      Advanced old new := by
  have hcounter : ∀ c : DiskStats → BitVec 64, TrueDelta (history updates device)
      (ioDelta (diskStatsMap updates) device (counterDelta c))
      (fun new old => (c new).toNat - (c old).toNat) ↔ c old ≤ c new := by
    intro c
    rw [trueDelta_iff h, ioDelta_of_lastTwo h]
    exact sub_eq_zero_or_toNat_iff (c new) (c old)
  constructor
  · rintro ⟨htrue, hne⟩
    refine ⟨fun c hc => (hcounter c).mp (htrue.counters c hc), ?_⟩
    have htime := (trueDelta_iff h).mp htrue.time
    rw [ioDelta_of_lastTwo h] at htime hne
    exact (ts_eq_iff new old).mp ⟨hne, htime.resolve_left hne⟩
  · intro hadv
    obtain ⟨hne, htime⟩ := (ts_eq_iff new old).mpr hadv.time
    refine ⟨⟨fun c hc => (hcounter c).mpr (hadv.counters c hc), (trueDelta_iff h).mpr ?_⟩, ?_⟩
    · rw [ioDelta_of_lastTwo h]
      exact Or.inr htime
    · rwa [ioDelta_of_lastTwo h]

end Deltas

/-! ## The report -/

section

variable {F : Type} [Float64 F]

/-- A value that is no quotient by zero, and a share of time between nothing and all of it. -/
structure Gauge.Meaningful (g : Gauge F) : Prop where
  divisor : g.divisor ≠ some 0
  util : g.metric = "disk.io.util" →
    Float64.le (Float64.ofRat 0) g.value = true ∧ Float64.le g.value (Float64.ofRat 100) = true

variable [FloatOrder F]

theorem float_nonneg (n : BitVec 64) : Float64.le (Float64.ofRat 0) (float F n) = true :=
  FloatOrder.le_ofRat (by exact_mod_cast Nat.zero_le n.toNat)

/-- **A time that divides gives a share.** -/
theorem util_mem (use : BitVec 64) {duration : BitVec 64} (h : duration ≠ 0) :
    Float64.le (Float64.ofRat 0) (util F use duration) = true ∧
      Float64.le (util F use duration) (Float64.ofRat 100) = true := by
  have hpos : 0 < (duration.toNat : Int) := by
    have hne : duration.toNat ≠ 0 := fun hzero => h (BitVec.toNat_inj.mp hzero)
    omega
  have hlt : (duration.toNat : Int) < 2 ^ 64 := by exact_mod_cast duration.isLt
  have hmul : Float64.le (Float64.ofRat 0) (float F use * Float64.ofRat 100) = true :=
    FloatOrder.mul_nonneg (n := 100) (float_nonneg use) (by decide) (by decide)
  have hdiv : Float64.le (Float64.ofRat 0)
      (float F use * Float64.ofRat 100 / float F duration) = true :=
    FloatOrder.div_nonneg hmul hpos hlt
  have hhundred : Float64.le (Float64.ofRat 0 : F) (Float64.ofRat 100) = true :=
    FloatOrder.le_ofRat (by decide)
  simp only [util]
  split_ifs with hclamp
  · exact ⟨hhundred, FloatOrder.le_ofRat le_rfl⟩
  · refine ⟨hdiv, (FloatOrder.le_iff_not_lt (FloatOrder.not_isNaN_of_le hdiv).2
      (FloatOrder.isNaN_ofRat 100)).mpr ?_⟩
    exact Bool.eq_false_iff.mpr hclamp

omit [FloatOrder F] in
theorem perRequest_meaningful {metric : String} (hmetric : metric ≠ "disk.io.util")
    (tags : List Char) (sum nIo : BitVec 64) : (perRequest F metric tags sum nIo).Meaningful := by
  unfold perRequest
  split_ifs with hnIo
  · exact ⟨fun h => hnIo (Option.some.inj h), fun h => absurd h hmetric⟩
  · exact ⟨by simp, fun h => absurd h hmetric⟩

/-- The values of a device mean something exactly if the time divides. -/
theorem deviceGauges_meaningful_iff (m : DiskStatsMap) (device : List Char) :
    (∀ g ∈ deviceGauges F m device, g.Meaningful) ↔ ioDelta m device ts ≠ 0 := by
  unfold deviceGauges
  simp only [List.forall_mem_cons]
  constructor
  · rintro ⟨-, -, -, -, -, -, hutil, -⟩ hzero
    exact hutil.divisor (congrArg some hzero)
  · intro hne
    refine ⟨⟨?_, ?_⟩, ⟨?_, ?_⟩, perRequest_meaningful ?_ _ _ _, ⟨?_, ?_⟩,
      perRequest_meaningful ?_ _ _ _, perRequest_meaningful ?_ _ _ _,
      ⟨fun h => hne (Option.some.inj h), fun _ => util_mem _ hne⟩, ?_⟩
    all_goals simp

theorem ioStatsMetrics_meaningful_iff (updates : List (Option (List DiskStats)))
    (visit : Visit (diskStatsMap updates)) :
    (∀ g ∈ ioStatsMetrics F (diskStatsMap updates) visit, g.Meaningful) ↔
      ∀ device, shouldHandleDevice device = true → history updates device ≠ [] →
        ioDelta (diskStatsMap updates) device ts ≠ 0 := by
  constructor
  · intro h device hhandle hsampled
    obtain ⟨samples, hsamples⟩ := exists_lastTwo hsampled
    have hentry : ⟨device, samples⟩ ∈ visit.entries :=
      visit.mem_entries.mpr ((lookup_diskStatsMap updates device).trans hsamples)
    refine (deviceGauges_meaningful_iff (diskStatsMap updates) device).mp fun g hg =>
      h g (List.mem_flatMap.mpr ⟨⟨device, samples⟩, hentry, ?_⟩)
    rwa [if_pos hhandle]
  · intro h g hg
    obtain ⟨⟨device, samples⟩, hentry, hg⟩ := List.mem_flatMap.mp hg
    split_ifs at hg with hhandle
    · refine (deviceGauges_meaningful_iff (diskStatsMap updates) device).mpr
        (h device hhandle ?_) g hg
      rintro hnil
      have hlookup := visit.mem_entries.mp hentry
      rw [lookup_diskStatsMap, lastTwo_eq_none_iff.mpr hnil] at hlookup
      cases hlookup
    · cases hg

/-- **When the metrics of the disks mean something.**  At every moment all differences are those of
the last two samples, no quotient is by zero and every share of time is one, exactly if every device
that is handled was sampled twice at least, and it advanced from the last sample but one to the
last. -/
theorem disk_metrics_meaningful_iff (updates : List (Option (List DiskStats)))
    (visit : Visit (diskStatsMap updates)) :
    ((∀ device, shouldHandleDevice device = true → history updates device ≠ [] →
        TrueDeltas updates device) ∧
      ∀ g ∈ ioStatsMetrics F (diskStatsMap updates) visit, g.Meaningful) ↔
    ∀ device, shouldHandleDevice device = true → history updates device ≠ [] →
      ∃ new old, lastTwo (history updates device) = some (new, some old) ∧ Advanced old new := by
  rw [ioStatsMetrics_meaningful_iff]
  constructor
  · rintro ⟨htrue, htime⟩ device hhandle hsampled
    obtain ⟨⟨new, before⟩, hlast⟩ := exists_lastTwo hsampled
    cases before with
    | none => exact absurd (ioDelta_of_single hlast ts) (htime device hhandle hsampled)
    | some old =>
      exact ⟨new, old, hlast, (trueDeltas_iff hlast).mp
        ⟨htrue device hhandle hsampled, htime device hhandle hsampled⟩⟩
  · intro h
    constructor
    · intro device hhandle hsampled
      obtain ⟨new, old, hlast, hadv⟩ := h device hhandle hsampled
      exact ((trueDeltas_iff hlast).mpr hadv).1
    · intro device hhandle hsampled
      obtain ⟨new, old, hlast, hadv⟩ := h device hhandle hsampled
      exact ((trueDeltas_iff hlast).mpr hadv).2

end

/-! ## A new disk, and a counter that starts again -/

/-- A sample of `sda`. -/
def sdaSample (sectors ms : ℕ) : DiskStats :=
  ⟨"sda".toList, 1, BitVec.ofNat 64 sectors, 1, 1, 1, 1, 1, 1, 1000000 * ms⟩

/-- Two samples, one second apart. -/
def sdaUpdates : List (Option (List DiskStats)) :=
  [some [sdaSample 100 0], none, some [sdaSample 150 1000]]

theorem history_sdaUpdates (h : history sdaUpdates device ≠ []) :
    history sdaUpdates device = [sdaSample 100 0, sdaSample 150 1000] := by
  by_cases hdevice : "sda".toList = device
  · subst hdevice
    rfl
  · refine absurd (List.filter_eq_nil_iff.mpr fun ds hds => ?_) h
    have hsda : ds.device = "sda".toList := by
      rcases List.mem_pair.mp hds with rfl | rfl
      · rfl
      · rfl
    simpa [hsda] using hdevice

/-- The disk was read between the samples. -/
theorem disk_metrics_meaningful_sda :
    shouldHandleDevice "sda".toList = true ∧
      ∀ g ∈ ioStatsMetrics QFloat (diskStatsMap sdaUpdates) (Visit.asWritten _),
        g.Meaningful := by
  refine ⟨by decide +kernel, ((disk_metrics_meaningful_iff sdaUpdates (Visit.asWritten _)).mpr
    fun device _ hsampled => ?_).2⟩
  rw [history_sdaUpdates hsampled]
  refine ⟨sdaSample 150 1000, sdaSample 100 0, rfl, ?_, by decide⟩
  simp [counters, sdaSample]

/-- A disk that was sampled once has `disk.io.util` as a quotient by zero, which is not a number;
and after a counter started again at `5`, the bytes that were read are not far from `2 ^ 73`. -/
theorem disk_metrics_meaningless :
    (∃ g ∈ ioStatsMetrics QFloat (diskStatsMap [some [sdaSample 100 0]]) (Visit.asWritten _),
      g.metric = "disk.io.util" ∧ g.divisor = some 0 ∧ g.value = .nan) ∧
    ∃ g ∈ ioStatsMetrics QFloat
        (diskStatsMap [some [sdaSample 100 0], some [sdaSample 5 1000]]) (Visit.asWritten _),
      g.metric = "disk.io.read_bytes" ∧ g.value = .num ((2 ^ 64 - 95) * 512) := by
  constructor
  · refine ⟨⟨"disk.io.util", .nan, "device=sda".toList, some 0⟩, ?_, rfl, rfl, rfl⟩
    decide +kernel
  · refine ⟨⟨"disk.io.read_bytes", .num ((2 ^ 64 - 95) * 512), "device=sda".toList, none⟩, ?_, rfl,
      rfl⟩
    decide +kernel

end OpenFalcon.Agent
