import OpenFalcon.Graph.Merge

/-!
# A reply with a point per step is merged exactly

When the reply of the RRD file holds one point per step from the start of the window
on, positions and times agree: the n-th younger point of the reply is the n-th point
of the cache.  Then the merge is what it is meant to be --- at every time the cached
value if there is one, else the value of the reply --- and the merged points climb
along the grid, so the response shows all of them.

`mergedByTime_merge` is this statement about the merge; the result about `query` reads
it at the window of the query.
-/

namespace OpenFalcon.Graph

open Numeric Order

variable {F : Type} [Float64 F] {cache datas l₁ l₂ : List (RRDData F)} {startTs a endTs : Int}
  {m n : ℕ} {d : RRDData F} {dsType : String}

/-! ## Values of lists of points -/

theorem valueAt_append_of_ne_left {ts : Int} (h : ∀ d ∈ l₁, d.timestamp ≠ ts) :
    valueAt (l₁ ++ l₂) ts = valueAt l₂ ts := by
  induction l₁ with
  | nil => rfl
  | cons d l₁ ih =>
    rw [List.cons_append, valueAt_cons, if_neg (h d List.mem_cons_self),
      ih fun e he => h e (List.mem_cons_of_mem d he)]

theorem valueAt_append_of_ne_right {ts : Int} (h : valueAt l₂ ts = Float64.nan) :
    valueAt (l₁ ++ l₂) ts = valueAt l₁ ts := by
  induction l₁ with
  | nil => exact h
  | cons d l₁ ih => rw [List.cons_append, valueAt_cons, valueAt_cons, ih]

theorem valueAt_map_missingPoint (times : List Int) (ts : Int) :
    valueAt (times.map (missingPoint (F := F))) ts = Float64.nan := by
  induction times with
  | nil => rfl
  | cons t times ih =>
    rw [List.map_cons, valueAt_cons, ih, missingPoint_value, ite_self]

variable {times : List Int}

theorem valueAt_map_of_mem (f : Int → F) {ts : Int} (h : ts ∈ times) :
    valueAt (times.map fun t => ⟨t, f t⟩) ts = f ts := by
  induction times with
  | nil => exact absurd h List.not_mem_nil
  | cons t times ih =>
    rw [List.map_cons, valueAt_cons]
    by_cases ht : t = ts
    · rw [if_pos ht, ht]
    · rw [if_neg ht, ih ((List.mem_cons.mp h).resolve_left (Ne.symm ht))]

theorem valueAt_cutReply {ts : Int} (hlo : startTs ≤ ts) (hhi : ts ≤ endTs)
    (datas : List (RRDData F)) : valueAt (cutReply startTs endTs datas) ts = valueAt datas ts := by
  induction datas with
  | nil => rfl
  | cons d datas ih =>
    rw [cutReply, List.filter_cons, valueAt_cons]
    by_cases hd : d.timestamp = ts
    · rw [if_pos (by simpa [hd] using ⟨hlo, hhi⟩), if_pos hd, valueAt_cons, if_pos hd]
    · rw [if_neg hd, ← ih, cutReply]
      split_ifs with hin
      · rw [valueAt_cons, if_neg hd]
      · rfl

theorem valueAt_of_notMem_ticks {points : List (RRDData F)} {step ts : Int}
    (h : points.map RRDData.timestamp = ticks a step n) (hts : ts ∉ ticks a step n) :
    valueAt points ts = Float64.nan := by
  refine valueAt_eq_nan ?_
  rintro d hd rfl
  rw [← h] at hts
  exact hts (List.mem_map_of_mem hd)

/-! ## The cache over a reply with the same times -/

theorem timestamp_over {c : RRDData F} (hd : d.timestamp = a) (hc : c.timestamp = a) :
    (if Float64.isNaN c.value then d else c).timestamp = a := by
  split_ifs
  · exact hd
  · exact hc

variable {young : List (RRDData F)}

/-- **Over a reply with the same times the overlay is by time**: the cached value where
there is one, the value of the reply elsewhere. -/
theorem overlay_append_spec {step : Int} {y : ℕ}
    (hyoung : young.map RRDData.timestamp = ticks a step y)
    (hcache : cache.map RRDData.timestamp = ticks a step m) :
    (overlay young cache ++ cache.drop young.length).map RRDData.timestamp =
        ticks a step (max y m) ∧
      ∀ ts, valueAt (overlay young cache ++ cache.drop young.length) ts =
        if Float64.isNaN (valueAt cache ts) then valueAt young ts else valueAt cache ts := by
  induction y generalizing a young cache m with
  | zero =>
    obtain rfl := List.map_eq_nil_iff.mp hyoung
    rw [overlay_nil_left, List.nil_append, List.length_nil, List.drop_zero, Nat.zero_max]
    refine ⟨hcache, fun ts => ?_⟩
    rw [valueAt_nil]
    split_ifs with hnan
    · exact Float64.eq_nan_of_isNaN hnan
    · rfl
  | succ y ih =>
    obtain ⟨d, ds, rfl, hd, hds⟩ := List.map_eq_cons_iff.mp hyoung
    cases m with
    | zero =>
      obtain rfl := List.map_eq_nil_iff.mp hcache
      rw [overlay_nil_right, List.drop_nil, List.append_nil, Nat.max_zero]
      refine ⟨hyoung, fun ts => ?_⟩
      rw [valueAt_nil, if_pos Float64.isNaN_nan]
    | succ m =>
      obtain ⟨c, cs, rfl, hc, hcs⟩ := List.map_eq_cons_iff.mp hcache
      obtain ⟨htimes, hvalues⟩ := ih hds hcs
      rw [overlay_cons_cons, List.length_cons, List.drop_succ_cons, List.cons_append]
      constructor
      · rw [List.map_cons, timestamp_over hd hc, htimes, Nat.succ_max_succ, ticks_succ]
      · intro ts
        rw [valueAt_cons, valueAt_cons, valueAt_cons, hvalues, timestamp_over hd hc, hd, hc]
        by_cases hts : a = ts
        · simp only [if_pos hts]
          split_ifs <;> rfl
        · simp only [if_neg hts]

/-! ## The merge -/

theorem mem_fixMissing {step until_ ts : Int} (h : d ∈ fixMissing step until_ n ts) :
    d.timestamp < until_ ∧ d.value = Float64.nan := by
  induction n generalizing ts with
  | zero => exact absurd h List.not_mem_nil
  | succ n ih =>
    rw [fixMissing] at h
    split_ifs at h with hts
    · rcases List.mem_cons.mp h with rfl | h
      · exact ⟨hts, rfl⟩
      · exact ih h
    · exact absurd h List.not_mem_nil

theorem fixMissing_eq {step ts : Int} (hstep : 0 < step) (hmn : m ≤ n) :
    fixMissing (F := F) step (ts + m * step) n ts = (ticks ts step m).map missingPoint := by
  induction m generalizing n ts with
  | zero =>
    cases n with
    | zero => rfl
    | succ n => rw [fixMissing, if_neg (by simp)]; rfl
  | succ m ih =>
    obtain ⟨n, rfl⟩ : ∃ n', n = n' + 1 := ⟨n - 1, by omega⟩
    have hgo : ts < ts + (m + 1 : ℕ) * step := by
      have hpos : 0 < ((m + 1 : ℕ) : Int) * step := by positivity
      omega
    rw [fixMissing, if_pos hgo, ticks_succ, List.map_cons,
      show ts + (m + 1 : ℕ) * step = ts + step + m * step by push_cast; ring,
      ih (Nat.le_of_succ_le_succ hmn)]
    rfl

variable {old : List (RRDData F)}

/-- The gap between a contiguous reply and the cache is filled on the grid. -/
theorem gapPoints_eq {step : Int} (hstep : 0 < step)
    (hold : old.map RRDData.timestamp = ticks a step (n + 1)) :
    gapPoints step (a + (n + 1 + m : ℕ) * step) old =
      (ticks (a + (n + 1 : ℕ) * step) step m).map missingPoint := by
  obtain ⟨d, hlast, hd⟩ : ∃ d, old.getLast? = some d ∧ d.timestamp = a + n * step := by
    have hlen : old.length = n + 1 := by
      rw [← length_ticks a step (n + 1), ← hold, List.length_map]
    have hget : (old.map RRDData.timestamp)[n]? = some (a + n * step) := by
      rw [hold, getElem?_ticks a step (Nat.lt_succ_self n)]
    rw [List.getElem?_map, Option.map_eq_some_iff] at hget
    rw [List.getLast?_eq_getElem?, hlen]
    exact hget
  have hstart : d.timestamp + step = a + (n + 1 : ℕ) * step := by
    rw [hd]; push_cast; ring
  have hend : a + (n + 1 + m : ℕ) * step = a + (n + 1 : ℕ) * step + m * step := by
    push_cast; ring
  have hrounds : m ≤ (a + (n + 1 : ℕ) * step + m * step - d.timestamp).toNat := by
    have hle : (m : Int) * 1 ≤ m * step := mul_le_mul_of_nonneg_left (by omega) (by omega)
    omega
  rw [gapPoints, hlast, hend]
  simp only
  rw [hstart, fixMissing_eq hstep hrounds]

omit [Float64 F] in
theorem bounds_of_timestamps {points : List (RRDData F)} {step : Int} (hstep : 0 < step)
    (h : points.map RRDData.timestamp = ticks a step n) (hd : d ∈ points) :
    a ≤ d.timestamp ∧ d.timestamp < a + n * step :=
  bounds_of_mem_ticks hstep (h ▸ List.mem_map_of_mem hd)

/-- What the merge of a contiguous reply and a cache must be: it can be laid out along
the grid, and has the cached value where there is one, that of the reply elsewhere. -/
def MergedByTime (startTs step : Int) (reply cache merged : List (RRDData F)) : Prop :=
  Climbs RRDData.timestamp step startTs merged ∧
    ∀ ts, valueAt merged ts =
      if Float64.isNaN (valueAt cache ts) then valueAt reply ts else valueAt cache ts

section Contiguous

variable {startTs step : Int} {reply cache : List (RRDData F)} {r j m : ℕ}

theorem mergedByTime_of_before (hstep : 0 < step)
    (hreply : reply.map RRDData.timestamp = ticks startTs step r)
    (hcache : cache.map RRDData.timestamp = ticks (startTs + j * step) step m) (hrj : r ≤ j)
    (hgap : times = [] ∧ r = 0 ∨ times = ticks (startTs + r * step) step (j - r)) :
    MergedByTime startTs step reply cache (reply ++ times.map missingPoint ++ cache) := by
  constructor
  · rw [climbs_append]
    rcases hgap with ⟨rfl, rfl⟩ | rfl
    · rw [List.map_eq_nil_iff.mp hreply]
      exact ⟨trivial, Climbs.of_tick hstep j (climbs_of_ticks hcache)⟩
    · have htimes : (reply ++ (ticks (startTs + r * step) step (j - r)).map missingPoint).map
          RRDData.timestamp = ticks startTs step j := by
        rw [List.map_append, hreply, List.map_map, show j = r + (j - r) by omega, ticks_append,
          Nat.add_sub_cancel_left]
        congr 1
        exact List.map_id _
      refine ⟨climbs_of_ticks htimes, ?_⟩
      rw [nextTick_of_ticks htimes]
      exact climbs_of_ticks hcache
  · intro ts
    by_cases hts : startTs + j * step ≤ ts
    · have hrj' : (r : Int) * step ≤ j * step := mul_le_mul_of_nonneg_right (by omega) hstep.le
      have hfar : ∀ d ∈ reply, d.timestamp ≠ ts := by
        intro d hd
        have hbounds := bounds_of_timestamps hstep hreply hd
        omega
      have hfar' : ∀ d ∈ times.map (missingPoint (F := F)), d.timestamp ≠ ts := by
        intro d hd
        obtain ⟨t, ht, rfl⟩ := List.mem_map.mp hd
        rcases hgap with ⟨rfl, -⟩ | rfl
        · exact absurd ht List.not_mem_nil
        · have hbounds := bounds_of_mem_ticks hstep ht
          rw [add_assoc, ← add_mul, ← Nat.cast_add, Nat.add_sub_cancel' hrj] at hbounds
          rw [missingPoint_timestamp]
          omega
      rw [List.append_assoc, valueAt_append_of_ne_left hfar, valueAt_append_of_ne_left hfar',
        valueAt_eq_nan hfar]
      split_ifs with hnan
      · exact Float64.eq_nan_of_isNaN hnan
      · rfl
    · have hnan : valueAt cache ts = Float64.nan := by
        refine valueAt_eq_nan fun d hd => ?_
        have hbounds := bounds_of_timestamps hstep hcache hd
        omega
      rw [hnan, if_pos Float64.isNaN_nan, valueAt_append_of_ne_right hnan,
        valueAt_append_of_ne_right (valueAt_map_missingPoint times ts)]

theorem mergedByTime_of_overlap (hstep : 0 < step) {y : ℕ}
    (hold : old.map RRDData.timestamp = ticks startTs step j)
    (hyoung : young.map RRDData.timestamp = ticks (startTs + j * step) step y)
    (hcache : cache.map RRDData.timestamp = ticks (startTs + j * step) step m) :
    MergedByTime startTs step (old ++ young) cache
      (old ++ (overlay young cache ++ cache.drop young.length)) := by
  constructor
  · rw [climbs_append, nextTick_of_ticks hold]
    exact ⟨climbs_of_ticks hold, climbs_of_ticks (overlay_append_spec hyoung hcache).1⟩
  · intro ts
    by_cases hts : startTs + j * step ≤ ts
    · have hfar : ∀ d ∈ old, d.timestamp ≠ ts := by
        intro d hd
        have hbounds := bounds_of_timestamps hstep hold hd
        omega
      rw [valueAt_append_of_ne_left hfar, valueAt_append_of_ne_left hfar,
        (overlay_append_spec hyoung hcache).2]
    · have hlate : ∀ {points : List (RRDData F)} {n : ℕ},
          points.map RRDData.timestamp = ticks (startTs + j * step) step n →
          valueAt points ts = Float64.nan := by
        intro points n h
        refine valueAt_eq_nan fun d hd => ?_
        have hbounds := bounds_of_timestamps hstep h hd
        omega
      rw [hlate hcache, if_pos Float64.isNaN_nan, valueAt_append_of_ne_right (hlate hyoung),
        valueAt_append_of_ne_right (hlate (overlay_append_spec hyoung hcache).1)]

/-- **A contiguous reply and a cache on the same grid are merged by time.** -/
theorem mergedByTime_merge (hstep : 0 < step)
    (hreply : reply.map RRDData.timestamp = ticks startTs step r)
    (hcache : cache.map RRDData.timestamp = ticks (startTs + j * step) step m) :
    MergedByTime startTs step reply cache (merge step reply cache) := by
  cases m with
  | zero =>
    rw [List.map_eq_nil_iff.mp hcache, merge]
    refine ⟨climbs_of_ticks hreply, fun ts => ?_⟩
    rw [valueAt_nil, if_pos Float64.isNaN_nan]
  | succ m =>
    obtain ⟨c, cs, rfl, hc, -⟩ := List.map_eq_cons_iff.mp hcache
    rcases le_or_gt r j with hrj | hjr
    · have hold : ∀ d ∈ reply, d.timestamp < c.timestamp := by
        intro d hd
        have hbounds := bounds_of_timestamps hstep hreply hd
        have hle : (r : Int) * step ≤ j * step :=
          mul_le_mul_of_nonneg_right (by omega) hstep.le
        omega
      have hmerge : merge step (reply ++ []) (c :: cs) = reply ++ overlay [] (c :: cs) ++
          gapPoints step c.timestamp reply ++ (c :: cs) := merge_eq step hold (by simp)
      rw [List.append_nil, overlay_nil_left, List.append_nil, hc] at hmerge
      rw [hmerge]
      cases r with
      | zero =>
        have hgap : gapPoints step (startTs + j * step) reply = List.map missingPoint [] := by
          rw [List.map_eq_nil_iff.mp hreply]
          rfl
        rw [hgap]
        exact mergedByTime_of_before hstep hreply hcache hrj (Or.inl ⟨rfl, rfl⟩)
      | succ n =>
        have hgap := gapPoints_eq (m := j - (n + 1)) hstep hreply
        rw [Nat.add_sub_cancel' hrj] at hgap
        rw [hgap]
        exact mergedByTime_of_before hstep hreply hcache hrj (Or.inr rfl)
    · obtain ⟨y, rfl⟩ := Nat.exists_eq_add_of_lt hjr
      rw [Nat.add_assoc, ticks_append] at hreply
      obtain ⟨old, young, rfl, hold, hyoung⟩ := List.map_eq_append_iff.mp hreply
      have hgap : gapPoints step (startTs + j * step) old = [] := by
        cases j with
        | zero =>
          rw [List.map_eq_nil_iff.mp hold]
          rfl
        | succ n => exact gapPoints_eq (m := 0) hstep hold
      rw [merge_eq step (fun d hd => ?_) (fun d hd => ?_), hc, hgap, List.append_nil,
        List.append_assoc]
      · exact mergedByTime_of_overlap hstep hold hyoung hcache
      · rw [hc]
        exact (bounds_of_timestamps hstep hold hd).2
      · rw [hc]
        exact (bounds_of_timestamps hstep hyoung hd).1

end Contiguous

/-! ## The window of a query -/

theorem dvd_alignStart (start step : Int) : step ∣ alignStart start step :=
  Int.dvd_self_sub_tmod

theorem le_endTs_of_mem_ticks {step ts : Int} (hstep : 0 < step) (hle : startTs ≤ endTs)
    (h : ts ∈ ticks startTs step (retSize dsType step startTs endTs)) : ts ≤ endTs := by
  obtain ⟨i, hi, rfl⟩ := mem_ticks.mp h
  have hquot : 0 ≤ (endTs - startTs).tdiv step := Int.tdiv_nonneg (by omega) hstep.le
  have hsize : (i : Int) ≤ (endTs - startTs).tdiv step := by
    rw [retSize] at hi
    split_ifs at hi <;> omega
  have hmul : (i : Int) * step ≤ (endTs - startTs).tdiv step * step :=
    mul_le_mul_of_nonneg_right hsize hstep.le
  have hdiv : (endTs - startTs).tdiv step * step ≤ endTs - startTs := by
    have hmod := Int.tmod_nonneg step (show 0 ≤ endTs - startTs by omega)
    have hsum := Int.mul_tdiv_add_tmod (endTs - startTs) step
    rw [mul_comm] at hsum
    omega
  omega

theorem valueAt_fillCache {step ts : Int} {points : List (RRDData F)}
    (hcache : cache = (ticks a step m).map fun t => ⟨t, valueAt points t⟩)
    (hin : ∀ d ∈ points, startTs ≤ d.timestamp → d.timestamp ≤ endTs → d.timestamp ∈ ticks a step m)
    (hlo : startTs ≤ ts) (hhi : ts ≤ endTs) : valueAt cache ts = valueAt points ts := by
  rw [hcache]
  by_cases hts : ts ∈ ticks a step m
  · exact valueAt_map_of_mem (valueAt points) hts
  · have htimes : ((ticks a step m).map fun t => (⟨t, valueAt points t⟩ : RRDData F)).map
        RRDData.timestamp = ticks a step m := by
      rw [List.map_map]
      exact List.map_id _
    rw [valueAt_of_notMem_ticks htimes hts, valueAt_eq_nan]
    rintro d hd rfl
    exact hts (hin d hd hlo hhi)

omit [Float64 F] in
theorem timestamps_cutReply {step : Int} (endTs : Int) (hstep : 0 < step)
    (h : ∀ (i : ℕ) d, datas[i]? = some d → d.timestamp = startTs + i * step) :
    ∃ r, (cutReply startTs endTs datas).map RRDData.timestamp = ticks startTs step r := by
  have htimes : datas.map RRDData.timestamp = ticks startTs step datas.length := by
    refine List.ext_getElem? fun i => ?_
    rw [List.getElem?_map]
    by_cases hi : i < datas.length
    · rw [getElem?_ticks startTs step hi, List.getElem?_eq_getElem hi]
      exact congrArg some (h i _ (List.getElem?_eq_getElem hi))
    · rw [List.getElem?_eq_none (by omega), List.getElem?_eq_none (by simpa using hi)]
      rfl
  obtain ⟨r, hr⟩ := @exists_ticks_filter step startTs endTs hstep datas.length startTs (by simp)
  refine ⟨r, ?_⟩
  rw [← max_self startTs, ← hr, ← htimes, List.filter_map, max_self]
  rfl

/-- The response over a contiguous reply, for a window on the grid. -/
theorem fmtResult_merge {step : Int} {first : GraphItem F} {rest : List (GraphItem F)}
    (hstep : 0 < step) (hds : dsType = GAUGE ∨ dsType = COUNTER ∨ dsType = DERIVE)
    (hstart : step ∣ startTs) (hle : startTs ≤ endTs) (hitems : OnGrid step (first :: rest))
    (hdatas : ∀ (i : ℕ) d, datas[i]? = some d → d.timestamp = startTs + i * step) :
    fmtResult dsType step startTs endTs
        (merge step (cutReply startTs endTs datas)
          (fillCache dsType step startTs endTs (first :: rest))) =
      (ticks startTs step (retSize dsType step startTs endTs)).map fun ts =>
        ⟨ts, if Float64.isNaN (valueAt (cachedPoints dsType step (first :: rest)) ts) then
            valueAt datas ts
          else valueAt (cachedPoints dsType step (first :: rest)) ts⟩ := by
  obtain ⟨m, hcache, -, hin⟩ := fillCache_eq_map_ticks endTs hstep hitems hds hstart
  obtain ⟨r, hr⟩ := timestamps_cutReply endTs hstep hdatas
  obtain ⟨j, hj⟩ : ∃ j : ℕ, max first.timestamp startTs = startTs + j * step := by
    refine exists_eq_add_mul_of_dvd hstep (le_max_right _ _) ?_
    rcases max_choice first.timestamp startTs with hmax | hmax
    · rw [hmax]
      exact dvd_sub (hitems.aligned first List.mem_cons_self) hstart
    · rw [hmax, sub_self]
      exact dvd_zero step
  have htimes : (fillCache dsType step startTs endTs (first :: rest)).map RRDData.timestamp =
      ticks (startTs + j * step) step m := by
    rw [hcache, List.map_map, hj]
    exact List.map_id _
  obtain ⟨hclimbs, hvalues⟩ := mergedByTime_merge hstep hr htimes
  rw [fmtResult, walk_of_climbs hstep hclimbs]
  refine List.map_congr_left fun ts hts => ?_
  have hlo : startTs ≤ ts := (bounds_of_mem_ticks hstep hts).1
  have hhi : ts ≤ endTs := le_endTs_of_mem_ticks hstep hle hts
  rw [find?_getD_eq, hvalues, valueAt_fillCache hcache hin hlo hhi, valueAt_cutReply hlo hhi]

/-- A node with a single series: its cached items, and the archive of its file. -/
def seriesEnv (dsType : String) (step now : Int) (items : List (Int × ℚ))
    (archive : FetchResult QFloat) : QueryEnv QFloat where
  getTypeAndStep _ _ := some (dsType, step)
  fetchAll _ :=
    (items.map fun item =>
      ⟨"host", "metric", ∅, .num item.2, item.1, dsType, step, 2 * step, "U", "U"⟩, 0)
  md5 key := key
  storage := "data"
  migrateEnabled := false
  remoteQuery _ := []
  rrdliteFetch _ _ _ _ _ := some archive
  now := now

end OpenFalcon.Graph
