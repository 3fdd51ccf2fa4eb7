import OpenFalcon.Graph.Query

/-!
# The loops of a query as equations

`Query` runs four loops over its two sources.  Here each of them is given in closed
form, so that what the response shows can be read off lists.

* The fill loop lays the items along the grid (`fill_eq_cut_walk`), and the cache it
  leaves has one point per step, from the later of the first item and the start of the
  window on (`fillCache_eq_map_ticks`).
* The merge keeps the points of the reply before the cache, puts the cached points
  over the younger ones *by position*, and behind all of them come the points that
  were meant to fill the gap, then the rest of the cache (`merge_eq`).

Nothing here assumes that the reply has a point per step; that is where the results
about the response part.
-/

namespace OpenFalcon.Graph

open Numeric Order

variable {F : Type} [Float64 F] {young old : List (RRDData F)} {param : GraphQueryParam}
  {env : QueryEnv F} {dsType : String} {n : ℕ}

/-! ## Points -/

/-- A cached item, as a point. -/
def itemPoint (item : GraphItem F) : RRDData F := ⟨item.timestamp, item.value⟩

/-- The rates of a counter, each at the time of the earlier of its two items. -/
def ratePoints (step : Int) : List (GraphItem F) → List (RRDData F)
  | item :: next :: rest =>
    ⟨item.timestamp,
      if item.timestamp = next.timestamp - step ∧ Float64.le item.value next.value then
        (next.value - item.value) / Float64.ofRat step
      else Float64.nan⟩ :: ratePoints step (next :: rest)
  | _ => []

/-- The points the cache of a series is filled from. -/
def cachedPoints (dsType : String) (step : Int) (items : List (GraphItem F)) : List (RRDData F) :=
  if dsType = GAUGE then items.map itemPoint else ratePoints step items

/-- The value a list of points has at a time, `NaN` if it has none. -/
def valueAt (points : List (RRDData F)) (ts : Int) : F :=
  ((points.find? fun d => d.timestamp = ts).map RRDData.value).getD Float64.nan

@[simp] theorem missingPoint_timestamp (ts : Int) :
    (missingPoint ts : RRDData F).timestamp = ts := rfl

@[simp] theorem missingPoint_value (ts : Int) :
    (missingPoint ts : RRDData F).value = Float64.nan := rfl

theorem find?_getD_eq (points : List (RRDData F)) (ts : Int) :
    (points.find? fun d => d.timestamp = ts).getD (missingPoint ts) =
      ⟨ts, valueAt points ts⟩ := by
  cases hfind : points.find? (fun d => d.timestamp = ts) with
  | none => rw [valueAt, hfind]; rfl
  | some d =>
    have hts : d.timestamp = ts := by simpa using List.find?_some hfind
    rw [valueAt, hfind, ← hts]
    rfl

@[simp] theorem valueAt_nil (ts : Int) : valueAt ([] : List (RRDData F)) ts = Float64.nan := rfl

theorem valueAt_cons (d : RRDData F) (points : List (RRDData F)) (ts : Int) :
    valueAt (d :: points) ts = if d.timestamp = ts then d.value else valueAt points ts := by
  rw [valueAt, List.find?_cons]
  by_cases h : d.timestamp = ts
  · simp [h]
  · simp [h, valueAt]

theorem valueAt_eq_nan {points : List (RRDData F)} {ts : Int}
    (h : ∀ d ∈ points, d.timestamp ≠ ts) : valueAt points ts = Float64.nan := by
  have hnone : (points.find? fun d => d.timestamp = ts) = none := by
    rw [List.find?_eq_none]
    simpa using h
  rw [valueAt, hnone]
  rfl

/-! ## The fill loop -/

/-- A way to read the items off in order is a list of points: at the time of the first
point its value is read and the point is used up, at any other time nothing is. -/
def Reads (value : Int → List (GraphItem F) → F × List (GraphItem F))
    (points : List (GraphItem F) → List (RRDData F)) : Prop :=
  ∀ ts items,
    (∃ d rest, points items = d :: points rest ∧ ts = d.timestamp ∧
      value ts items = (d.value, rest)) ∨
    ((∀ d ∈ (points items).head?, ts ≠ d.timestamp) ∧ value ts items = (Float64.nan, items))

theorem reads_gaugeValue : Reads (F := F) gaugeValue (List.map itemPoint) := by
  intro ts items
  cases items with
  | nil => exact Or.inr ⟨by simp, rfl⟩
  | cons item rest =>
    by_cases hts : ts = item.timestamp
    · exact Or.inl ⟨itemPoint item, rest, rfl, hts, by rw [gaugeValue, if_pos hts]; rfl⟩
    · exact Or.inr ⟨by simpa [itemPoint] using hts, by rw [gaugeValue, if_neg hts]⟩

theorem reads_counterValue (step : Int) : Reads (F := F) (counterValue step) (ratePoints step) := by
  intro ts items
  rcases items with _ | ⟨item, _ | ⟨next, rest⟩⟩
  · exact Or.inr ⟨by simp [ratePoints], rfl⟩
  · exact Or.inr ⟨by simp [ratePoints], rfl⟩
  · by_cases hts : ts = item.timestamp
    · subst hts
      exact Or.inl ⟨_, next :: rest, rfl, rfl, by rw [counterValue, if_pos rfl]⟩
    · exact Or.inr ⟨by simpa [ratePoints] using hts, by rw [counterValue, if_neg hts]⟩

/-- **Filling the cache is laying the points of the items along the grid**, as long as
the loop goes on, and cutting the result to the window. -/
theorem fill_eq_cut_walk {value : Int → List (GraphItem F) → F × List (GraphItem F)}
    {points : List (GraphItem F) → List (RRDData F)} (hreads : Reads value points)
    {more : Int → Bool} {step startTs endTs : Int} {m : ℕ} (hmn : m ≤ n) :
    ∀ {ts : Int} {items : List (GraphItem F)},
      (∀ i : ℕ, i < m → more (ts + i * step) = true) → more (ts + m * step) = false →
      fill value more step startTs endTs n ts items =
        cutReply startTs endTs
          (walk RRDData.timestamp missingPoint step m ts (points items)) := by
  induction m generalizing n with
  | zero =>
    intro ts items _ hstop
    have hstop' : more ts = false := by simpa using hstop
    cases n with
    | zero => rfl
    | succ n => rw [fill, hstop']; rfl
  | succ m ih =>
    intro ts items hgo hstop
    obtain ⟨n, rfl⟩ : ∃ n', n = n' + 1 := ⟨n - 1, by omega⟩
    have hfirst : more ts = true := by simpa using hgo 0 (Nat.succ_pos m)
    have hrest : ∀ items', fill value more step startTs endTs n (ts + step) items' =
        cutReply startTs endTs
          (walk RRDData.timestamp missingPoint step m (ts + step) (points items')) := by
      intro items'
      refine ih (Nat.le_of_succ_le_succ hmn) ?_ ?_
      · intro i hi
        rw [show ts + step + i * step = ts + (i + 1 : ℕ) * step by push_cast; ring]
        exact hgo (i + 1) (Nat.succ_lt_succ hi)
      · rw [show ts + step + m * step = ts + (m + 1 : ℕ) * step by push_cast; ring]
        exact hstop
    rw [fill, if_pos hfirst]
    rcases hreads ts items with ⟨d, rest, hpoints, hts, hval⟩ | ⟨hother, hval⟩
    · subst hts
      rw [hpoints, walk, if_pos rfl]
      simp only [hval, hrest, cutReply, List.filter_cons, decide_eq_true_eq]
    · have hwalk : walk RRDData.timestamp missingPoint step (m + 1) ts (points items) =
          missingPoint ts ::
            walk RRDData.timestamp missingPoint step m (ts + step) (points items) := by
        cases hpoints : points items with
        | nil => rfl
        | cons d ds => rw [walk, if_neg (hother d (by rw [hpoints]; rfl))]
      rw [hwalk]
      simp only [hval, hrest, cutReply, List.filter_cons, decide_eq_true_eq, missingPoint]

/-! ## The cache -/

theorem timestamps_ratePoints (step : Int) (items : List (GraphItem F)) :
    (ratePoints step items).map RRDData.timestamp =
      (items.map GraphItem.timestamp).dropLast := by
  induction items with
  | nil => rfl
  | cons item rest ih =>
    cases rest with
    | nil => rfl
    | cons next rest => simpa [ratePoints] using ih

theorem timestamps_cachedPoints_sublist (dsType : String) (step : Int)
    (items : List (GraphItem F)) :
    ((cachedPoints dsType step items).map RRDData.timestamp).Sublist
      (items.map GraphItem.timestamp) := by
  rw [cachedPoints]
  split_ifs with h
  · rw [List.map_map]
    exact List.Sublist.refl _
  · rw [timestamps_ratePoints]
    exact List.dropLast_sublist _

section

variable {dsType : String} {step startTs endTs : Int} {first : GraphItem F}
  {rest : List (GraphItem F)} {m : ℕ}

theorem OnGrid.climbs (dsType : String) (h : OnGrid step (first :: rest)) :
    Climbs RRDData.timestamp step first.timestamp
      (cachedPoints dsType step (first :: rest)) := by
  have hsub := timestamps_cachedPoints_sublist dsType step (first :: rest)
  exact climbs_of_increasing (h.aligned first List.mem_cons_self)
    (h.increasing.sublist hsub) (fun x hx => h.dvd (hsub.subset hx))
    (fun x hx => h.first_le (hsub.subset hx))

theorem cut_walk_eq (hstep : 0 < step) {a : Int} {points : List (RRDData F)}
    (h : Climbs RRDData.timestamp step a points) :
    cutReply startTs endTs (walk RRDData.timestamp missingPoint step m a points) =
      ((ticks a step m).filter fun t => startTs ≤ t ∧ t ≤ endTs).map
        fun t => ⟨t, valueAt points t⟩ := by
  rw [walk_of_climbs hstep h, cutReply, List.filter_map]
  simp only [find?_getD_eq]
  rfl

omit [Float64 F] in
theorem OnGrid.exists_steps (hstep : 0 < step) (h : OnGrid step (first :: rest))
    {last : GraphItem F} (hlast : (first :: rest).getLast? = some last) :
    ∃ q : ℕ, last.timestamp = first.timestamp + q * step ∧
      q ≤ (last.timestamp - first.timestamp).toNat := by
  have hmem : last.timestamp ∈ (first :: rest).map GraphItem.timestamp :=
    List.mem_map_of_mem (List.mem_of_getLast? hlast)
  have hfirst : step ∣ first.timestamp := h.aligned first List.mem_cons_self
  obtain ⟨q, hq⟩ := exists_eq_add_mul_of_dvd hstep (h.first_le hmem) (dvd_sub (h.dvd hmem) hfirst)
  have hle : (q : Int) * 1 ≤ q * step := mul_le_mul_of_nonneg_left (by omega) (by omega)
  exact ⟨q, hq, by omega⟩

theorem OnGrid.mem_ticks (hstep : 0 < step) (h : OnGrid step (first :: rest)) {d : RRDData F}
    (hd : d ∈ cachedPoints dsType step (first :: rest))
    (hlt : d.timestamp < first.timestamp + m * step) :
    d.timestamp ∈ ticks first.timestamp step m := by
  have hfirst : step ∣ first.timestamp := h.aligned first List.mem_cons_self
  have hts := (timestamps_cachedPoints_sublist dsType step (first :: rest)).subset
    (List.mem_map_of_mem hd)
  exact mem_ticks_of_dvd hstep (h.first_le hts) (dvd_sub (h.dvd hts) hfirst) hlt

/-- The cache before the window is cut out of it: the values at the steps from the
first item on, and no cached point is beyond them. -/
theorem fillCache_eq_filter (startTs endTs : Int) (hstep : 0 < step)
    (h : OnGrid step (first :: rest)) (hds : dsType = GAUGE ∨ dsType = COUNTER ∨ dsType = DERIVE) :
    ∃ m, fillCache dsType step startTs endTs (first :: rest) =
        ((ticks first.timestamp step m).filter fun t => startTs ≤ t ∧ t ≤ endTs).map
          (fun t => ⟨t, valueAt (cachedPoints dsType step (first :: rest)) t⟩) ∧
      ∀ d ∈ cachedPoints dsType step (first :: rest),
        d.timestamp ∈ ticks first.timestamp step m := by
  obtain ⟨last, hlast⟩ : ∃ last, (first :: rest).getLast? = some last :=
    ⟨_, List.getLast?_eq_some_getLast (List.cons_ne_nil first rest)⟩
  obtain ⟨q, hq, hrounds⟩ := h.exists_steps hstep hlast
  rcases eq_or_ne dsType GAUGE with hgauge | hcounter
  · have hpoints : cachedPoints dsType step (first :: rest) = (first :: rest).map itemPoint :=
      if_pos hgauge
    refine ⟨q + 1, ?_, fun d hd => h.mem_ticks hstep hd ?_⟩
    · rw [fillCache, List.head?_cons, hlast, ← cut_walk_eq hstep (h.climbs dsType), hpoints]
      simp only
      rw [if_neg (by rw [hgauge]; decide), if_pos hgauge,
        fill_eq_cut_walk reads_gaugeValue (Nat.succ_le_succ hrounds)]
      · intro i hi
        have hle : (i : Int) * step ≤ q * step :=
          mul_le_mul_of_nonneg_right (by omega) hstep.le
        exact decide_eq_true (by omega)
      · refine decide_eq_false ?_
        push_cast [add_mul]
        omega
    · rw [hpoints, List.mem_map] at hd
      obtain ⟨item, hitem, rfl⟩ := hd
      have hle : (itemPoint item).timestamp ≤ last.timestamp :=
        h.le_last hlast (List.mem_map_of_mem hitem)
      push_cast [add_mul]
      omega
  · have hpoints : cachedPoints dsType step (first :: rest) = ratePoints step (first :: rest) :=
      if_neg hcounter
    refine ⟨q, ?_, fun d hd => h.mem_ticks hstep hd ?_⟩
    · rw [fillCache, List.head?_cons, hlast, ← cut_walk_eq hstep (h.climbs dsType), hpoints]
      simp only
      rw [if_pos (by tauto),
        fill_eq_cut_walk (reads_counterValue step) (Nat.le_succ_of_le hrounds)]
      · intro i hi
        have hlt : (i : Int) * step < q * step :=
          mul_lt_mul_of_pos_right (by omega) hstep
        exact decide_eq_true (by omega)
      · exact decide_eq_false (by omega)
    · rw [hpoints] at hd
      have hts := List.mem_map_of_mem (f := RRDData.timestamp) hd
      rw [timestamps_ratePoints] at hts
      rw [← hq]
      exact h.lt_last hlast hts

/-- **The cache has one point per step**, from the later of the first item and the
start of the window on, and holds every cached point of the window. -/
theorem fillCache_eq_map_ticks (endTs : Int) (hstep : 0 < step) (h : OnGrid step (first :: rest))
    (hds : dsType = GAUGE ∨ dsType = COUNTER ∨ dsType = DERIVE) (hstart : step ∣ startTs) :
    ∃ m, fillCache dsType step startTs endTs (first :: rest) =
        (ticks (max first.timestamp startTs) step m).map
          (fun t => ⟨t, valueAt (cachedPoints dsType step (first :: rest)) t⟩) ∧
      (∀ t ∈ ticks (max first.timestamp startTs) step m, startTs ≤ t ∧ t ≤ endTs) ∧
      ∀ d ∈ cachedPoints dsType step (first :: rest), startTs ≤ d.timestamp →
        d.timestamp ≤ endTs → d.timestamp ∈ ticks (max first.timestamp startTs) step m := by
  obtain ⟨n, hcache, hin⟩ := fillCache_eq_filter startTs endTs hstep h hds
  have hfirst : step ∣ first.timestamp := h.aligned first List.mem_cons_self
  obtain ⟨m, hm⟩ := @exists_ticks_filter step startTs endTs hstep n first.timestamp
    (dvd_sub hstart hfirst)
  rw [hm] at hcache
  refine ⟨m, hcache, ?_, ?_⟩
  · intro t ht
    rw [← hm, List.mem_filter] at ht
    simpa using ht.2
  · intro d hd hlo hhi
    rw [← hm, List.mem_filter]
    exact ⟨hin d hd, by simpa using ⟨hlo, hhi⟩⟩

end

/-! ## The merge -/

/-- Points put over other points by position; a `NaN` leaves the point below it. -/
def overlay : List (RRDData F) → List (RRDData F) → List (RRDData F)
  | [], _ => []
  | ds, [] => ds
  | d :: ds, c :: cs => (if Float64.isNaN c.value then d else c) :: overlay ds cs

@[simp] theorem overlay_nil_left (cs : List (RRDData F)) : overlay [] cs = [] := by
  rw [overlay]

@[simp] theorem overlay_nil_right (ds : List (RRDData F)) : overlay ds [] = ds := by
  cases ds <;> rw [overlay]
  exact List.cons_ne_nil _ _

theorem overlay_cons_cons (d c : RRDData F) (ds cs : List (RRDData F)) :
    overlay (d :: ds) (c :: cs) =
      (if Float64.isNaN c.value then d else c) :: overlay ds cs := by
  rw [overlay]

@[simp] theorem length_overlay (ds cs : List (RRDData F)) : (overlay ds cs).length = ds.length := by
  induction ds generalizing cs with
  | nil => simp
  | cons d ds ih =>
    cases cs with
    | nil => simp
    | cons c cs => rw [overlay_cons_cons, List.length_cons, List.length_cons, ih]

/-- The points appended to fill the gap between the reply and the cache. -/
def gapPoints (step ts : Int) (old : List (RRDData F)) : List (RRDData F) :=
  match old.getLast? with
  | none => []
  | some d => fixMissing step ts (ts - d.timestamp).toNat (d.timestamp + step)

theorem mergeCache_of_size_le {rrdDataSize rrdDataIdx : ℕ} (h : rrdDataSize ≤ rrdDataIdx)
    (merged cache : List (RRDData F)) :
    mergeCache rrdDataSize rrdDataIdx merged cache = merged ++ cache := by
  induction cache generalizing rrdDataIdx merged with
  | nil => rw [mergeCache, List.append_nil]
  | cons c cache ih =>
    rw [mergeCache, if_neg (Nat.not_lt.mpr h), ih (Nat.le_succ_of_le h), List.append_assoc,
      List.singleton_append]

theorem mergeCache_eq (old young gap cache : List (RRDData F)) :
    mergeCache (old.length + young.length) old.length (old ++ young ++ gap) cache =
      old ++ overlay young cache ++ gap ++ cache.drop young.length := by
  induction cache generalizing old young with
  | nil => rw [mergeCache, overlay_nil_right, List.drop_nil, List.append_nil]
  | cons c cache ih =>
    cases young with
    | nil =>
      rw [mergeCache_of_size_le (by simp)]
      simp
    | cons d young =>
      have hset : (if Float64.isNaN c.value then old ++ d :: young ++ gap
          else (old ++ d :: young ++ gap).set old.length c) =
          (old ++ [if Float64.isNaN c.value then d else c]) ++ young ++ gap := by
        split_ifs <;> simp
      have hstep := ih (old ++ [if Float64.isNaN c.value then d else c]) young
      rw [List.length_append, List.length_singleton] at hstep
      rw [mergeCache, if_pos (by simp), hset, List.length_cons,
        show old.length + (young.length + 1) = old.length + 1 + young.length by omega, hstep,
        overlay_cons_cons, List.drop_succ_cons]
      simp

omit [Float64 F] in
theorem findJunction_eq {ts : Int} (hold : ∀ d ∈ old, d.timestamp < ts)
    (hyoung : ∀ d ∈ young, ts ≤ d.timestamp) (hn : n ≤ young.length) :
    findJunction (old ++ young) ts (old.length + n) = old.length := by
  induction n with
  | zero =>
    rcases List.eq_nil_or_concat old with rfl | ⟨init, d, rfl⟩
    · rfl
    · have hd : (init ++ [d] ++ young)[init.length]? = some d := by simp
      rw [List.concat_eq_append, List.length_append, List.length_singleton, Nat.add_zero,
        findJunction, hd]
      exact if_pos (hold d (by simp))
  | succ n ih =>
    have hlt : n < young.length := by omega
    have hget : (old ++ young)[old.length + n]? = some (young[n]) := by
      rw [List.getElem?_append_right (by omega)]
      simp [hlt]
    rw [← Nat.add_assoc, findJunction, hget]
    have hnot : ¬ (young[n]).timestamp < ts := by
      have hle := hyoung _ (List.getElem_mem hlt)
      omega
    exact (if_neg hnot).trans (ih (by omega))

/-- **What the merge leaves**: the older points of the reply, the younger ones with the
cache over them, the points meant for the gap before the cache, and the rest of the
cache. -/
theorem merge_eq (step : Int) {cs : List (RRDData F)} {c : RRDData F}
    (hold : ∀ d ∈ old, d.timestamp < c.timestamp) (hyoung : ∀ d ∈ young, c.timestamp ≤ d.timestamp)
    :
    merge step (old ++ young) (c :: cs) =
      old ++ overlay young (c :: cs) ++ gapPoints step c.timestamp old ++
        (c :: cs).drop young.length := by
  have hjunction : findJunction (old ++ young) c.timestamp (old.length + young.length) =
      old.length := findJunction_eq hold hyoung le_rfl
  rw [← mergeCache_eq, merge]
  simp only [List.length_append, hjunction]
  congr 2
  rcases List.eq_nil_or_concat old with rfl | ⟨init, d, rfl⟩
  · simp [gapPoints, fixMissing]
  · simp [gapPoints]

/-! ## The query -/

omit [Float64 F] in
/-- The times of an archive: evenly spaced, the first one spacing after its start. -/
theorem timestamp_of_fetch {res : FetchResult F} {i : ℕ} {d : RRDData F}
    (h : (fetch (some res))[i]? = some d) : d.timestamp = res.start + (i + 1) * res.step := by
  rw [fetch, List.getElem?_mapIdx, Option.map_eq_some_iff] at h
  obtain ⟨val, -, rfl⟩ := h
  rfl

/-- A query that merges: the range is not empty, the archive with a point per step
covers it, and there are cached items. -/
theorem values_query {step : Int}
    (htype : env.getTypeAndStep param.endpoint param.counter = some (dsType, step))
    (hrange : 1 ≤ alignEnd param.end_ step - alignStart param.start step - step)
    (hrecent : rra1StartTs env.now step ≤ alignStart param.start step)
    (hitems : env.items param dsType step ≠ []) :
    (query env param).values =
      fmtResult dsType step (alignStart param.start step) (alignEnd param.end_ step)
        (merge step
          (cutReply (alignStart param.start step) (alignEnd param.end_ step)
            (env.reply param dsType step))
          (fillCache dsType step (alignStart param.start step) (alignEnd param.end_ step)
            (env.items param dsType step))) := by
  have hlen : ¬ (env.items param dsType step).length < 1 := by
    have hpos := List.length_pos_iff.mpr hitems
    omega
  rw [query, htype]
  simp only
  rw [if_neg (by omega), if_neg (not_or.mpr ⟨not_lt.mpr hrecent, hlen⟩)]

/-- A query for an empty range has an empty response. -/
theorem values_query_of_empty_range {step : Int}
    (htype : env.getTypeAndStep param.endpoint param.counter = some (dsType, step))
    (hrange : alignEnd param.end_ step - alignStart param.start step - step < 1) :
    (query env param).values = [] := by
  rw [query, htype]
  simp only
  rw [if_pos hrange]

end OpenFalcon.Graph
