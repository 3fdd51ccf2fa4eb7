import OpenFalcon.Graph.QueryExact

/-!
# A coarse reply loses cached points

Only the `AVERAGE` archive has a point per step.  The `MAX` and `MIN` archives begin at
five steps, so a query for a maximum is answered with points several steps apart ---
and the merge still puts the cached points over them by position.

Here the merge is read without the assumption that positions are times.  A `Layout`
holds what the merge works on: the points of the reply before the first cached point,
those from there on, and the cached value at each time.  Slot `i` of the cache is the
time `i` steps after its first point; a younger point of the reply *stands* in its slot
when no cached number is put over it.  The response then shows a slot exactly when the
walk `Reaches` it, and what it takes to reach a slot is three conditions on the layout:

* the older points of the reply are on the grid of the response,
* a point of the reply that stands before a cached one is at the time of its slot,
* the points that fill the gap before the cache do not come after younger points.

With `itemPoint_mem_fmtResult_iff` this decides for every cached item whether the response
shows it.
-/

namespace OpenFalcon.Graph

open Numeric Order

variable {F : Type} [Float64 F]

/-- The reply and the cache of a window. -/
structure Layout (F : Type) where
  startTs : Int
  step : Int
  /-- The time of the first cached point. -/
  cacheTs : Int
  /-- The points of the reply before the cache. -/
  older : List (RRDData F)
  /-- The points of the reply from the first cached point on. -/
  younger : List (RRDData F)
  /-- The cached value at a time, `NaN` if there is none. -/
  cached : Int → F

/-- The layout of a window over a cache of gauges and a reply. -/
def layout (step startTs endTs : Int) (items : List (GraphItem F)) (datas : List (RRDData F)) :
    Layout F :=
  let cacheTs := max ((items.head?.map GraphItem.timestamp).getD startTs) startTs
  { startTs := startTs
    step := step
    cacheTs := cacheTs
    older := (cutReply startTs endTs datas).filter fun d => d.timestamp < cacheTs
    younger := (cutReply startTs endTs datas).filter fun d => cacheTs ≤ d.timestamp
    cached := valueAt (items.map itemPoint) }

namespace Layout

variable (L : Layout F)

/-- The time of a slot of the cache. -/
def slotTs (i : ℕ) : Int := L.cacheTs + i * L.step

/-- A point of the reply stands in slot `i`: no cached number is put over it. -/
def Stands (i : ℕ) (d : RRDData F) : Prop :=
  L.younger[i]? = some d ∧ Float64.isNaN (L.cached (L.slotTs i)) = true

/-- The walk along the grid reaches slot `i`. -/
structure Reaches (i : ℕ) : Prop where
  aligned : ∀ d ∈ L.older.head?, L.step ∣ d.timestamp - L.startTs
  inStep : ∀ j < i, ∀ d, L.Stands j d → (¬ ∃ e, L.Stands (j + 1) e) → d.timestamp = L.slotTs j
  noGap : i < L.younger.length ∨ L.younger = [] ∨
    ∀ d ∈ L.older.getLast?, L.cacheTs ≤ d.timestamp + L.step

/-- The response shows a cached item: its slot is reached, or a point of the reply that
stands in a slot that is reached happens to be equal to it.  An item without a number
is shown unless a number of the reply is shown at its time. -/
def Keeps (item : GraphItem F) : Prop :=
  if Float64.isNaN item.value then
    ∀ j d, L.Stands j d → L.Reaches j → d.timestamp = item.timestamp →
      Float64.isNaN d.value = true
  else
    (∃ i, item.timestamp = L.slotTs i ∧ L.Reaches i) ∨
      ∃ j, L.Stands j (itemPoint item) ∧ L.Reaches j

/-- What the merge needs of its two sources: the cache begins on the grid, and the
points of the reply are whole numbers of steps apart. -/
structure Fits : Prop where
  step_pos : 0 < L.step
  start_le : L.startTs ≤ L.cacheTs
  start_dvd : L.step ∣ L.cacheTs - L.startTs
  older_spaced : Spaced RRDData.timestamp L.step L.older
  younger_spaced : Spaced RRDData.timestamp L.step L.younger
  older_bounds : ∀ d ∈ L.older, L.startTs ≤ d.timestamp ∧ d.timestamp < L.cacheTs
  younger_le : ∀ d ∈ L.younger, L.cacheTs ≤ d.timestamp

/-- The cache, with `m` points. -/
def cache (m : ℕ) : List (RRDData F) :=
  (ticks L.cacheTs L.step m).map fun t => ⟨t, L.cached t⟩

/-- The slots: the cache over the younger points of the reply. -/
def slots (m : ℕ) : List (RRDData F) :=
  overlay L.younger (L.cache m) ++ (L.cache m).drop L.younger.length

/-! ## Slots -/

variable {L} {m : ℕ}
variable {i : ℕ}
variable {d : RRDData F}
variable {x : RRDData F} {j : ℕ}

omit [Float64 F] in
theorem slotTs_succ (i : ℕ) : L.slotTs (i + 1) = L.slotTs i + L.step := by
  rw [slotTs, slotTs]
  push_cast
  ring

omit [Float64 F] in
theorem slotTs_le_slotTs (h : L.Fits) : L.slotTs i ≤ L.slotTs j ↔ i ≤ j := by
  rw [slotTs, slotTs, add_le_add_iff_left, mul_le_mul_iff_of_pos_right h.step_pos, Nat.cast_le]

omit [Float64 F] in
theorem slotTs_inj (h : L.Fits) (hij : L.slotTs i = L.slotTs j) : i = j :=
  Nat.le_antisymm ((slotTs_le_slotTs h).mp hij.le) ((slotTs_le_slotTs h).mp hij.ge)

omit [Float64 F] in
theorem getElem?_cache (hi : i < m) :
    (L.cache m)[i]? = some ⟨L.slotTs i, L.cached (L.slotTs i)⟩ := by
  rw [cache, List.getElem?_map, getElem?_ticks _ _ hi]
  rfl

theorem getElem?_slots (i : ℕ) :
    (L.slots m)[i]? =
      match L.younger[i]?, (L.cache m)[i]? with
      | some d, some c => some (if Float64.isNaN c.value then d else c)
      | some d, none => some d
      | none, c => c := by
  rw [slots]
  generalize L.younger = ds
  generalize L.cache m = cs
  induction ds generalizing cs i with
  | nil => simp
  | cons d ds ih =>
    cases cs with
    | nil =>
      rw [overlay_nil_right, List.drop_nil, List.append_nil]
      cases (d :: ds)[i]? <;> rfl
    | cons c cs =>
      rw [overlay_cons_cons, List.length_cons, List.drop_succ_cons, List.cons_append]
      cases i with
      | zero => rfl
      | succ i => simpa using ih i cs

theorem getElem?_slots_of_stands (hi : i < m) (h : L.Stands i d) : (L.slots m)[i]? = some d := by
  rw [getElem?_slots, h.1, getElem?_cache hi]
  exact congrArg some (if_pos h.2)

theorem getElem?_slots_of_not_stands (hi : i < m) (h : ¬ ∃ d, L.Stands i d) :
    (L.slots m)[i]? = some ⟨L.slotTs i, L.cached (L.slotTs i)⟩ := by
  rw [getElem?_slots, getElem?_cache hi]
  cases hd : L.younger[i]? with
  | none => rfl
  | some d =>
    have hnum : ¬ Float64.isNaN (L.cached (L.slotTs i)) = true := fun hnan => h ⟨d, hd, hnan⟩
    exact congrArg some (if_neg hnum)

/-- A slot is at its own time or, if a point of the reply stands in it, later. -/
theorem Fits.slotTs_le (h : L.Fits) {e : RRDData F} (he : (L.slots m)[i]? = some e) :
    L.slotTs i ≤ e.timestamp := by
  have hyounger : ∀ d, L.younger[i]? = some d → L.slotTs i ≤ d.timestamp :=
    fun d hd => h.younger_spaced.le_time h.younger_le hd
  by_cases hi : i < m
  · by_cases hstands : ∃ d, L.Stands i d
    · obtain ⟨d, hd⟩ := hstands
      rw [getElem?_slots_of_stands hi hd, Option.some_inj] at he
      exact he ▸ hyounger d hd.1
    · rw [getElem?_slots_of_not_stands hi hstands, Option.some_inj] at he
      rw [← he]
  · have hnone : (L.cache m)[i]? = none := by
      rw [cache, List.getElem?_eq_none_iff, List.length_map, length_ticks]
      omega
    rw [getElem?_slots, hnone] at he
    cases hd : L.younger[i]? with
    | none => simp [hd] at he
    | some d =>
      rw [hd] at he
      exact Option.some_inj.mp he ▸ hyounger d hd

/-! ## The walk over the slots -/

theorem exists_getElem?_slots (hi : i < m) : ∃ e, (L.slots m)[i]? = some e := by
  by_cases hstands : ∃ d, L.Stands i d
  · obtain ⟨d, hd⟩ := hstands
    exact ⟨d, getElem?_slots_of_stands hi hd⟩
  · exact ⟨_, getElem?_slots_of_not_stands hi hstands⟩

omit [Float64 F] in
theorem dvd_slotTs (i : ℕ) : L.step ∣ L.slotTs i - L.cacheTs := by
  rw [slotTs, add_sub_cancel_left]
  exact Dvd.intro_left _ rfl

/-- One slot to the next: from a slot whose points are in step up to it, the walk goes on
when the next slot is on the grid. -/
theorem Fits.slot_lt_next (h : L.Fits) {e e' : RRDData F} (hi : i + 1 < m)
    (he : (L.slots m)[i]? = some e) (he' : (L.slots m)[i + 1]? = some e')
    (hgrid : L.step ∣ e'.timestamp - L.cacheTs)
    (hstep : ∀ d, L.Stands i d → (¬ ∃ d', L.Stands (i + 1) d') → d.timestamp = L.slotTs i) :
    L.step ∣ e.timestamp - L.cacheTs ∧ e.timestamp + L.step ≤ e'.timestamp := by
  have hle' : L.slotTs (i + 1) ≤ e'.timestamp := h.slotTs_le he'
  rw [slotTs_succ] at hle'
  by_cases hstands : ∃ d, L.Stands i d
  · obtain ⟨d, hd⟩ := hstands
    rw [getElem?_slots_of_stands (by omega) hd, Option.some_inj] at he
    subst he
    by_cases hnext : ∃ d', L.Stands (i + 1) d'
    · obtain ⟨d', hd'⟩ := hnext
      rw [getElem?_slots_of_stands hi hd', Option.some_inj] at he'
      subst he'
      obtain ⟨hlt, hdvd⟩ : d.timestamp + L.step ≤ d'.timestamp ∧
          L.step ∣ d'.timestamp - d.timestamp := by
        obtain ⟨hlen, rfl⟩ := List.getElem?_eq_some_iff.mp hd.1
        obtain ⟨hlen', rfl⟩ := List.getElem?_eq_some_iff.mp hd'.1
        exact List.pairwise_iff_getElem.mp h.younger_spaced i (i + 1) hlen hlen' (by omega)
      refine ⟨?_, hlt⟩
      rw [show d.timestamp - L.cacheTs =
        (d'.timestamp - L.cacheTs) - (d'.timestamp - d.timestamp) by ring]
      exact dvd_sub hgrid hdvd
    · rw [hstep d hd hnext]
      exact ⟨dvd_slotTs i, hle'⟩
  · rw [getElem?_slots_of_not_stands (by omega) hstands, Option.some_inj] at he
    subst he
    exact ⟨dvd_slotTs i, hle'⟩

/-- **The slots climb up to slot `i`** exactly when the points of the reply that stand
before a cached point are in step. -/
theorem Fits.climbs_slots (h : L.Fits) {t : Int} (ht : t ≤ L.cacheTs)
    (htdvd : L.step ∣ L.cacheTs - t) (hi : i < m) {e : RRDData F} (he : (L.slots m)[i]? = some e)
    (hgrid : L.step ∣ e.timestamp - L.cacheTs) :
    Climbs RRDData.timestamp L.step t ((L.slots m).take (i + 1)) ↔
      ∀ j < i, ∀ d, L.Stands j d → (¬ ∃ d', L.Stands (j + 1) d') →
        d.timestamp = L.slotTs j := by
  induction i generalizing e with
  | zero =>
    have hle : L.slotTs 0 ≤ e.timestamp := h.slotTs_le he
    have hdvd : L.step ∣ e.timestamp - t := by
      rw [show e.timestamp - t = (e.timestamp - L.cacheTs) + (L.cacheTs - t) by ring]
      exact dvd_add hgrid htdvd
    simp only [slotTs, Nat.cast_zero, zero_mul, add_zero] at hle
    rw [List.take_add_one, he, climbs_append]
    simp only [List.take_zero, Option.toList_some, Climbs, nextTick, hdvd, true_and, and_true,
      Nat.not_lt_zero, false_imp_iff, implies_true, iff_true]
    omega
  | succ i ih =>
    obtain ⟨b, hb⟩ := exists_getElem?_slots (L := L) (show i < m by omega)
    have hnext : nextTick RRDData.timestamp L.step t ((L.slots m).take (i + 1)) =
        b.timestamp + L.step := by
      rw [List.take_add_one, hb, Option.toList_some, nextTick_concat]
    rw [List.take_add_one, he, Option.toList_some, climbs_concat, hnext]
    constructor
    · rintro ⟨hclimb, hle, hdvd⟩
      have hbgrid : L.step ∣ b.timestamp - L.cacheTs := by
        rw [show b.timestamp - L.cacheTs = (e.timestamp - L.cacheTs) -
          (e.timestamp - (b.timestamp + L.step)) - L.step by ring]
        exact dvd_sub (dvd_sub hgrid hdvd) (dvd_refl _)
      intro j hj d hd hnot
      rcases Nat.lt_succ_iff_lt_or_eq.mp hj with hj | rfl
      · exact (ih (by omega) hb hbgrid).mp hclimb j hj d hd hnot
      · rw [getElem?_slots_of_stands (by omega) hd, Option.some_inj] at hb
        rw [getElem?_slots_of_not_stands hi hnot, Option.some_inj] at he
        subst hb he
        have hlow : L.slotTs j ≤ d.timestamp := h.younger_spaced.le_time h.younger_le hd.1
        simp only [slotTs_succ] at hle
        omega
    · intro hstep
      obtain ⟨hbgrid, hlt⟩ := h.slot_lt_next hi hb he hgrid (hstep i (Nat.lt_succ_self i))
      refine ⟨(ih (by omega) hb hbgrid).mpr fun j hj => hstep j (by omega), hlt, ?_⟩
      rw [show e.timestamp - (b.timestamp + L.step) = (e.timestamp - L.cacheTs) -
        (b.timestamp - L.cacheTs) - L.step by ring]
      exact dvd_sub (dvd_sub hgrid hbgrid) (dvd_refl _)

/-! ## The walk before the slots -/

omit [Float64 F] in
theorem Fits.climbs_older (h : L.Fits) :
    Climbs RRDData.timestamp L.step L.startTs L.older ↔
      ∀ d ∈ L.older.head?, L.step ∣ d.timestamp - L.startTs := by
  rw [h.older_spaced.climbs_iff]
  refine forall₂_congr fun d hd => ?_
  exact and_iff_right (h.older_bounds d (List.mem_of_head? hd)).1

omit [Float64 F] in
/-- After older points on the grid the next tick is that of the cache or an earlier one. -/
theorem Fits.nextTick_older (h : L.Fits)
    (hclimb : Climbs RRDData.timestamp L.step L.startTs L.older) :
    nextTick RRDData.timestamp L.step L.startTs L.older ≤ L.cacheTs ∧
      L.step ∣ L.cacheTs - nextTick RRDData.timestamp L.step L.startTs L.older := by
  refine ⟨hclimb.nextTick_le h.start_le h.start_dvd fun d hd => (h.older_bounds d hd).2, ?_⟩
  rw [show L.cacheTs - nextTick RRDData.timestamp L.step L.startTs L.older =
    (L.cacheTs - L.startTs) -
      (nextTick RRDData.timestamp L.step L.startTs L.older - L.startTs) by ring]
  exact dvd_sub h.start_dvd hclimb.dvd_nextTick

theorem Fits.climbs_older_slots (h : L.Fits) (hi : i < m) {e : RRDData F}
    (he : (L.slots m)[i]? = some e) (hgrid : L.step ∣ e.timestamp - L.cacheTs) :
    Climbs RRDData.timestamp L.step L.startTs (L.older ++ (L.slots m).take (i + 1)) ↔
      (∀ d ∈ L.older.head?, L.step ∣ d.timestamp - L.startTs) ∧
      ∀ j < i, ∀ d, L.Stands j d → (¬ ∃ d', L.Stands (j + 1) d') →
        d.timestamp = L.slotTs j := by
  rw [climbs_append, ← h.climbs_older]
  refine and_congr_right fun hclimb => ?_
  obtain ⟨hle, hdvd⟩ := h.nextTick_older hclimb
  exact h.climbs_slots hle hdvd hi he hgrid

/-! ## The points of the gap -/

theorem mem_gapPoints (h : d ∈ gapPoints L.step L.cacheTs L.older) :
    d.timestamp < L.cacheTs ∧ d.value = Float64.nan := by
  rw [gapPoints] at h
  split at h
  · exact absurd h List.not_mem_nil
  · exact mem_fixMissing h

theorem Fits.gapPoints_eq_nil_iff (h : L.Fits) :
    gapPoints L.step L.cacheTs L.older = [] ↔
      ∀ d ∈ L.older.getLast?, L.cacheTs ≤ d.timestamp + L.step := by
  cases hlast : L.older.getLast? with
  | none => simp [gapPoints, hlast]
  | some d =>
    have hlt := (h.older_bounds d (List.mem_of_getLast? hlast)).2
    obtain ⟨n, hn⟩ : ∃ n, (L.cacheTs - d.timestamp).toNat = n + 1 :=
      ⟨(L.cacheTs - d.timestamp).toNat - 1, by omega⟩
    rw [gapPoints, hlast]
    simp only [hn, Option.mem_some_iff, forall_eq', fixMissing]
    by_cases hgap : d.timestamp + L.step < L.cacheTs
    · simp [hgap]
    · simp only [if_neg hgap, true_iff]
      omega

/-- Behind older points on the grid the gap is filled on the grid, up to the cache. -/
theorem Fits.climbs_older_gap (h : L.Fits)
    (hclimb : Climbs RRDData.timestamp L.step L.startTs L.older) :
    Climbs RRDData.timestamp L.step L.startTs
        (L.older ++ gapPoints L.step L.cacheTs L.older) ∧
      nextTick RRDData.timestamp L.step L.startTs
        (L.older ++ gapPoints L.step L.cacheTs L.older) ≤ L.cacheTs := by
  have hall : ∀ d ∈ L.older ++ gapPoints L.step L.cacheTs L.older, d.timestamp < L.cacheTs := by
    intro d hd
    rcases List.mem_append.mp hd with hd | hd
    · exact (h.older_bounds d hd).2
    · exact (mem_gapPoints hd).1
  suffices hclimbs : Climbs RRDData.timestamp L.step L.startTs
      (L.older ++ gapPoints L.step L.cacheTs L.older) from
    ⟨hclimbs, hclimbs.nextTick_le h.start_le h.start_dvd hall⟩
  obtain ⟨hle, hdvd⟩ := h.nextTick_older hclimb
  rw [climbs_append]
  refine ⟨hclimb, ?_⟩
  rcases List.eq_nil_or_concat L.older with hnil | ⟨init, d, hsplit⟩
  · rw [hnil]
    trivial
  · rw [List.concat_eq_append] at hsplit
    rw [hsplit, nextTick_concat] at hle hdvd ⊢
    obtain ⟨q, hq⟩ := exists_eq_add_mul_of_dvd h.step_pos hle hdvd
    have hrounds : q ≤ (L.cacheTs - d.timestamp).toNat := by
      have hmul : (q : Int) * 1 ≤ q * L.step :=
        mul_le_mul_of_nonneg_left h.step_pos (by omega)
      have hpos := h.step_pos
      omega
    have hgap : gapPoints L.step L.cacheTs (init ++ [d]) =
        (ticks (d.timestamp + L.step) L.step q).map missingPoint := by
      rw [gapPoints, List.getLast?_concat]
      simp only
      rw [hq] at hrounds ⊢
      exact fixMissing_eq h.step_pos hrounds
    rw [hgap]
    refine climbs_of_ticks (n := q) ?_
    rw [List.map_map]
    exact List.map_id _

/-! ## The merged points -/

variable (L m) in
/-- The merged points, as the merge leaves them. -/
def merged : List (RRDData F) :=
  L.older ++ (overlay L.younger (L.cache m) ++
    (gapPoints L.step L.cacheTs L.older ++ (L.cache m).drop L.younger.length))

theorem take_merged_of_lt (hi : i < L.younger.length) :
    (L.merged m).take (L.older.length + (i + 1)) = L.older ++ (L.slots m).take (i + 1) := by
  have hlen : i + 1 ≤ (overlay L.younger (L.cache m)).length := by
    rw [length_overlay]
    exact hi
  rw [merged, slots, List.take_length_add_append, List.take_append_of_le_length hlen,
    List.take_append_of_le_length hlen]

variable (q : ℕ)

theorem take_merged_of_le :
    (L.merged m).take (L.older.length + (L.younger.length +
        ((gapPoints L.step L.cacheTs L.older).length + q))) =
      L.older ++ (overlay L.younger (L.cache m) ++ (gapPoints L.step L.cacheTs L.older ++
        ((L.cache m).drop L.younger.length).take q)) := by
  rw [merged, List.take_length_add_append, ← length_overlay L.younger (L.cache m),
    List.take_length_add_append, List.take_length_add_append, length_overlay]

theorem take_slots :
    (L.slots m).take (L.younger.length + q) =
      overlay L.younger (L.cache m) ++ ((L.cache m).drop L.younger.length).take q := by
  rw [slots, ← length_overlay L.younger (L.cache m), List.take_length_add_append,
    length_overlay]

/-- The points of the gap stop the walk when they come behind younger points. -/
theorem Fits.not_climbs_of_gap (h : L.Fits) (hyounger : L.younger ≠ [])
    (hgap : gapPoints L.step L.cacheTs L.older ≠ []) (rest : List (RRDData F)) :
    ¬ Climbs RRDData.timestamp L.step L.startTs
      (L.older ++ (overlay L.younger (L.cache m) ++
        (gapPoints L.step L.cacheTs L.older ++ rest))) := by
  intro hclimb
  obtain ⟨o, os, ho⟩ : ∃ o os, overlay L.younger (L.cache m) = o :: os := by
    refine List.exists_cons_of_ne_nil fun hnil => hyounger ?_
    rw [← List.length_eq_zero_iff, ← length_overlay L.younger (L.cache m), hnil, List.length_nil]
  obtain ⟨g, gs, hg⟩ := List.exists_cons_of_ne_nil hgap
  have hfirst : (L.slots m)[0]? = some o := by
    rw [slots, ho]
    rfl
  have hlow : L.slotTs 0 ≤ o.timestamp := h.slotTs_le hfirst
  have hhigh : g.timestamp < L.cacheTs := (mem_gapPoints (by rw [hg]; simp)).1
  rw [climbs_append, ho] at hclimb
  have hle : o.timestamp + L.step ≤ g.timestamp :=
    Climbs.le_time h.step_pos hclimb.2.2.2 (by simp [hg])
  have hpos := h.step_pos
  simp only [slotTs, Nat.cast_zero, zero_mul, add_zero] at hlow
  omega

/-- **The merged points climb up to a slot exactly when it is reached**, for a slot
behind the younger points of the reply. -/
theorem Fits.climbs_merged_of_le (h : L.Fits) {q : ℕ} (hi : L.younger.length + q < m) :
    Climbs RRDData.timestamp L.step L.startTs
        ((L.merged m).take (L.older.length + (L.younger.length +
          ((gapPoints L.step L.cacheTs L.older).length + (q + 1))))) ↔
      L.Reaches (L.younger.length + q) := by
  obtain ⟨e, he⟩ := exists_getElem?_slots (L := L) hi
  have hts : e.timestamp = L.slotTs (L.younger.length + q) := by
    have hnot : ¬ ∃ d, L.Stands (L.younger.length + q) d := by
      rintro ⟨d, hd, -⟩
      have hlt := (List.getElem?_eq_some_iff.mp hd).1
      omega
    rw [getElem?_slots_of_not_stands hi hnot, Option.some_inj] at he
    rw [← he]
  have hgrid : L.step ∣ e.timestamp - L.cacheTs := hts ▸ dvd_slotTs _
  rw [take_merged_of_le]
  by_cases hgap : gapPoints L.step L.cacheTs L.older = []
  · rw [hgap, List.nil_append, ← take_slots, ← Nat.add_assoc, h.climbs_older_slots hi he hgrid]
    refine ⟨fun ⟨ha, hs⟩ => ⟨ha, hs, Or.inr (Or.inr (h.gapPoints_eq_nil_iff.mp hgap))⟩,
      fun hr => ⟨hr.aligned, hr.inStep⟩⟩
  · by_cases hyounger : L.younger = []
    · have hslots : ((L.cache m).drop L.younger.length).take (q + 1) =
          (L.slots m).take (L.younger.length + (q + 1)) := by
        rw [take_slots, hyounger, overlay_nil_left, List.nil_append]
      rw [hslots, hyounger, overlay_nil_left, List.nil_append, ← hyounger, ← List.append_assoc,
        climbs_append, climbs_append, h.climbs_older]
      constructor
      · rintro ⟨⟨haligned, -⟩, -⟩
        refine ⟨haligned, fun j _ d hd => ?_, Or.inr (Or.inl hyounger)⟩
        rw [Stands, hyounger] at hd
        simp at hd
      · intro hr
        have holder := h.climbs_older.mpr hr.aligned
        obtain ⟨hclimb, hle⟩ := h.climbs_older_gap holder
        refine ⟨⟨hr.aligned, (climbs_append.mp hclimb).2⟩, ?_⟩
        refine (h.climbs_slots hle ?_ hi he hgrid).mpr hr.inStep
        rw [show L.cacheTs - nextTick RRDData.timestamp L.step L.startTs
          (L.older ++ gapPoints L.step L.cacheTs L.older) = (L.cacheTs - L.startTs) -
          (nextTick RRDData.timestamp L.step L.startTs
            (L.older ++ gapPoints L.step L.cacheTs L.older) - L.startTs) by ring]
        exact dvd_sub h.start_dvd hclimb.dvd_nextTick
    · constructor
      · intro hclimb
        exact absurd hclimb (h.not_climbs_of_gap hyounger hgap _)
      · intro hr
        rcases hr.noGap with hlt | hnil | hle
        · omega
        · exact absurd hnil hyounger
        · exact absurd (h.gapPoints_eq_nil_iff.mpr hle) hgap

/-- The same for a slot that has a younger point of the reply. -/
theorem Fits.climbs_merged_of_lt (h : L.Fits) (hi : i < m) (hlt : i < L.younger.length)
    {e : RRDData F} (he : (L.slots m)[i]? = some e) (hgrid : L.step ∣ e.timestamp - L.cacheTs) :
    Climbs RRDData.timestamp L.step L.startTs
        ((L.merged m).take (L.older.length + (i + 1))) ↔ L.Reaches i := by
  rw [take_merged_of_lt hlt, h.climbs_older_slots hi he hgrid]
  exact ⟨fun ⟨ha, hs⟩ => ⟨ha, hs, Or.inl hlt⟩, fun hr => ⟨hr.aligned, hr.inStep⟩⟩

theorem getElem?_merged_of_lt (hi : i < L.younger.length) :
    (L.merged m)[L.older.length + i]? = (L.slots m)[i]? := by
  have hlen : i < (overlay L.younger (L.cache m)).length := by
    rw [length_overlay]
    exact hi
  rw [merged, slots, List.getElem?_append_right (by omega), Nat.add_sub_cancel_left,
    List.getElem?_append_left hlen, List.getElem?_append_left hlen]

theorem getElem?_merged_of_le :
    (L.merged m)[L.older.length + (L.younger.length +
      ((gapPoints L.step L.cacheTs L.older).length + q))]? =
    (L.cache m)[L.younger.length + q]? := by
  rw [merged, List.getElem?_append_right (by omega), Nat.add_sub_cancel_left,
    List.getElem?_append_right (by rw [length_overlay]; omega), length_overlay,
    Nat.add_sub_cancel_left, List.getElem?_append_right (by omega), Nat.add_sub_cancel_left,
    List.getElem?_drop]

theorem merged_cases {p : ℕ} (hp : (L.merged m)[p]? = some x) :
    x ∈ L.older ∨ x ∈ gapPoints L.step L.cacheTs L.older ∨
      (∃ i < L.younger.length, p = L.older.length + i) ∨
      ∃ q, p = L.older.length + (L.younger.length +
        ((gapPoints L.step L.cacheTs L.older).length + q)) := by
  rw [merged] at hp
  by_cases hold : p < L.older.length
  · rw [List.getElem?_append_left hold] at hp
    exact Or.inl (List.mem_of_getElem? hp)
  rw [List.getElem?_append_right (by omega)] at hp
  by_cases hyoung : p - L.older.length < L.younger.length
  · exact Or.inr (Or.inr (Or.inl ⟨p - L.older.length, hyoung, by omega⟩))
  rw [List.getElem?_append_right (by rw [length_overlay]; omega), length_overlay] at hp
  by_cases hgap : p - L.older.length - L.younger.length <
      (gapPoints L.step L.cacheTs L.older).length
  · rw [List.getElem?_append_left hgap] at hp
    exact Or.inr (Or.inl (List.mem_of_getElem? hp))
  · exact Or.inr (Or.inr (Or.inr ⟨p - L.older.length - L.younger.length -
      (gapPoints L.step L.cacheTs L.older).length, by omega⟩))

/-- **What the walk over the merged points shows at a time of the cache**: the cached
number if its slot is reached, or a point of the reply that stands in a slot that is
reached. -/
theorem Fits.shown_iff (h : L.Fits) (hx : ¬ Float64.isNaN x.value = true) (hi : i < m)
    (hts : x.timestamp = L.slotTs i) :
    (∃ p, (L.merged m)[p]? = some x ∧
        Climbs RRDData.timestamp L.step L.startTs ((L.merged m).take (p + 1))) ↔
      (x.value = L.cached x.timestamp ∧ L.Reaches i) ∨ ∃ j, L.Stands j x ∧ L.Reaches j := by
  have hgrid : L.step ∣ x.timestamp - L.cacheTs := hts ▸ dvd_slotTs i
  constructor
  · rintro ⟨p, hp, hclimb⟩
    rcases merged_cases hp with hold | hgap | ⟨j, hj, rfl⟩ | ⟨q, rfl⟩
    · have hlt := (h.older_bounds x hold).2
      have hle : L.slotTs 0 ≤ L.slotTs i := (slotTs_le_slotTs h).mpr (Nat.zero_le i)
      simp only [slotTs, Nat.cast_zero, zero_mul, add_zero] at hle hts
      omega
    · exact absurd ((Float64.isNaN_iff _).mpr (mem_gapPoints hgap).2) hx
    · rw [getElem?_merged_of_lt hj] at hp
      have hji : j ≤ i := (slotTs_le_slotTs h).mp (hts ▸ h.slotTs_le hp)
      have hr : L.Reaches j := (h.climbs_merged_of_lt (by omega) hj hp hgrid).mp hclimb
      by_cases hstands : ∃ d, L.Stands j d
      · obtain ⟨d, hd⟩ := hstands
        rw [getElem?_slots_of_stands (by omega) hd, Option.some_inj] at hp
        exact Or.inr ⟨j, hp ▸ hd, hr⟩
      · rw [getElem?_slots_of_not_stands (by omega) hstands, Option.some_inj] at hp
        subst hp
        exact Or.inl ⟨rfl, slotTs_inj h hts ▸ hr⟩
    · rw [getElem?_merged_of_le] at hp
      have hlt : L.younger.length + q < m := by
        have hlen := (List.getElem?_eq_some_iff.mp hp).1
        rwa [cache, List.length_map, length_ticks] at hlen
      rw [getElem?_cache hlt, Option.some_inj] at hp
      subst hp
      exact Or.inl ⟨rfl, slotTs_inj h hts ▸ (h.climbs_merged_of_le hlt).mp hclimb⟩
  · rintro (⟨hval, hr⟩ | ⟨j, hj, hr⟩)
    · have hnot : ¬ ∃ d, L.Stands i d := by
        rintro ⟨d, -, hnan⟩
        rw [hval, hts] at hx
        exact hx hnan
      have hslot : (⟨L.slotTs i, L.cached (L.slotTs i)⟩ : RRDData F) = x := by
        rw [← hts, ← hval]
      by_cases hlt : i < L.younger.length
      · have hget : (L.slots m)[i]? = some x := by
          rw [getElem?_slots_of_not_stands hi hnot, hslot]
        exact ⟨L.older.length + i, (getElem?_merged_of_lt hlt).trans hget,
          (h.climbs_merged_of_lt hi hlt hget hgrid).mpr hr⟩
      · obtain ⟨q, rfl⟩ := Nat.exists_eq_add_of_le (Nat.le_of_not_lt hlt)
        refine ⟨_, (getElem?_merged_of_le q).trans ?_, (h.climbs_merged_of_le hi).mpr hr⟩
        rw [getElem?_cache hi, hslot]
    · have hji : j ≤ i :=
        (slotTs_le_slotTs h).mp (hts ▸ h.younger_spaced.le_time h.younger_le hj.1)
      have hlt : j < L.younger.length := (List.getElem?_eq_some_iff.mp hj.1).1
      have hget : (L.slots m)[j]? = some x := getElem?_slots_of_stands (by omega) hj
      exact ⟨L.older.length + j, (getElem?_merged_of_lt hlt).trans hget,
        (h.climbs_merged_of_lt (by omega) hlt hget hgrid).mpr hr⟩

/-- Nothing of a reply that ends before the cache stands in its way. -/
theorem keeps_of_younger_eq_nil {item : GraphItem F} (hyounger : L.younger = [])
    (haligned : ∀ d ∈ L.older.head?, L.step ∣ d.timestamp - L.startTs)
    (hslot : ∃ i, item.timestamp = L.slotTs i) : L.Keeps item := by
  have hstands : ∀ j d, ¬ L.Stands j d := by
    intro j d hd
    rw [Stands, hyounger] at hd
    simp at hd
  rw [Keeps]
  split_ifs with hnan
  · exact fun j d hd => absurd hd (hstands j d)
  · obtain ⟨i, hi⟩ := hslot
    exact Or.inl ⟨i, hi, haligned, fun j _ d hd => absurd hd (hstands j d),
      Or.inr (Or.inl hyounger)⟩

end Layout

/-! ## The layout of a query -/

section

variable {step startTs endTs : Int} {first item : GraphItem F} {rest : List (GraphItem F)}
  {datas : List (RRDData F)}

theorem fits_layout (endTs : Int) (hstep : 0 < step) (hstart : step ∣ startTs)
    (hitems : OnGrid step (first :: rest)) (hdatas : Spaced RRDData.timestamp step datas) :
    (layout step startTs endTs (first :: rest) datas).Fits where
  step_pos := hstep
  start_le := le_max_right _ _
  start_dvd := by
    show step ∣ max first.timestamp startTs - startTs
    rcases max_choice first.timestamp startTs with hmax | hmax
    · rw [hmax]
      exact dvd_sub (hitems.aligned first List.mem_cons_self) hstart
    · rw [hmax, sub_self]
      exact dvd_zero step
  older_spaced := List.Pairwise.filter _ (List.Pairwise.filter _ hdatas)
  younger_spaced := List.Pairwise.filter _ (List.Pairwise.filter _ hdatas)
  older_bounds d hd := by
    obtain ⟨hcut, hlt⟩ := List.mem_filter.mp hd
    have hin := (List.mem_filter.mp hcut).2
    simp only [decide_eq_true_eq] at hin hlt
    exact ⟨hin.1, hlt⟩
  younger_le d hd := of_decide_eq_true (List.mem_filter.mp hd).2

theorem valueAt_itemPoint (hstep : 0 < step) (hitems : OnGrid step (first :: rest))
    (hitem : item ∈ first :: rest) :
    valueAt ((first :: rest).map itemPoint) item.timestamp = item.value := by
  have hclimbs : Climbs RRDData.timestamp step first.timestamp
      ((first :: rest).map itemPoint) := hitems.climbs GAUGE
  have hfind := hclimbs.find?_eq hstep (List.mem_map_of_mem (f := itemPoint) hitem)
  rw [valueAt]
  exact congrArg (fun o => (o.map RRDData.value).getD Float64.nan) hfind

theorem lt_retSize (hstep : 0 < step) (hle : startTs ≤ endTs) {ts : Int} (hts : ts ≤ endTs) :
    ts < startTs + retSize GAUGE step startTs endTs * step := by
  have hquot : 0 ≤ (endTs - startTs).tdiv step := Int.tdiv_nonneg (by omega) hstep.le
  have hmod := Int.tmod_lt_of_pos (endTs - startTs) hstep
  have hsum := Int.mul_tdiv_add_tmod (endTs - startTs) step
  rw [retSize, if_pos rfl, Nat.cast_add, Int.toNat_of_nonneg hquot, Nat.cast_one, add_mul,
    one_mul, mul_comm]
  omega

/-- A missing point is shown at a tick when no number is. -/
theorem missing_mem_walk_iff (hstep : 0 < step) {n : ℕ} {ts : Int} {points : List (RRDData F)}
    (hts : ts ∈ ticks startTs step n) :
    ⟨ts, Float64.nan⟩ ∈ walk RRDData.timestamp missingPoint step n startTs points ↔
      ∀ w, ⟨ts, w⟩ ∈ walk RRDData.timestamp missingPoint step n startTs points →
        Float64.isNaN w = true := by
  have htimes : (walk RRDData.timestamp missingPoint step n startTs points).map
      RRDData.timestamp = ticks startTs step n :=
    map_time_walk missingPoint_timestamp n startTs points
  constructor
  · intro hmissing w hw
    have hnodup := nodup_ticks (a := startTs) hstep n
    rw [← htimes] at hnodup
    have heq : Float64.nan = w :=
      congrArg RRDData.value (List.inj_on_of_nodup_map hnodup hmissing hw rfl)
    rw [← heq]
    exact Float64.isNaN_nan
  · intro hall
    rw [← htimes, List.mem_map] at hts
    obtain ⟨d, hd, rfl⟩ := hts
    rw [← Float64.eq_nan_of_isNaN (hall d.value hd)]
    exact hd

variable {L : Layout F} (hL : layout step startTs endTs (first :: rest) datas = L)
  (hstep : 0 < step) (hstart : step ∣ startTs) (hitems : OnGrid step (first :: rest))
  (hdatas : Spaced RRDData.timestamp step datas)

include hL hstep hdatas in
theorem merge_eq_merged (hfits : L.Fits) (m : ℕ) :
    merge step (cutReply startTs endTs datas) (L.cache (m + 1)) = L.merged (m + 1) := by
  subst hL
  have hsplit : (layout step startTs endTs (first :: rest) datas).older ++
      (layout step startTs endTs (first :: rest) datas).younger = cutReply startTs endTs datas :=
    Spaced.filter_append hstep _ (List.Pairwise.filter _ hdatas)
  rw [← hsplit, Layout.cache, ticks_succ, List.map_cons,
    merge_eq step (fun d hd => (hfits.older_bounds d hd).2) hfits.younger_le,
    List.append_assoc, List.append_assoc]
  rfl

include hL hstep hstart hitems hdatas

/-- **What the response shows at the time of a cached item.** -/
theorem mem_fmtResult_iff (hitem : item ∈ first :: rest) (hlo : startTs ≤ item.timestamp)
    (hhi : item.timestamp ≤ endTs) {w : F} (hw : ¬ Float64.isNaN w = true) :
    ⟨item.timestamp, w⟩ ∈ fmtResult GAUGE step startTs endTs
        (merge step (cutReply startTs endTs datas)
          (fillCache GAUGE step startTs endTs (first :: rest))) ↔
      (w = item.value ∧ ∃ i, item.timestamp = L.slotTs i ∧ L.Reaches i) ∨
        ∃ j, L.Stands j ⟨item.timestamp, w⟩ ∧ L.Reaches j := by
  subst hL
  have hfits := fits_layout endTs hstep hstart hitems hdatas
  obtain ⟨m, hcache, -, hin⟩ := fillCache_eq_map_ticks endTs hstep hitems (Or.inl rfl) hstart
  obtain ⟨i, hi, hts⟩ := mem_ticks.mp
    (hin (itemPoint item) (List.mem_map_of_mem hitem) hlo hhi)
  obtain ⟨m, rfl⟩ : ∃ m', m = m' + 1 := ⟨m - 1, by omega⟩
  have hblank : ∀ u, (⟨item.timestamp, w⟩ : RRDData F) ≠ missingPoint u := by
    intro u hu
    refine hw ((Float64.isNaN_iff w).mpr ?_)
    exact congrArg RRDData.value hu
  rw [show fillCache GAUGE step startTs endTs (first :: rest) =
      (layout step startTs endTs (first :: rest) datas).cache (m + 1) from hcache,
    merge_eq_merged rfl hstep hdatas hfits, fmtResult, mem_walk_iff_getElem? hstep hblank]
  have hlt := lt_retSize hstep (hlo.trans hhi) hhi
  simp only [hlt, and_true]
  refine (hfits.shown_iff (x := ⟨item.timestamp, w⟩) hw hi hts).trans (or_congr_left ?_)
  have hcached : (layout step startTs endTs (first :: rest) datas).cached item.timestamp =
      item.value := valueAt_itemPoint hstep hitems hitem
  rw [hcached]
  refine and_congr_right fun _ => ⟨fun hr => ⟨i, hts, hr⟩, ?_⟩
  rintro ⟨i', hts', hr⟩
  exact Layout.slotTs_inj hfits (hts'.symm.trans hts) ▸ hr

/-- **The response shows a cached item exactly when the layout keeps it.** -/
theorem itemPoint_mem_fmtResult_iff (hitem : item ∈ first :: rest)
    (hlo : startTs ≤ item.timestamp) (hhi : item.timestamp ≤ endTs) :
    itemPoint item ∈ fmtResult GAUGE step startTs endTs
        (merge step (cutReply startTs endTs datas)
          (fillCache GAUGE step startTs endTs (first :: rest))) ↔ L.Keeps item := by
  have hnumber := fun {w : F} (hw : ¬ Float64.isNaN w = true) =>
    mem_fmtResult_iff hL hstep hstart hitems hdatas hitem hlo hhi hw
  rw [Layout.Keeps]
  split_ifs with hnan
  · have hvalue : item.value = Float64.nan := Float64.eq_nan_of_isNaN hnan
    rw [itemPoint, hvalue, fmtResult, missing_mem_walk_iff hstep, ← fmtResult]
    · constructor
      · intro hall j d hd hr hts
        by_contra hnum
        exact hnum (hall d.value ((hnumber hnum).mpr (Or.inr ⟨j, hts ▸ hd, hr⟩)))
      · intro hkeeps w hw
        by_contra hnum
        rcases (hnumber hnum).mp hw with ⟨hval, -⟩ | ⟨j, hd, hr⟩
        · exact hnum (hval ▸ hnan)
        · exact hnum (hkeeps j _ hd hr rfl)
    · exact mem_ticks_of_dvd hstep hlo (dvd_sub (hitems.aligned item hitem) hstart)
        (lt_retSize hstep (hlo.trans hhi) hhi)
  · rw [itemPoint, hnumber hnan]
    simp only [true_and]

end

/-! ## The query -/

omit [Float64 F] in
theorem apart_of_eq {step k : Int} (hstep : 0 < step) (hk : 1 ≤ k) {d e : RRDData F}
    (h : e.timestamp = d.timestamp + k * step) : Apart RRDData.timestamp step d e := by
  rw [Apart, h, add_sub_cancel_left]
  refine ⟨?_, Dvd.intro_left k rfl⟩
  have hle : 1 * step ≤ k * step := mul_le_mul_of_nonneg_right hk hstep.le
  omega

/-- A query for the maximum from 600 to `end_`. -/
def maximumQuery (end_ : Int) : GraphQueryParam := ⟨600, end_, "MAX", "host", "metric"⟩

/-- A gauge whose archive of maxima is five steps apart. -/
def maximumEnv (items : List (Int × ℚ)) (start : Int) (values : List QFloat) : QueryEnv QFloat :=
  seriesEnv GAUGE 60 2000 items ⟨start, 300, values⟩

/-- The cache of `query_loses_cached_points`: an item at every step from 720 to 1200. -/
def freshItems : List (Int × ℚ) :=
  [(720, 1), (780, 2), (840, 3), (900, 4), (960, 5), (1020, 6), (1080, 7), (1140, 8), (1200, 9)]

end OpenFalcon.Graph
