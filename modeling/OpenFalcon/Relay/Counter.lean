import OpenFalcon.Machine.Interleaving

/-!
# The counters of the Prometheus relay

`dealCounterMetric` of `modules/falcon2p8s/http/http.go`.  Every queued item of a counter gets a
worker of its own.  The worker looks for the collector of the metric and its label names, makes and
registers one if there is none, adds to the counter of its series the increase since the last value
of the series, and stores its own value as the last one.

Registering is safe: it happens under a lock and after a second look, so a metric gets one collector
in every interleaving (`registered_once`).  Adding is not: between the moment a worker reads the
last value and the moment it stores its own, another worker of the series may read the same last
value, and the increase since then is counted twice.  What keeps a counter exact is that the
workers of one series take turns, in the order of the queue (`counter_exact`).  Workers of other
series may do as they like.

Numbers are exact here: the values are elements of an ordered group.
-/

namespace OpenFalcon.Relay

open Machine

variable {S V : Type}

/-! ## The source -/

/-- The type of a metric. -/
inductive MetricType where
  | gauge
  | counter
  deriving DecidableEq

/-- A queued item of a counter: its series, `PKWithTagValue`, and its value.  All items here have
one metric and one set of label names, one `PK`. -/
structure Item (S V : Type) where
  series : S
  value : V

/-- What the workers share: the entry of the metric in `MetricTypeMap`, whether `CollectorMap` has
the collector, how many collectors were registered, who holds `counterMutex`, the counters of the
collector and the entries of `CounterCollectorValueMap`. -/
structure Shared (S V : Type) where
  metricType : Option MetricType
  stored : Bool
  collectors : ℕ
  holder : Option ℕ
  counter : S → V
  lastValue : S → Option V

/-- Where a worker stands, named by the step that it makes next. -/
inductive Point (V : Type) where
  /-- `MetricTypeMap.Load`. -/
  | loadType
  /-- `MetricTypeMap.Store`. -/
  | storeType
  /-- The first `CollectorMap.Load`. -/
  | load
  /-- `counterMutex.Lock`. -/
  | lock
  /-- The second `CollectorMap.Load`, and `Register` if it finds nothing. -/
  | loadAgain
  /-- `c.Add(p8sItem.Value)`. -/
  | addFirst
  /-- `CollectorMap.Store`. -/
  | storeCollector
  /-- `counterMutex.Unlock`; was the collector found by the second look? -/
  | unlock (found : Bool)
  /-- `CounterCollectorValueMap.Load`. -/
  | loadLast
  /-- `Add` of the increase since the last value. -/
  | add (last : Option V)
  /-- `CounterCollectorValueMap.Store`. -/
  | storeLast
  | done
  deriving DecidableEq

/-- A worker: its place in the queue, its item, and where it stands. -/
structure Worker (S V : Type) where
  id : ℕ
  item : Item S V
  point : Point V

/-- The worker goes on. -/
def Worker.goto (w : Worker S V) (point : Point V) : Worker S V := { w with point := point }

section

variable [DecidableEq S] [AddCommGroup V] [LinearOrder V]

/-- What is added to the counter: the increase since the last value, or the value itself if there is
no last one.  What is negative is not added. -/
def increase : Option V → V → V
  | none, v => if 0 ≤ v then v else 0
  | some lv, v => if 0 ≤ v - lv then v - lv else 0

/-- `Add` on the counter of a series. -/
def Shared.addTo (sh : Shared S V) (s : S) (v : V) : Shared S V :=
  { sh with counter := Function.update sh.counter s (sh.counter s + v) }

/-- The next atomic step of a worker. -/
def act (_ : Unit) (sh : Shared S V) (w : Worker S V) : Shared S V × Worker S V :=
  match w.point with
  | .loadType =>
    match sh.metricType with
    | none => (sh, w.goto .storeType)
    | some .counter => (sh, w.goto .load)
    | some .gauge => (sh, w.goto .done)
  | .storeType => ({ sh with metricType := some .counter }, w.goto .load)
  | .load => (sh, w.goto (if sh.stored then .loadLast else .lock))
  | .lock =>
    match sh.holder with
    | none => ({ sh with holder := some w.id }, w.goto .loadAgain)
    | some _ => (sh, w)
  | .loadAgain =>
    if sh.stored then (sh, w.goto (.unlock true))
    else ({ sh with collectors := sh.collectors + 1 },
      w.goto (if 0 ≤ w.item.value then .addFirst else .unlock false))
  | .addFirst => (sh.addTo w.item.series w.item.value, w.goto .storeCollector)
  | .storeCollector => ({ sh with stored := true }, w.goto (.unlock false))
  | .unlock found =>
    ({ sh with holder := none }, w.goto (if found then .loadLast else .storeLast))
  | .loadLast => (sh, w.goto (.add (sh.lastValue w.item.series)))
  | .add last => (sh.addTo w.item.series (increase last w.item.value), w.goto .storeLast)
  | .storeLast =>
    ({ sh with lastValue := Function.update sh.lastValue w.item.series (some w.item.value) },
      w.goto .done)
  | .done => (sh, w)

end

/-- The shared state when the process starts. -/
def Shared.start [Zero V] : Shared S V := ⟨none, false, 0, none, fun _ => 0, fun _ => none⟩

/-- The shared state and a worker for every item of the queue. -/
abbrev System (items : List (Item S V)) := Config (Fin items.length) (Shared S V) (Worker S V)

/-- The workers before their first steps. -/
def spawned [Zero V] (items : List (Item S V)) : System items where
  shared := Shared.start
  agent i := ⟨i, items.get i, .loadType⟩

/-! ## Registering -/

variable {items : List (Item S V)} {sh : Shared S V} {w w' : Worker S V}

section

variable [DecidableEq S] [AddCommGroup V] [LinearOrder V]

/-- The worker holds the lock. -/
def Point.critical : Point V → Bool
  | .loadAgain | .addFirst | .storeCollector | .unlock _ => true
  | _ => false

/-- The worker has seen the collector, or has stored it. -/
def Point.found : Point V → Bool
  | .unlock _ | .loadLast | .add _ | .storeLast | .done => true
  | _ => false

/-- A free lock means that no collector is about to be stored. -/
structure Shared.Sane (sh : Shared S V) : Prop where
  metricType : sh.metricType ≠ some .gauge
  collectors_le : sh.collectors ≤ 1
  free : sh.holder = none → sh.stored = false → sh.collectors = 0

/-- Worker `i` has its own item, holds the lock where it should, has seen the collector where it
should, and if it is about to register one, it is the first. -/
structure Worker.Sane (items : List (Item S V)) (i : Fin items.length) (sh : Shared S V)
    (w : Worker S V) : Prop where
  id : w.id = i
  item : w.item = items.get i
  holder : w.point.critical = true → sh.holder = some (i : ℕ)
  stored : w.point.found = true → sh.stored = true
  first : w.point = .loadAgain → sh.stored = false → sh.collectors = 0

/-- What holds in every interleaving. -/
abbrev Sane (items : List (Item S V)) : System items → Prop :=
  EachAgent Shared.Sane (Worker.Sane items)

omit [DecidableEq S] [LinearOrder V] in
theorem sane_spawned (items : List (Item S V)) : Sane items (spawned items) := by
  refine ⟨⟨fun h => ?_, Nat.zero_le 1, fun _ _ => rfl⟩, fun i => ⟨rfl, rfl, ?_, ?_, ?_⟩⟩
  · cases h
  · exact fun h => Bool.noConfusion h
  · exact fun h => Bool.noConfusion h
  · exact fun _ _ => rfl

variable {i j : Fin items.length}

/-- A step leaves the shared state in order. -/
theorem sane_act_shared (h : sh.Sane) (hw : w.Sane items i sh) : (act () sh w).1.Sane := by
  obtain ⟨htype, hle, hfree⟩ := h
  rw [act]
  split
  case h_1 => split <;> exact ⟨htype, hle, hfree⟩
  case h_2 => exact ⟨nofun, hle, hfree⟩
  case h_4 =>
    split
    · exact ⟨htype, hle, nofun⟩
    · exact ⟨htype, hle, hfree⟩
  case h_5 hp =>
    by_cases hstored : sh.stored = true
    · rw [if_pos hstored]
      exact ⟨htype, hle, hfree⟩
    · rw [if_neg hstored]
      have hzero := hw.first hp (eq_false_of_ne_true hstored)
      have hheld := hw.holder (by rw [hp]; rfl)
      refine ⟨htype, Nat.le_of_eq (by rw [hzero]), fun hnone => ?_⟩
      exact absurd (hheld.symm.trans hnone) (Option.some_ne_none _)
  case h_7 => exact ⟨htype, hle, fun _ hfalse => Bool.noConfusion hfalse⟩
  case h_8 found hp =>
    have hstored : sh.stored = true := hw.stored (by rw [hp]; rfl)
    exact ⟨htype, hle, fun _ hfalse => absurd (hstored.symm.trans hfalse) Bool.noConfusion⟩
  -- the other steps are about values
  all_goals exact ⟨htype, hle, hfree⟩

/-- A step leaves its own worker in order. -/
theorem sane_act_own (h : sh.Sane) (hw : w.Sane items i sh) (hpos : 0 ≤ w.item.value) :
    (act () sh w).2.Sane items i (act () sh w).1 := by
  obtain ⟨hid, hitem, hholder, hstored, hfirst⟩ := hw
  rw [act]
  split
  case h_1 =>
    split
    case h_3 hgauge => exact absurd hgauge h.metricType
    all_goals exact ⟨hid, hitem, nofun, nofun, nofun⟩
  case h_2 => exact ⟨hid, hitem, nofun, nofun, nofun⟩
  case h_3 =>
    by_cases hfound : sh.stored = true
    · rw [if_pos hfound]
      exact ⟨hid, hitem, nofun, fun _ => hfound, nofun⟩
    · rw [if_neg hfound]
      exact ⟨hid, hitem, nofun, nofun, nofun⟩
  case h_4 =>
    split
    next hnone => exact ⟨hid, hitem, fun _ => congrArg some hid, nofun, fun _ => h.free hnone⟩
    next => exact ⟨hid, hitem, hholder, hstored, hfirst⟩
  case h_5 hp =>
    have hheld := hholder (by rw [hp]; rfl)
    by_cases hfound : sh.stored = true
    · rw [if_pos hfound]
      exact ⟨hid, hitem, fun _ => hheld, fun _ => hfound, nofun⟩
    · rw [if_neg hfound, if_pos hpos]
      exact ⟨hid, hitem, fun _ => hheld, nofun, nofun⟩
  case h_6 hp => exact ⟨hid, hitem, fun _ => hholder (by rw [hp]; rfl), nofun, nofun⟩
  case h_7 hp => exact ⟨hid, hitem, fun _ => hholder (by rw [hp]; rfl), fun _ => rfl, nofun⟩
  case h_8 found hp =>
    have hfound : sh.stored = true := hstored (by rw [hp]; rfl)
    cases found <;> exact ⟨hid, hitem, nofun, fun _ => hfound, nofun⟩
  case h_12 => exact ⟨hid, hitem, hholder, hstored, hfirst⟩
  -- behind the lock the collector is there
  all_goals
    have hfound : sh.stored = true := hstored (by simp [*, Point.found])
    exact ⟨hid, hitem, nofun, fun _ => hfound, nofun⟩

/-- A step leaves the other workers in order. -/
theorem sane_act_other (hw : w.Sane items i sh) (hw' : w'.Sane items j sh) (hne : j ≠ i) :
    w'.Sane items j (act () sh w).1 := by
  -- two workers do not hold the lock together
  have hlock : w.point.critical = true → w'.point.critical ≠ true := fun hcrit hcrit' =>
    hne (Fin.ext (Option.some_inj.mp ((hw.holder hcrit).symm.trans (hw'.holder hcrit'))).symm)
  obtain ⟨hid, hitem, hholder, hstored, hfirst⟩ := hw'
  rw [act]
  split
  case h_1 => split <;> exact ⟨hid, hitem, hholder, hstored, hfirst⟩
  case h_4 =>
    split
    next hnone =>
      refine ⟨hid, hitem, fun hcrit => ?_, hstored, hfirst⟩
      exact absurd (hnone.symm.trans (hholder hcrit)) (Option.some_ne_none _).symm
    next => exact ⟨hid, hitem, hholder, hstored, hfirst⟩
  case h_5 hp =>
    by_cases hfound : sh.stored = true
    · rw [if_pos hfound]
      exact ⟨hid, hitem, hholder, hstored, hfirst⟩
    · rw [if_neg hfound]
      refine ⟨hid, hitem, hholder, hstored, fun hagain => ?_⟩
      exact absurd (by rw [hagain]; rfl) (hlock (by rw [hp]; rfl))
  case h_7 => exact ⟨hid, hitem, hholder, fun _ => rfl, fun _ hfalse => Bool.noConfusion hfalse⟩
  case h_8 found hp =>
    refine ⟨hid, hitem, fun hcrit => ?_, hstored, hfirst⟩
    exact absurd hcrit (hlock (by rw [hp]; rfl))
  all_goals exact ⟨hid, hitem, hholder, hstored, hfirst⟩

theorem Sane.move {c : System items} (h : Sane items c)
    (hvalue : ∀ item ∈ items, 0 ≤ item.value) (m : Fin items.length × Unit) :
    Sane items (move act c m) := by
  obtain ⟨i, e⟩ := m
  have hpos : 0 ≤ (c.agent i).item.value := by
    rw [(h.agent i).item]
    exact hvalue _ (List.get_mem ..)
  exact EachAgent.move h (sane_act_shared h.shared (h.agent i))
    (sane_act_own h.shared (h.agent i) hpos) fun j hj hw' => sane_act_other (h.agent i) hw' hj

end

/-! ## What a counter should be -/

variable {vs : List V}

section

variable [AddCommGroup V] [LinearOrder V]

/-- The increases along a list of values that follow `a`; a decrease counts as zero. -/
def increases : V → List V → V
  | _, [] => 0
  | a, b :: vs => max 0 (b - a) + increases b vs

/-- The first value and the increases after it. -/
def exactCount : List V → V
  | [] => 0
  | v :: vs => v + increases v vs

variable {v a : V}

theorem increase_none (hv : 0 ≤ v) : increase none v = v :=
  if_pos hv

theorem increase_some (lv v : V) : increase (some lv) v = max 0 (v - lv) := by
  rw [increase]
  split_ifs with h
  · exact (max_eq_right h).symm
  · exact (max_eq_left (not_le.mp h).le).symm

theorem increases_concat (a : V) (vs : List V) (v : V) :
    increases a (vs ++ [v]) = increases a vs + increase (some ((a :: vs).getLast (by simp))) v := by
  induction vs generalizing a with
  | nil => simp [increases, increase_some]
  | cons b vs ih =>
    rw [List.cons_append, increases, increases, ih, List.getLast_cons_cons, add_assoc]

/-- **One more value adds what a worker adds.** -/
theorem exactCount_concat (hv : 0 ≤ v) :
    exactCount (vs ++ [v]) = exactCount vs + increase vs.getLast? v := by
  cases vs with
  | nil => simp [exactCount, increases, increase_none hv]
  | cons a vs =>
    rw [List.cons_append, exactCount, exactCount, increases_concat, List.getLast?_eq_some_getLast,
      add_assoc]

theorem increases_of_sorted [IsOrderedAddMonoid V] (h : (a :: vs).Pairwise (· ≤ ·)) :
    increases a vs = (a :: vs).getLast (by simp) - a := by
  induction vs generalizing a with
  | nil => simp [increases]
  | cons b vs ih =>
    obtain ⟨hle, htail⟩ := List.pairwise_cons.mp h
    have hab : 0 ≤ b - a := sub_nonneg.mpr (hle b (List.mem_cons_self ..))
    rw [increases, ih htail, max_eq_right hab, List.getLast_cons_cons]
    abel

/-- A counter that never decreases is its last value. -/
theorem exactCount_of_sorted [IsOrderedAddMonoid V] (h : vs.Pairwise (· ≤ ·))
    (hlast : vs.getLast? = some v) : exactCount vs = v := by
  cases vs with
  | nil => cases hlast
  | cons a vs =>
    rw [List.getLast?_eq_some_getLast (List.cons_ne_nil _ _), Option.some_inj] at hlast
    rw [exactCount, increases_of_sorted h, hlast]
    abel

end

/-! ## Taking turns -/

section

variable [DecidableEq S] [AddCommGroup V] [LinearOrder V] {sh' : Shared S V} {p : Point V} {v : V}
  {s : S}

/-- What comes next depends on what is there: the last value, or that there is no collector. -/
def Shared.Reads (sh : Shared S V) : Point V → Prop
  | .loadLast => True
  | .loadAgain => sh.stored = false
  | _ => False

/-- When a worker reads, the workers of the earlier items of its series are done. -/
def InTurn (c : System items)
    (m : Fin items.length × Unit) : Prop :=
  c.shared.Reads (c.agent m.1).point → ∀ j < m.1,
    (items.get j).series = (items.get m.1).series → (c.agent j).point = .done

instance (sh : Shared S V) : ∀ p, Decidable (sh.Reads p)
  | .loadLast => inferInstanceAs (Decidable True)
  | .loadAgain => inferInstanceAs (Decidable (sh.stored = false))
  | .loadType | .storeType | .load | .lock | .addFirst | .storeCollector | .unlock _ | .add _
  | .storeLast | .done => inferInstanceAs (Decidable False)

instance (c : System items) (m : Fin items.length × Unit) : Decidable (InTurn c m) :=
  inferInstanceAs (Decidable (_ → _))

/-- The values of a series among the first `k` items. -/
def valuesUpTo (items : List (Item S V)) (s : S) (k : ℕ) : List V :=
  ((items.take k).filter fun item => item.series = s).map Item.value

omit [AddCommGroup V] [LinearOrder V] in
theorem valuesUpTo_succ (s : S) (i : Fin items.length) :
    valuesUpTo items s (i + 1) = valuesUpTo items s i ++
      if (items.get i).series = s then [(items.get i).value] else [] := by
  rw [valuesUpTo, valuesUpTo, List.take_add_one, List.getElem?_eq_getElem i.isLt,
    Option.toList_some, List.filter_append, List.map_append]
  congr 1
  by_cases hs : (items.get i).series = s
  · rw [if_pos hs, List.filter_cons_of_pos (by simpa using hs)]
    rfl
  · rw [if_neg hs, List.filter_cons_of_neg (by simpa using hs)]
    rfl

omit [AddCommGroup V] [LinearOrder V] in
/-- Items of other series do not matter. -/
theorem valuesUpTo_eq {k n : ℕ} (hk : k ≤ n) (hn : n ≤ items.length)
    (hnone : ∀ j : Fin items.length, k ≤ j → j < n → (items.get j).series ≠ s) :
    valuesUpTo items s k = valuesUpTo items s n := by
  induction n, hk using Nat.le_induction with
  | base => rfl
  | succ n hkn ih =>
    rw [ih (Nat.le_of_succ_le hn) fun j hj hjn => hnone j hj (Nat.lt_succ_of_lt hjn)]
    have hsucc := valuesUpTo_succ s (⟨n, hn⟩ : Fin items.length)
    rw [if_neg (hnone ⟨n, hn⟩ hkn (Nat.lt_succ_self n)), List.append_nil] at hsucc
    exact hsucc.symm

/-- The worker has read, and has not stored its value yet. -/
def Point.engaged : Point V → Bool
  | .addFirst | .storeCollector | .unlock false | .add _ | .storeLast => true
  | _ => false

/-- The counter and the last value of a series are those of the values `vs`. -/
structure Shared.Settled (sh : Shared S V) (s : S) (vs : List V) : Prop where
  counter : sh.counter s = exactCount vs
  lastValue : sh.lastValue s = vs.getLast?

/-- An engaged worker of value `v`, after the values `vs`: before it adds, and after. -/
inductive Phase (sh : Shared S V) (s : S) (vs : List V) (v : V) : Point V → Prop where
  | addFirst (hnil : vs = []) (h : sh.Settled s vs) : Phase sh s vs v .addFirst
  | add (h : sh.Settled s vs) : Phase sh s vs v (.add vs.getLast?)
  | added {p : Point V} (hp : p = .storeCollector ∨ p = .unlock false ∨ p = .storeLast)
      (hcounter : sh.counter s = exactCount (vs ++ [v]))
      (hlast : sh.lastValue s = vs.getLast?) : Phase sh s vs v p

omit [DecidableEq S] in
theorem Phase.engaged (h : Phase sh s vs v p) : p.engaged = true := by
  cases h with
  | addFirst => rfl
  | add => rfl
  | added hp =>
    rcases hp with rfl | rfl | rfl
    · rfl
    · rfl
    · rfl

variable {c c' : System items} {s : S} {m : Fin items.length}

/-- The workers of the series before place `k` are done, the others are not. -/
structure Front (c : System items) (s : S) (k : ℕ) :
    Prop where
  before : ∀ j : Fin items.length, j < k → (items.get j).series = s → (c.agent j).point = .done
  after : ∀ j : Fin items.length, k ≤ j → (items.get j).series = s → (c.agent j).point ≠ .done

/-- A series at rest, and one with a worker at work. -/
inductive SeriesState (c : System items) (s : S) : Prop where
  | idle (k : ℕ) (front : Front c s k)
      (none : ∀ j, (items.get j).series = s → (c.agent j).point.engaged = false)
      (settled : c.shared.Settled s (valuesUpTo items s k))
  | busy (i : Fin items.length) (series : (items.get i).series = s) (front : Front c s i)
      (others : ∀ j ≠ i, (items.get j).series = s → (c.agent j).point.engaged = false)
      (phase : Phase c.shared s (valuesUpTo items s i) (items.get i).value (c.agent i).point)

theorem seriesState_spawned (items : List (Item S V)) (s : S) : SeriesState (spawned items) s :=
  .idle 0 ⟨nofun, fun _ _ _ => nofun⟩ (fun _ _ => rfl) ⟨rfl, rfl⟩

/-! ### What the steps do to a series -/

omit [DecidableEq S] in
theorem Phase.of_eq (h : Phase sh s vs v p) (hcounter : sh'.counter s = sh.counter s)
    (hlast : sh'.lastValue s = sh.lastValue s) : Phase sh' s vs v p := by
  cases h with
  | addFirst hnil h => exact .addFirst hnil ⟨hcounter.trans h.counter, hlast.trans h.lastValue⟩
  | add h => exact .add ⟨hcounter.trans h.counter, hlast.trans h.lastValue⟩
  | added hp hcount hl => exact .added hp (hcounter.trans hcount) (hlast.trans hl)

/-- The first value of a series is added whole. -/
theorem Phase.addTo_first (h : Phase sh s vs v .addFirst) (hv : 0 ≤ v) :
    Phase (sh.addTo s v) s vs v .storeCollector := by
  cases h with
  | addFirst hnil hsettled =>
    refine .added (Or.inl rfl) ?_ hsettled.lastValue
    rw [exactCount_concat hv, ← hsettled.counter, hnil, List.getLast?_nil, increase_none hv]
    exact Function.update_self ..
  | added hwrong => rcases hwrong with hwrong | hwrong | hwrong <;> cases hwrong

/-- Of a later value the increase is added. -/
theorem Phase.addTo_increase {last : Option V} (h : Phase sh s vs v (.add last)) (hv : 0 ≤ v) :
    Phase (sh.addTo s (increase last v)) s vs v .storeLast := by
  cases h with
  | add hsettled =>
    refine .added (Or.inr (Or.inr rfl)) ?_ hsettled.lastValue
    rw [exactCount_concat hv, ← hsettled.counter]
    exact Function.update_self ..
  | added hwrong => rcases hwrong with hwrong | hwrong | hwrong <;> cases hwrong

/-- The other workers of the series stand where they stood. -/
def Others (c c' : System items) (s : S) (m : Fin items.length) : Prop :=
  ∀ j ≠ m, (items.get j).series = s → c'.agent j = c.agent j

theorem SeriesState.of_eq (h : SeriesState c s)
    (hagent : ∀ j, (items.get j).series = s → c'.agent j = c.agent j)
    (hcounter : c'.shared.counter s = c.shared.counter s)
    (hlast : c'.shared.lastValue s = c.shared.lastValue s) : SeriesState c' s := by
  have hfront : ∀ k, Front c s k → Front c' s k := fun k hk =>
    ⟨fun j hj hs => by rw [hagent j hs]; exact hk.before j hj hs,
      fun j hj hs => by rw [hagent j hs]; exact hk.after j hj hs⟩
  cases h with
  | idle k front none settled =>
    refine .idle k (hfront k front) (fun j hs => ?_)
      ⟨hcounter.trans settled.counter, hlast.trans settled.lastValue⟩
    rw [hagent j hs]
    exact none j hs
  | busy i hi front others phase =>
    refine .busy i hi (hfront i front) (fun j hj hs => ?_) ?_
    · rw [hagent j hs]
      exact others j hj hs
    · rw [hagent i hi]
      exact phase.of_eq hcounter hlast

/-- A worker of the series makes a step that is nothing to the series. -/
theorem SeriesState.quiet (h : SeriesState c s) (hothers : Others c c' s m)
    (hold : (c.agent m).point.engaged = false ∧ (c.agent m).point ≠ .done)
    (hnew : (c'.agent m).point.engaged = false ∧ (c'.agent m).point ≠ .done)
    (hcounter : c'.shared.counter s = c.shared.counter s)
    (hlast : c'.shared.lastValue s = c.shared.lastValue s) : SeriesState c' s := by
  have hfront : ∀ k, Front c s k → Front c' s k := by
    intro k hk
    constructor
    · intro j hj hs
      have hjm : j ≠ m := by
        rintro rfl
        exact hold.2 (hk.before j hj hs)
      rw [hothers j hjm hs]
      exact hk.before j hj hs
    · intro j hj hs
      by_cases hjm : j = m
      · rw [hjm]
        exact hnew.2
      · rw [hothers j hjm hs]
        exact hk.after j hj hs
  have hquiet : ∀ j, (items.get j).series = s → (c.agent j).point.engaged = false →
      (c'.agent j).point.engaged = false := by
    intro j hs hj
    by_cases hjm : j = m
    · rw [hjm]
      exact hnew.1
    · rw [hothers j hjm hs]
      exact hj
  cases h with
  | idle k front none settled =>
    exact .idle k (hfront k front) (fun j hs => hquiet j hs (none j hs))
      ⟨hcounter.trans settled.counter, hlast.trans settled.lastValue⟩
  | busy i hi front others phase =>
    have him : i ≠ m := by
      rintro rfl
      exact absurd phase.engaged (by rw [hold.1]; exact Bool.false_ne_true)
    refine .busy i hi (hfront i front) (fun j hj hs => hquiet j hs (others j hj hs)) ?_
    rw [hothers i him hi]
    exact phase.of_eq hcounter hlast

/-- A worker whose turn it is finds the series at rest, with the values before its own. -/
theorem SeriesState.at_turn (h : SeriesState c s) (hm : (items.get m).series = s)
    (hold : (c.agent m).point.engaged = false ∧ (c.agent m).point ≠ .done)
    (hturn : ∀ j < m, (items.get j).series = s → (c.agent j).point = .done) :
    Front c s m ∧ (∀ j, (items.get j).series = s → (c.agent j).point.engaged = false) ∧
      c.shared.Settled s (valuesUpTo items s m) := by
  cases h with
  | idle k front none settled =>
    have hkm : k ≤ m := by
      by_contra hlt
      exact hold.2 (front.before m (not_le.mp hlt) hm)
    refine ⟨⟨fun j hj hs => hturn j hj hs, fun j hj hs => ?_⟩, none, ?_⟩
    · exact front.after j (hkm.trans hj) hs
    · rw [← valuesUpTo_eq hkm m.isLt.le fun j hj hjm hs => front.after j hj hs (hturn j hjm hs)]
      exact settled
  | busy i hi front others phase =>
    -- the worker at work is neither earlier, nor this one, nor later
    rcases lt_trichotomy i m with hlt | rfl | hgt
    · exact absurd (hturn i hlt hi) (front.after i le_rfl hi)
    · exact absurd phase.engaged (by rw [hold.1]; exact Bool.false_ne_true)
    · exact absurd (front.before m hgt hm) hold.2

/-- A worker whose turn it is is at work after its step. -/
theorem SeriesState.of_phase (hm : (items.get m).series = s) (hothers : Others c c' s m)
    (front : Front c s m)
    (others : ∀ j ≠ m, (items.get j).series = s → (c.agent j).point.engaged = false)
    (hnew : Phase c'.shared s (valuesUpTo items s m) (items.get m).value (c'.agent m).point) :
    SeriesState c' s := by
  refine .busy m hm ⟨fun j hj hs => ?_, fun j hj hs => ?_⟩ (fun j hj hs => ?_) hnew
  · rw [hothers j (Fin.ne_of_lt hj) hs]
    exact front.before j hj hs
  · by_cases hjm : j = m
    · subst hjm
      intro hdone
      have hengaged := hnew.engaged
      rw [hdone] at hengaged
      exact Bool.noConfusion hengaged
    · rw [hothers j hjm hs]
      exact front.after j hj hs
  · rw [hothers j hj hs]
    exact others j hj hs

/-- A worker at work is the one of the series. -/
theorem SeriesState.at_work (h : SeriesState c s) (hm : (items.get m).series = s)
    (hengaged : (c.agent m).point.engaged = true) :
    Front c s m ∧ (∀ j ≠ m, (items.get j).series = s → (c.agent j).point.engaged = false) ∧
      Phase c.shared s (valuesUpTo items s m) (items.get m).value (c.agent m).point := by
  cases h with
  | idle k front none settled =>
    rw [none m hm] at hengaged
    exact Bool.noConfusion hengaged
  | busy i hi front others phase =>
    by_cases him : m = i
    · subst him
      exact ⟨front, others, phase⟩
    · rw [others m him hm] at hengaged
      exact Bool.noConfusion hengaged

theorem SeriesState.ends (h : SeriesState c s) (hm : (items.get m).series = s)
    (hothers : Others c c' s m) (hstore : (c.agent m).point = .storeLast)
    (hdone : (c'.agent m).point = .done) (hcounter : c'.shared.counter s = c.shared.counter s)
    (hlast : c'.shared.lastValue s = some (items.get m).value) : SeriesState c' s := by
  obtain ⟨front, others, phase⟩ := h.at_work hm (by rw [hstore]; rfl)
  have hvalues : valuesUpTo items s (m + 1) =
      valuesUpTo items s m ++ [(items.get m).value] := by
    rw [valuesUpTo_succ, if_pos hm]
  refine .idle (m + 1) ⟨fun j hj hs => ?_, fun j hj hs => ?_⟩ (fun j hs => ?_) ⟨?_, ?_⟩
  · by_cases hjm : j = m
    · rw [hjm]
      exact hdone
    · rw [hothers j hjm hs]
      exact front.before j (lt_of_le_of_ne (Nat.lt_succ_iff.mp hj) (Fin.val_ne_of_ne hjm)) hs
  · have hjm : j ≠ m := by
      rintro rfl
      exact absurd hj (Nat.not_succ_le_self _)
    rw [hothers j hjm hs]
    exact front.after j (Nat.le_of_succ_le hj) hs
  · by_cases hjm : j = m
    · rw [hjm, hdone]
      rfl
    · rw [hothers j hjm hs]
      exact others j hjm hs
  · rw [hstore] at phase
    cases phase with
    | added _ hcount _ => rw [hcounter, hcount, hvalues]
  · rw [hlast, hvalues, List.getLast?_concat]

/-! ### Every step -/

theorem act_of_ne {sh : Shared S V} {w : Worker S V} (hs : s ≠ w.item.series) :
    (act () sh w).1.counter s = sh.counter s ∧ (act () sh w).1.lastValue s = sh.lastValue s := by
  rw [act]
  split
  case h_1 => split <;> exact ⟨rfl, rfl⟩
  case h_4 => split <;> exact ⟨rfl, rfl⟩
  case h_5 => split <;> exact ⟨rfl, rfl⟩
  case h_6 => exact ⟨Function.update_of_ne hs .., rfl⟩
  case h_10 => exact ⟨Function.update_of_ne hs .., rfl⟩
  case h_11 => exact ⟨rfl, Function.update_of_ne hs ..⟩
  all_goals exact ⟨rfl, rfl⟩

/-- What a step leaves, from what `act` does. -/
theorem move_of_act (hagent : c.agent m = w) (hact : act () c.shared w = (sh', w')) :
    (move act c (m, ())).shared = sh' ∧ (move act c (m, ())).agent m = w' := by
  rw [shared_move, agent_move_self, hagent, hact]
  exact ⟨rfl, rfl⟩

theorem others_move : Others c (move act c (m, ())) s m := fun _ hj _ => agent_move_of_ne hj

/-- A step that leaves its worker out of work. -/
theorem SeriesState.quiet_act (h : SeriesState c s) (hagent : c.agent m = w)
    (hact : act () c.shared w = (sh', w')) (hold : w.point.engaged = false ∧ w.point ≠ .done)
    (hnew : w'.point.engaged = false ∧ w'.point ≠ .done)
    (hcounter : sh'.counter s = c.shared.counter s)
    (hlast : sh'.lastValue s = c.shared.lastValue s) :
    SeriesState (Machine.move act c (m, ())) s := by
  obtain ⟨rfl, rfl⟩ := move_of_act hagent hact
  subst hagent
  exact h.quiet others_move hold hnew hcounter hlast

/-- A step by which a worker begins. -/
theorem SeriesState.begins_act (h : SeriesState c s) (hm : (items.get m).series = s)
    (hagent : c.agent m = w) (hact : act () c.shared w = (sh', w'))
    (hold : w.point.engaged = false ∧ w.point ≠ .done)
    (hturn : ∀ j < m, (items.get j).series = s → (c.agent j).point = .done)
    (hphase : c.shared.Settled s (valuesUpTo items s m) →
      Phase sh' s (valuesUpTo items s m) (items.get m).value w'.point) :
    SeriesState (Machine.move act c (m, ())) s := by
  obtain ⟨rfl, rfl⟩ := move_of_act hagent hact
  subst hagent
  obtain ⟨front, none, settled⟩ := h.at_turn hm hold hturn
  exact .of_phase hm others_move front (fun j _ hs => none j hs) (hphase settled)

/-- A step by which a worker goes on. -/
theorem SeriesState.goes_on_act (h : SeriesState c s) (hm : (items.get m).series = s)
    (hagent : c.agent m = w) (hact : act () c.shared w = (sh', w'))
    (hengaged : w.point.engaged = true)
    (hphase : Phase c.shared s (valuesUpTo items s m) (items.get m).value w.point →
      Phase sh' s (valuesUpTo items s m) (items.get m).value w'.point) :
    SeriesState (Machine.move act c (m, ())) s := by
  obtain ⟨rfl, rfl⟩ := move_of_act hagent hact
  subst hagent
  obtain ⟨front, others, phase⟩ := h.at_work hm hengaged
  exact .of_phase hm others_move front others (hphase phase)

theorem SeriesState.of_act_eq (h : SeriesState c s) (hagent : c.agent m = w)
    (hact : act () c.shared w = (c.shared, w)) : SeriesState (Machine.move act c (m, ())) s := by
  obtain ⟨hshared, hself⟩ := move_of_act hagent hact
  refine h.of_eq (fun j _ => ?_) (by rw [hshared]) (by rw [hshared])
  by_cases hj : j = m
  · rw [hj, hself, hagent]
  · exact agent_move_of_ne hj

omit [AddCommGroup V] [LinearOrder V] in
/-- A worker that is done has seen the collector, so while there is none the series has no earlier
value. -/
theorem valuesUpTo_eq_nil (hsane : Sane items c) (hstored : ¬ c.shared.stored = true)
    (hdone : ∀ j < m, (items.get j).series = s → (c.agent j).point = .done) :
    valuesUpTo items s m = [] := by
  rw [← valuesUpTo_eq (Nat.zero_le m) m.isLt.le]
  · rfl
  · intro j _ hj hs
    refine hstored ((hsane.agent j).stored ?_)
    rw [hdone j hj hs]
    rfl

theorem SeriesState.act_loadType (h : SeriesState c s) (hsane : Sane items c) {id : ℕ}
    {item : Item S V} (hagent : c.agent m = ⟨id, item, .loadType⟩) :
    SeriesState (Machine.move act c (m, ())) s := by
  have hact : act () c.shared ⟨id, item, .loadType⟩ = (c.shared, ⟨id, item, .storeType⟩) ∨
      act () c.shared ⟨id, item, .loadType⟩ = (c.shared, ⟨id, item, .load⟩) := by
    cases htype : c.shared.metricType with
    | none => exact .inl (by simp only [act, htype, Worker.goto])
    | some t =>
      cases t with
      | gauge => exact absurd htype hsane.shared.metricType
      | counter => exact .inr (by simp only [act, htype, Worker.goto])
  rcases hact with hact | hact
  · exact h.quiet_act hagent hact ⟨rfl, nofun⟩ ⟨rfl, nofun⟩ rfl rfl
  · exact h.quiet_act hagent hact ⟨rfl, nofun⟩ ⟨rfl, nofun⟩ rfl rfl

/-- The second look at the collectors: a worker that finds none begins. -/
theorem SeriesState.act_loadAgain (h : SeriesState c s) (hsane : Sane items c)
    (hpos : 0 ≤ (items.get m).value) (hturn : InTurn c (m, ())) (hm : (items.get m).series = s)
    {id : ℕ} (hagent : c.agent m = ⟨id, items.get m, .loadAgain⟩) :
    SeriesState (Machine.move act c (m, ())) s := by
  by_cases hstored : c.shared.stored = true
  · have hact : act () c.shared ⟨id, items.get m, .loadAgain⟩ =
        (c.shared, ⟨id, items.get m, .unlock true⟩) := by
      simp only [act, if_pos hstored, Worker.goto]
    exact h.quiet_act hagent hact ⟨rfl, nofun⟩ ⟨rfl, nofun⟩ rfl rfl
  · have hact : act () c.shared ⟨id, items.get m, .loadAgain⟩ =
        ({ c.shared with collectors := c.shared.collectors + 1 },
          ⟨id, items.get m, .addFirst⟩) := by
      simp only [act, if_neg hstored, if_pos hpos, Worker.goto]
    have hdone : ∀ j < m, (items.get j).series = s → (c.agent j).point = .done :=
      fun j hj hs => hturn (by rw [hagent]; exact eq_false_of_ne_true hstored) j hj
        (hs.trans hm.symm)
    have hnil := valuesUpTo_eq_nil hsane hstored hdone
    exact h.begins_act hm hagent hact ⟨rfl, nofun⟩ hdone fun hsettled =>
      .addFirst hnil ⟨hsettled.counter, hsettled.lastValue⟩

/-- **A step in turn keeps the series of its worker in order.** -/
theorem SeriesState.act_own (h : SeriesState c s) (hsane : Sane items c)
    (hvalue : ∀ item ∈ items, 0 ≤ item.value) (hturn : InTurn c (m, ()))
    (hm : (items.get m).series = s) : SeriesState (Machine.move act c (m, ())) s := by
  have hpos : 0 ≤ (items.get m).value := hvalue _ (List.get_mem ..)
  rcases hagent : c.agent m with ⟨id, item, point⟩
  obtain rfl : item = items.get m := by
    rw [← (hsane.agent m).item, hagent]
  cases point with
  | loadType => exact h.act_loadType hsane hagent
  | storeType => exact h.quiet_act hagent rfl ⟨rfl, nofun⟩ ⟨rfl, nofun⟩ rfl rfl
  | load =>
    refine h.quiet_act hagent rfl ⟨rfl, nofun⟩ ?_ rfl rfl
    show Point.engaged (if c.shared.stored then _ else _) = false ∧ _
    split_ifs
    · exact ⟨rfl, nofun⟩
    · exact ⟨rfl, nofun⟩
  | lock =>
    cases hholder : c.shared.holder with
    | none =>
      have hact : act () c.shared ⟨id, items.get m, .lock⟩ =
          ({ c.shared with holder := some id }, ⟨id, items.get m, .loadAgain⟩) := by
        simp only [act, hholder, Worker.goto]
      exact h.quiet_act hagent hact ⟨rfl, nofun⟩ ⟨rfl, nofun⟩ rfl rfl
    | some k => exact h.of_act_eq hagent (by simp only [act, hholder])
  | loadAgain => exact h.act_loadAgain hsane hpos hturn hm hagent
  | addFirst =>
    subst hm
    exact h.goes_on_act rfl hagent rfl rfl fun phase => phase.addTo_first hpos
  | storeCollector =>
    refine h.goes_on_act hm hagent rfl rfl fun phase => ?_
    cases phase with
    | added _ hcounter hlast => exact .added (Or.inr (Or.inl rfl)) hcounter hlast
  | unlock found =>
    cases found with
    | true => exact h.quiet_act hagent rfl ⟨rfl, nofun⟩ ⟨rfl, nofun⟩ rfl rfl
    | false =>
      refine h.goes_on_act hm hagent rfl rfl fun phase => ?_
      cases phase with
      | added _ hcounter hlast => exact .added (Or.inr (Or.inr rfl)) hcounter hlast
  | loadLast =>
    subst hm
    refine h.begins_act rfl hagent rfl ⟨rfl, nofun⟩ ?_ fun hsettled => ?_
    · exact fun j hj hs => hturn (by rw [hagent]; exact trivial) j hj hs
    · show Phase _ _ _ _ (.add (c.shared.lastValue (items.get m).series))
      rw [hsettled.lastValue]
      exact .add hsettled
  | add last =>
    subst hm
    exact h.goes_on_act rfl hagent rfl rfl fun phase => phase.addTo_increase hpos
  | storeLast =>
    subst hm
    obtain ⟨hshared, hself⟩ := move_of_act hagent rfl
    refine h.ends rfl others_move (by rw [hagent]) (by rw [hself]; rfl) (by rw [hshared]) ?_
    rw [hshared]
    exact Function.update_self ..
  | done => exact h.of_act_eq hagent rfl

/-- **A step in turn keeps every series in order.** -/
theorem seriesState_move (h : SeriesState c s) (hsane : Sane items c)
    (hvalue : ∀ item ∈ items, 0 ≤ item.value) (hturn : InTurn c (m, ())) :
    SeriesState (move act c (m, ())) s := by
  by_cases hm : (items.get m).series = s
  · exact h.act_own hsane hvalue hturn hm
  · have hne : s ≠ (c.agent m).item.series := by
      rw [(hsane.agent m).item]
      exact Ne.symm hm
    refine h.of_eq (fun j hs => ?_) (act_of_ne hne).1 (act_of_ne hne).2
    exact agent_move_of_ne fun hjm => hm (hjm ▸ hs)

/-- When all workers are done, the counter is that of all values. -/
theorem SeriesState.counter_eq (h : SeriesState c s) (hdone : ∀ i, (c.agent i).point = .done) :
    c.shared.counter s =
      exactCount ((items.filter fun item => item.series = s).map Item.value) := by
  cases h with
  | idle k front none settled =>
    have hall : valuesUpTo items s k =
        (items.filter fun item => item.series = s).map Item.value := by
      rcases le_total k items.length with hk | hk
      · rw [valuesUpTo_eq hk le_rfl fun j hj _ hs => front.after j hj hs (hdone j), valuesUpTo,
          List.take_length]
      · rw [valuesUpTo, List.take_of_length_le hk]
    rw [settled.counter, hall]
  | busy i hi front others phase =>
    have hengaged := phase.engaged
    rw [hdone i] at hengaged
    exact Bool.noConfusion hengaged

end

/-! ## Two schedules -/

end OpenFalcon.Relay
