import OpenFalcon.Common.Name
import OpenFalcon.Graph.Item
import OpenFalcon.Machine.Guarded
import OpenFalcon.Nodata.Judge

/-!
# Collecting the newest points

`modules/nodata/collector/collector_cron.go`.  `collectDataOnce` cuts the configured keys into
batches and starts a goroutine for each, which asks for the newest points of its keys and reports
how many it was given.  A semaphore bounds the number of goroutines at work, and the reports come
through a channel, from which `collectDataOnce` takes as many as there are batches.

The number of batches is computed by a division and the number of goroutines by a loop.  That they
are the same is why nobody waits for ever: a goroutine that wants to report finds room in the
channel, and as long as a report is missing there is a goroutine that can make a step
(`collecting_completes`).
-/

namespace OpenFalcon.Nodata

open Common Machine Order

variable {F : Type} {k : ℕ}

/-! ## Fetching -/

/-- `model.GraphLastParam`. -/
structure GraphLastParam where
  endpoint : String
  counter : String

/-- `model.GraphLastResp`. -/
structure GraphLastResp (F : Type) where
  endpoint : String
  counter : String
  value : Option (Graph.RRDData F)

/-- What a fetch finds outside: the configurations at that time, the answer of the API to its
request, and the clock. -/
structure Outside (F : Type) where
  getNdConfig : String → Option (NodataConfig F)
  queryLastPoints : List GraphLastParam → Except String (List (Option (GraphLastResp F)))
  now : Int

/-- What `fetchItemsAndStore` returns, and the calls of `AddItem` it makes. -/
structure FetchResult (F : Type) where
  size : ℕ
  errt : Option String
  added : List (String × DataItem F)

/-- The request for the keys that have a configuration. -/
def lastParams (o : Outside F) (fetchKeys : List String) : List GraphLastParam :=
  fetchKeys.filterMap fun key => (o.getNdConfig key).map fun ndcfg =>
    ⟨ndcfg.endpoint, counter ndcfg.metric ndcfg.tags⟩

/-- The items of an answer; `nil` answers and answers without a point are passed over. -/
def storedItems (o : Outside F) (resp : List (Option (GraphLastResp F))) :
    List (String × DataItem F) :=
  resp.filterMap fun glr => glr.bind fun glr => glr.value.map fun point =>
    (pk2 glr.endpoint glr.counter, ⟨point.timestamp, point.value, .ok, o.now⟩)

/-- `fetchItemsAndStore`. -/
def fetchItemsAndStore (o : Outside F) (fetchKeys : List String) (fetchSize : ℕ) : FetchResult F :=
  if fetchSize < 1 then ⟨0, none, []⟩
  else if (lastParams o fetchKeys).length < 1 then ⟨0, none, []⟩
  else
    match o.queryLastPoints (lastParams o fetchKeys) with
    | .error err => ⟨0, some err, []⟩
    | .ok resp => ⟨resp.length, none, storedItems o resp⟩

/-! ## The goroutines -/

/-- `CollectorConfig`: what `collectDataOnce` reads of it. -/
structure CollectorConfig where
  batch : Int
  concurrent : Int

/-- `concurrent`. -/
def CollectorConfig.permits (cfg : CollectorConfig) : ℕ :=
  if cfg.concurrent < 1 ∨ 50 < cfg.concurrent then 10 else cfg.concurrent.toNat

/-- `batch`. -/
def CollectorConfig.batchSize (cfg : CollectorConfig) : ℕ :=
  if cfg.batch < 100 ∨ 1000 < cfg.batch then 200 else cfg.batch.toNat

/-- `batchCnt`. -/
def batchCnt (cfg : CollectorConfig) (keys : List String) : ℕ :=
  (keys.length + cfg.batchSize - 1) / cfg.batchSize

/-- Where a goroutine stands: in `fetchItemsAndStore`, at `rch <- size`, at the deferred
`sema.Release()`, or at its end.  After the fetch it is known what the fetch found outside. -/
inductive Point (F : Type) where
  | fetching
  | sending (o : Outside F)
  | releasing (o : Outside F)
  | ended (o : Outside F)

/-- A goroutine, with its arguments. -/
structure Fetch (F : Type) where
  keys : List String
  keySize : ℕ
  point : Point F

/-- The size a goroutine reports, if it found `o`. -/
def Fetch.sizeFrom (w : Fetch F) (o : Outside F) : ℕ :=
  (fetchItemsAndStore o w.keys w.keySize).size

/-- Where `collectDataOnce` stands: at the head of the loop, behind `sema.Acquire()`, before the
`n`th receive, or at its end. -/
inductive Main where
  | loop (i : ℕ)
  | acquired (i : ℕ)
  | receiving (n collectCnt : ℕ)
  | returned (collectCnt : ℕ)

/-- A call of `collectDataOnce`, with the permits that are taken, the goroutines it has started and
the channel. -/
structure Collecting (F : Type) where
  main : Main
  taken : ℕ
  fetches : List (Fetch F)
  rch : List ℕ

/-- The start of a call. -/
def Collecting.start : Collecting F := ⟨.loop 0, 0, [], []⟩

/-- The next step of `collectDataOnce`; `none` while it has to wait, and when it has returned. -/
def Collecting.stepMain (cfg : CollectorConfig) (keys : List String) (s : Collecting F) :
    Option (Collecting F) :=
  match s.main with
  | .loop i =>
    if i < keys.length then
      if s.taken < cfg.permits then some { s with main := .acquired i, taken := s.taken + 1 }
      else none
    else some { s with main := .receiving 0 0 }
  | .acquired i =>
    let leftLen := keys.length - i
    let fetchSize := if leftLen < cfg.batchSize then leftLen else cfg.batchSize
    some { s with
      main := .loop (i + fetchSize)
      fetches := s.fetches ++ [⟨(keys.drop i).take fetchSize, fetchSize, .fetching⟩] }
  | .receiving n collectCnt =>
    if n < batchCnt cfg keys then
      match s.rch with
      | [] => none
      | cnt :: rest => some { s with main := .receiving (n + 1) (collectCnt + cnt), rch := rest }
    else some { s with main := .returned collectCnt }
  | .returned _ => none

/-- The next step of a goroutine; `none` while it has to wait, and when it has ended.  The channel
has room for `batchCnt + 1` sizes. -/
def Collecting.stepFetch (cfg : CollectorConfig) (keys : List String) (s : Collecting F) (k : ℕ)
    (w : Fetch F) (o : Outside F) : Option (Collecting F) :=
  match w.point with
  | .fetching => some { s with fetches := s.fetches.set k { w with point := .sending o } }
  | .sending found =>
    if s.rch.length < batchCnt cfg keys + 1 then
      some { s with
        fetches := s.fetches.set k { w with point := .releasing found }
        rch := s.rch ++ [w.sizeFrom found] }
    else none
  | .releasing found =>
    some { s with
      taken := s.taken - 1
      fetches := s.fetches.set k { w with point := .ended found } }
  | .ended _ => none

/-- Who makes a step, and what a fetch finds outside if that step is its own. -/
inductive Move (F : Type) where
  | main
  | fetch (k : ℕ) (o : Outside F)

/-- One step. -/
def Collecting.step (cfg : CollectorConfig) (keys : List String) (s : Collecting F) :
    Move F → Option (Collecting F)
  | .main => s.stepMain cfg keys
  | .fetch k o => s.fetches[k]?.bind fun w => s.stepFetch cfg keys k w o

/-! ## What is counted -/

/-- The goroutine holds a permit. -/
def Fetch.permit (w : Fetch F) : ℕ :=
  match w.point with
  | .ended _ => 0
  | _ => 1

/-- The number of sizes the goroutine has sent. -/
def Fetch.sent (w : Fetch F) : ℕ :=
  match w.point with
  | .fetching | .sending _ => 0
  | .releasing _ | .ended _ => 1

/-- The size the goroutine has sent, zero before it is sent. -/
def Fetch.sentSize (w : Fetch F) : ℕ :=
  match w.point with
  | .fetching | .sending _ => 0
  | .releasing o | .ended o => w.sizeFrom o

/-- The steps the goroutine has to go. -/
def Fetch.rank (w : Fetch F) : ℕ :=
  match w.point with
  | .fetching => 3
  | .sending _ => 2
  | .releasing _ => 1
  | .ended _ => 0

/-- A count over all goroutines. -/
def Collecting.total (f : Fetch F → ℕ) (s : Collecting F) : ℕ := (s.fetches.map f).sum

/-- The permit `collectDataOnce` holds for the goroutine it is about to start. -/
def Main.permit : Main → ℕ
  | .acquired _ => 1
  | _ => 0

/-- The number of sizes `collectDataOnce` has received, `cnt` in all. -/
def Main.received (cnt : ℕ) : Main → ℕ
  | .loop _ | .acquired _ => 0
  | .receiving n _ => n
  | .returned _ => cnt

/-- The sum of the sizes received. -/
def Main.collected : Main → ℕ
  | .loop _ | .acquired _ => 0
  | .receiving _ collectCnt | .returned collectCnt => collectCnt

/-- The steps `collectDataOnce` has to go, `cnt` sizes to be received, but for the goroutines it has
to start. -/
def Main.rank (cnt : ℕ) : Main → ℕ
  | .loop _ => cnt + 2
  | .acquired _ => cnt + 1
  | .receiving n _ => cnt - n + 1
  | .returned _ => 0

/-- The steps that are left. -/
def Collecting.rank (cfg : CollectorConfig) (keys : List String) (s : Collecting F) : ℕ :=
  5 * (batchCnt cfg keys - s.fetches.length) + s.total Fetch.rank + s.main.rank (batchCnt cfg keys)

theorem sum_map_set {α : Type*} (f : α → ℕ) {l : List α} {a : α} (h : l[k]? = some a) (b : α) :
    ((l.set k b).map f).sum + f a = (l.map f).sum + f b := by
  induction l generalizing k with
  | nil => cases h
  | cons x l ih =>
    cases k with
    | zero =>
      obtain rfl := Option.some.inj h
      rw [List.set_cons_zero, List.map_cons, List.map_cons, List.sum_cons, List.sum_cons]
      omega
    | succ k =>
      have hrest := ih h
      rw [List.set_cons_succ, List.map_cons, List.map_cons, List.sum_cons, List.sum_cons]
      omega

theorem Fetch.sent_le_one (w : Fetch F) : w.sent ≤ 1 := by
  unfold Fetch.sent
  split <;> omega

theorem sum_sent_le (fetches : List (Fetch F)) : (fetches.map Fetch.sent).sum ≤ fetches.length := by
  have hle := List.sum_le_card_nsmul (fetches.map Fetch.sent) 1 fun n hn => by
    obtain ⟨w, -, rfl⟩ := List.mem_map.mp hn
    exact w.sent_le_one
  rwa [List.length_map, smul_eq_mul, mul_one] at hle

variable {w : Fetch F}

/-- If nobody's size is missing, everybody has sent. -/
theorem sent_of_length_le {fetches : List (Fetch F)}
    (h : fetches.length ≤ (fetches.map Fetch.sent).sum) (hw : w ∈ fetches) : w.sent = 1 := by
  obtain ⟨l₁, l₂, rfl⟩ := List.append_of_mem hw
  have h₁ := sum_sent_le l₁
  have h₂ := sum_sent_le l₂
  have hone := w.sent_le_one
  rw [List.map_append, List.map_cons, List.sum_append, List.sum_cons, List.length_append,
    List.length_cons] at h
  omega

/-! ## The invariant -/

/-- Where `collectDataOnce` stands when it has started `k` goroutines. -/
def Main.At (cfg : CollectorConfig) (keys : List String) (k : ℕ) : Main → Prop
  | .loop i => i = min (k * cfg.batchSize) keys.length
  | .acquired i => i = k * cfg.batchSize ∧ i < keys.length
  | .receiving n _ => k = batchCnt cfg keys ∧ n ≤ batchCnt cfg keys
  | .returned _ => k = batchCnt cfg keys

/-- The groups are the first slices, the permits are those of the goroutines at work, and what has
been sent has been received or is in the channel. -/
structure Collecting.Inv (cfg : CollectorConfig) (keys : List String) (s : Collecting F) :
    Prop where
  started : s.fetches.length ≤ batchCnt cfg keys
  groups : s.fetches.map Fetch.keys = slices cfg.batchSize keys s.fetches.length
  main : s.main.At cfg keys s.fetches.length
  permits : s.taken = s.total Fetch.permit + s.main.permit
  passed : s.main.received (batchCnt cfg keys) + s.rch.length = s.total Fetch.sent
  counted : s.main.collected + s.rch.sum = s.total Fetch.sentSize

variable {cfg : CollectorConfig} {keys : List String} {s s' : Collecting F}

theorem batchSize_pos (cfg : CollectorConfig) : 0 < cfg.batchSize := by
  unfold CollectorConfig.batchSize
  split_ifs <;> omega

theorem permits_pos (cfg : CollectorConfig) : 0 < cfg.permits := by
  unfold CollectorConfig.permits
  split_ifs <;> omega

theorem lt_batchCnt_iff : k < batchCnt cfg keys ↔ k * cfg.batchSize < keys.length :=
  lt_ceilDiv_iff (batchSize_pos cfg)

theorem inv_start (cfg : CollectorConfig) (keys : List String) :
    (Collecting.start : Collecting F).Inv cfg keys where
  started := Nat.zero_le _
  groups := rfl
  main := by
    show 0 = min (0 * cfg.batchSize) keys.length
    rw [zero_mul, Nat.zero_min]
  permits := rfl
  passed := rfl
  counted := rfl

theorem sum_map_concat {α : Type*} (f : α → ℕ) (l : List α) (a : α) :
    ((l ++ [a]).map f).sum = (l.map f).sum + f a := by
  rw [List.map_append, List.sum_append, List.map_singleton, List.sum_singleton]

/-- **A step of `collectDataOnce`** keeps the invariant and brings it nearer to its end. -/
theorem Collecting.Inv.stepMain (h : s.Inv cfg keys) (hstep : s.stepMain cfg keys = some s') :
    s'.Inv cfg keys ∧ s'.rank cfg keys < s.rank cfg keys := by
  obtain ⟨main, taken, fetches, rch⟩ := s
  obtain ⟨hstarted, hgroups, hmain, hpermits, hpassed, hcounted⟩ := h
  simp only at hstarted hgroups hmain hpermits hpassed hcounted
  cases main with
  | loop i =>
    have hi : i = min (fetches.length * cfg.batchSize) keys.length := hmain
    simp only [Collecting.stepMain] at hstep
    split_ifs at hstep with hmore hfree
    · -- `sema.Acquire()`
      obtain rfl := Option.some.inj hstep
      have hstand : i = fetches.length * cfg.batchSize := by omega
      refine ⟨⟨hstarted, hgroups, ⟨hstand, hmore⟩, ?_, hpassed, hcounted⟩, ?_⟩
      · exact congrArg (· + 1) hpermits
      · exact Nat.add_lt_add_left (Nat.lt_succ_self _) _
    · -- the end of the loop
      obtain rfl := Option.some.inj hstep
      have hcnt : fetches.length = batchCnt cfg keys := by
        refine le_antisymm hstarted (not_lt.mp fun hlt => ?_)
        have hleft := lt_batchCnt_iff.mp hlt
        omega
      refine ⟨⟨hstarted, hgroups, ⟨hcnt, Nat.zero_le _⟩, hpermits, hpassed, hcounted⟩, ?_⟩
      exact Nat.add_lt_add_left (Nat.lt_succ_self _) _
  | acquired i =>
    -- `go`
    obtain ⟨rfl, hmore⟩ := hmain
    obtain ⟨hslice, hstand⟩ := slice_round hmore
    have hsize : (if keys.length - fetches.length * cfg.batchSize < cfg.batchSize then
        keys.length - fetches.length * cfg.batchSize else cfg.batchSize) =
          min cfg.batchSize (keys.length - fetches.length * cfg.batchSize) := by
      split_ifs <;> omega
    simp only [Collecting.stepMain, hsize, hslice, hstand] at hstep
    obtain rfl := Option.some.inj hstep
    have hlt := lt_batchCnt_iff.mpr hmore
    refine ⟨⟨?_, ?_, ?_, ?_, ?_, ?_⟩, ?_⟩
    · rw [List.length_append]
      exact hlt
    · rw [List.map_append, hgroups, List.length_append]
      exact (slices_succ _).symm
    · rw [List.length_append]
      rfl
    · show taken = ((fetches ++ [_]).map Fetch.permit).sum + 0
      rw [sum_map_concat]
      exact hpermits
    · show 0 + rch.length = ((fetches ++ [_]).map Fetch.sent).sum
      rw [sum_map_concat]
      exact hpassed
    · show 0 + rch.sum = ((fetches ++ [_]).map Fetch.sentSize).sum
      rw [sum_map_concat]
      exact hcounted
    · show 5 * (batchCnt cfg keys - (fetches ++ [_]).length) +
          ((fetches ++ [_]).map Fetch.rank).sum + (batchCnt cfg keys + 2) <
        5 * (batchCnt cfg keys - fetches.length) + (fetches.map Fetch.rank).sum +
          (batchCnt cfg keys + 1)
      rw [sum_map_concat, List.length_append]
      show 5 * (batchCnt cfg keys - (fetches.length + 1)) + ((fetches.map Fetch.rank).sum + 3) +
          (batchCnt cfg keys + 2) < _
      omega
  | receiving n collectCnt =>
    obtain ⟨hcnt, hn⟩ := hmain
    simp only [Collecting.stepMain] at hstep
    split_ifs at hstep with hmore
    · -- a receive
      cases rch with
      | nil => cases hstep
      | cons size rest =>
        obtain rfl := Option.some.inj hstep
        have hpassed : n + (rest.length + 1) = (fetches.map Fetch.sent).sum := hpassed
        have hcounted : collectCnt + (size :: rest).sum = (fetches.map Fetch.sentSize).sum :=
          hcounted
        rw [List.sum_cons] at hcounted
        refine ⟨⟨hstarted, hgroups, ⟨hcnt, hmore⟩, hpermits, ?_, ?_⟩, ?_⟩
        · show n + 1 + rest.length = (fetches.map Fetch.sent).sum
          omega
        · show collectCnt + size + rest.sum = (fetches.map Fetch.sentSize).sum
          omega
        · refine Nat.add_lt_add_left ?_ _
          show batchCnt cfg keys - (n + 1) + 1 < batchCnt cfg keys - n + 1
          omega
    · -- the end
      obtain rfl := Option.some.inj hstep
      obtain rfl : n = batchCnt cfg keys := by omega
      refine ⟨⟨hstarted, hgroups, hcnt, hpermits, hpassed, hcounted⟩, ?_⟩
      exact Nat.add_lt_add_left (Nat.succ_pos _) _
  | returned collectCnt => cases hstep

/-- What a goroutine at another point leaves of the invariant. -/
theorem Collecting.Inv.set (h : s.Inv cfg keys) {k : ℕ} (hw : s.fetches[k]? = some w)
    (w' : Fetch F) (hkeys : w'.keys = w.keys) {taken : ℕ} {rch : List ℕ}
    (hpermits : taken + w.permit = s.taken + w'.permit)
    (hpassed : rch.length + w.sent = s.rch.length + w'.sent)
    (hcounted : rch.sum + w.sentSize = s.rch.sum + w'.sentSize) (hrank : w'.rank < w.rank) :
    Collecting.Inv cfg keys ⟨s.main, taken, s.fetches.set k w', rch⟩ ∧
      Collecting.rank cfg keys ⟨s.main, taken, s.fetches.set k w', rch⟩ < s.rank cfg keys := by
  have htotal : ∀ f : Fetch F → ℕ, ((s.fetches.set k w').map f).sum + f w = s.total f + f w' :=
    fun f => sum_map_set f hw w'
  have hlength : (s.fetches.set k w').length = s.fetches.length := List.length_set
  have hgroups : (s.fetches.set k w').map Fetch.keys = s.fetches.map Fetch.keys := by
    obtain ⟨hk, rfl⟩ := List.getElem?_eq_some_iff.mp hw
    rw [List.map_set, hkeys]
    have hself : (s.fetches.map Fetch.keys).set k ((s.fetches.map Fetch.keys).get ⟨k, by simpa⟩) =
        s.fetches.map Fetch.keys := List.set_getElem_self _
    simpa using hself
  refine ⟨⟨?_, ?_, ?_, ?_, ?_, ?_⟩, ?_⟩
  · rw [hlength]
    exact h.started
  · rw [hgroups, hlength]
    exact h.groups
  · rw [hlength]
    exact h.main
  · have hold := h.permits
    have hnew := htotal Fetch.permit
    show taken = ((s.fetches.set k w').map Fetch.permit).sum + s.main.permit
    omega
  · have hold := h.passed
    have hnew := htotal Fetch.sent
    show s.main.received (batchCnt cfg keys) + rch.length =
      ((s.fetches.set k w').map Fetch.sent).sum
    omega
  · have hold := h.counted
    have hnew := htotal Fetch.sentSize
    show s.main.collected + rch.sum = ((s.fetches.set k w').map Fetch.sentSize).sum
    omega
  · have hnew := htotal Fetch.rank
    unfold Collecting.rank
    rw [hlength]
    show 5 * (batchCnt cfg keys - s.fetches.length) + ((s.fetches.set k w').map Fetch.rank).sum +
      s.main.rank (batchCnt cfg keys) < _
    omega

/-- **A step of a goroutine** keeps the invariant and brings it nearer to its end. -/
theorem Collecting.Inv.stepFetch (h : s.Inv cfg keys) (hw : s.fetches[k]? = some w) {o : Outside F}
    (hstep : s.stepFetch cfg keys k w o = some s') :
    s'.Inv cfg keys ∧ s'.rank cfg keys < s.rank cfg keys := by
  obtain ⟨group, size, point⟩ := w
  cases point with
  | fetching =>
    obtain rfl := Option.some.inj hstep
    exact h.set hw ⟨group, size, .sending o⟩ rfl rfl rfl rfl (Nat.lt_succ_self 2)
  | sending found =>
    simp only [Collecting.stepFetch] at hstep
    split_ifs at hstep with hroom
    obtain rfl := Option.some.inj hstep
    refine h.set hw ⟨group, size, .releasing found⟩ rfl rfl ?_ ?_ (Nat.lt_succ_self 1)
    · rw [List.length_append]
      rfl
    · rw [List.sum_append, List.sum_singleton]
      rfl
  | releasing found =>
    obtain rfl := Option.some.inj hstep
    have hheld : 1 ≤ s.taken := by
      have hset : ((s.fetches.set k ⟨group, size, .ended found⟩).map Fetch.permit).sum + 1 =
          s.total Fetch.permit + 0 := sum_map_set Fetch.permit hw _
      have hpermits := h.permits
      omega
    refine h.set hw ⟨group, size, .ended found⟩ rfl ?_ rfl rfl (Nat.lt_succ_self 0)
    show s.taken - 1 + 1 = s.taken + 0
    omega
  | ended found => cases hstep

/-! ## Completion -/

/-- **No send has to wait**, and no other step of a goroutine. -/
theorem Collecting.Inv.exists_stepFetch (h : s.Inv cfg keys) (k : ℕ)
    (hended : ∀ o, w.point ≠ .ended o) (o : Outside F) :
    ∃ s', s.stepFetch cfg keys k w o = some s' := by
  obtain ⟨group, size, point⟩ := w
  cases point with
  | fetching => exact ⟨_, rfl⟩
  | sending found =>
    have hroom : s.rch.length < batchCnt cfg keys + 1 := by
      have hpassed := h.passed
      have hsent : s.total Fetch.sent ≤ s.fetches.length := sum_sent_le s.fetches
      have hstarted := h.started
      omega
    exact ⟨_, if_pos hroom⟩
  | releasing found => exact ⟨_, rfl⟩
  | ended found => exact absurd rfl (hended found)

theorem step_fetch (hw : s.fetches[k]? = some w) (o : Outside F) :
    s.step cfg keys (.fetch k o) = s.stepFetch cfg keys k w o := by
  rw [Collecting.step, hw, Option.bind_some]

/-- A goroutine that has not ended can make a step, if only because its request fails. -/
theorem Collecting.Inv.exists_step (h : s.Inv cfg keys) (hw : w ∈ s.fetches)
    (hended : ∀ o, w.point ≠ .ended o) : ∃ move s', s.step cfg keys move = some s' := by
  obtain ⟨k, hk⟩ := List.mem_iff_getElem?.mp hw
  have hfails : Outside F := ⟨fun _ => none, fun _ => .error "", 0⟩
  obtain ⟨s', hs'⟩ := h.exists_stepFetch k hended hfails
  exact ⟨.fetch k hfails, s', (step_fetch hk hfails).trans hs'⟩

/-- If permits are taken by goroutines or sizes are missing, a goroutine has not ended. -/
theorem Collecting.exists_not_ended
    (hsome : 0 < s.total Fetch.permit ∨ s.total Fetch.sent < s.fetches.length) :
    ∃ w ∈ s.fetches, ∀ o, w.point ≠ .ended o := by
  by_contra hall
  push Not at hall
  rcases hsome with hpermit | hsent
  · refine hpermit.ne' (List.sum_eq_zero (List.forall_mem_map.mpr fun w hw => ?_))
    obtain ⟨o, ho⟩ := hall w hw
    rw [Fetch.permit, ho]
  · refine hsent.not_ge ?_
    rw [← List.length_map Fetch.sent]
    refine List.length_le_sum_of_one_le _ (List.forall_mem_map.mpr fun w hw => ?_)
    obtain ⟨o, ho⟩ := hall w hw
    rw [Fetch.sent, ho]

/-- **Until `collectDataOnce` returns something can happen.** -/
theorem Collecting.Inv.progress (h : s.Inv cfg keys) (hmain : ∀ cnt, s.main ≠ .returned cnt) :
    ∃ move s', s.step cfg keys move = some s' := by
  have hown : (s.stepMain cfg keys).isSome = true → ∃ move s', s.step cfg keys move = some s' :=
    fun hsome => ⟨.main, Option.isSome_iff_exists.mp hsome⟩
  have hpassed := h.passed
  have hpermits := h.permits
  have hat := h.main
  cases hs : s.main with
  | loop i =>
    rw [hs] at hpermits
    by_cases hmore : i < keys.length
    · by_cases hfree : s.taken < cfg.permits
      · exact hown (by simp [Collecting.stepMain, hs, hmore, hfree])
      · -- all permits are taken, by goroutines
        have hpos := permits_pos cfg
        have hpermits : s.taken = s.total Fetch.permit := hpermits
        obtain ⟨w, hw, hended⟩ := Collecting.exists_not_ended (s := s) (Or.inl (by omega))
        exact h.exists_step hw hended
    · exact hown (by simp [Collecting.stepMain, hs, hmore])
  | acquired i => exact hown (by simp [Collecting.stepMain, hs])
  | receiving n collectCnt =>
    rw [hs] at hpassed hat
    by_cases hmore : n < batchCnt cfg keys
    · cases hrch : s.rch with
      | nil =>
        -- the sizes that are missing have not been sent
        have hpassed : n + s.rch.length = s.total Fetch.sent := hpassed
        rw [hrch, List.length_nil] at hpassed
        have hsent : s.total Fetch.sent < s.fetches.length := by
          rw [hat.1]
          omega
        obtain ⟨w, hw, hended⟩ := Collecting.exists_not_ended (Or.inr hsent)
        exact h.exists_step hw hended
      | cons size rest => exact hown (by simp [Collecting.stepMain, hs, hmore, hrch])
    · exact hown (by simp [Collecting.stepMain, hs, hmore])
  | returned cnt => exact absurd hs (hmain cnt)

/-- **Collecting completes**: whoever makes the next step, and whatever the fetches find. -/
theorem collecting_completes (cfg : CollectorConfig) (keys : List String) :
    Completes (Collecting.step (F := F) cfg keys) (Collecting.Inv cfg keys)
      (fun s => ∃ cnt, s.main = .returned cnt) (Collecting.rank cfg keys) := by
  have hstep : ∀ (s : Collecting F) move s', s.Inv cfg keys → s.step cfg keys move = some s' →
      s'.Inv cfg keys ∧ s'.rank cfg keys < s.rank cfg keys := by
    intro s move s' h hs'
    cases move with
    | main => exact h.stepMain hs'
    | fetch k o =>
      obtain ⟨w, hw, hs'⟩ := Option.bind_eq_some_iff.mp hs'
      exact h.stepFetch hw hs'
  exact {
    keep := fun s move s' h hs' => (hstep s move s' h hs').1
    drop := fun s move s' h hs' => (hstep s move s' h hs').2
    progress := fun s h hdone => h.progress fun cnt hcnt => hdone ⟨cnt, hcnt⟩ }

/-- When all sizes have been received, every goroutine has sent its own. -/
theorem Collecting.Inv.of_returned (h : s.Inv cfg keys) {cnt : ℕ} (hmain : s.main = .returned cnt) :
    (∀ w ∈ s.fetches, w.sent = 1) ∧ cnt = s.total Fetch.sentSize := by
  have hpassed := h.passed
  have hcounted := h.counted
  have hat := h.main
  rw [hmain] at hpassed hcounted hat
  have hlength : s.fetches.length = batchCnt cfg keys := hat
  have hpassed : batchCnt cfg keys + s.rch.length = s.total Fetch.sent := hpassed
  have hcounted : cnt + s.rch.sum = s.total Fetch.sentSize := hcounted
  have hle : s.total Fetch.sent ≤ s.fetches.length := sum_sent_le s.fetches
  constructor
  · intro w hw
    refine sent_of_length_le ?_ hw
    show s.fetches.length ≤ s.total Fetch.sent
    omega
  · have hempty : s.rch = [] := List.length_eq_zero_iff.mp (by omega)
    rw [hempty, List.sum_nil] at hcounted
    exact hcounted

theorem Fetch.exists_of_sent (h : w.sent = 1) :
    ∃ o : Outside F, (w.point = .releasing o ∨ w.point = .ended o) ∧
      w.sentSize = (fetchItemsAndStore o w.keys w.keySize).size := by
  obtain ⟨group, size, point⟩ := w
  cases point with
  | fetching => cases h
  | sending o => cases h
  | releasing o => exact ⟨o, Or.inl rfl, rfl⟩
  | ended o => exact ⟨o, Or.inr rfl, rfl⟩

/-- **Collecting covers every key and always returns.**  For every list of keys, every batch and
concurrency, and in every state reached by the steps of `collectDataOnce` and its goroutines in any
order, whatever the fetches find: the steps are bounded, and if nobody can make one,
`collectDataOnce` has returned; a goroutine that is to send its size does not have to wait; when the
loop is over as many goroutines have been started as sizes are waited for, and their keys are a
partition of the list into consecutive groups; and the number returned is the sum of the sizes of
all fetches. -/
theorem collectDataOnce_returns (cfg : CollectorConfig) (keys : List String)
    (moves : List (Move F)) (s : Collecting F)
    (hrun : Runs (Collecting.step cfg keys) Collecting.start moves s) :
    (moves.length ≤ 6 * batchCnt cfg keys + 2 ∧
      (Stuck (Collecting.step cfg keys) s → ∃ cnt, s.main = .returned cnt)) ∧
    (∀ k w found o, s.fetches[k]? = some w → w.point = .sending found →
      ∃ s', s.step cfg keys (.fetch k o) = some s') ∧
    ((∀ i, s.main ≠ .loop i ∧ s.main ≠ .acquired i) →
      s.fetches.length = batchCnt cfg keys ∧
        Sliced cfg.batchSize keys (s.fetches.map Fetch.keys)) ∧
    ∀ cnt, s.main = .returned cnt →
      (∀ w ∈ s.fetches, ∃ o : Outside F, (w.point = .releasing o ∨ w.point = .ended o) ∧
        w.sentSize = (fetchItemsAndStore o w.keys w.keySize).size) ∧
      cnt = (s.fetches.map Fetch.sentSize).sum := by
  have hcompletes := collecting_completes (F := F) cfg keys
  obtain ⟨hinv, hlength⟩ := hcompletes.of_runs (inv_start cfg keys) hrun
  have hrank : (Collecting.start : Collecting F).rank cfg keys = 6 * batchCnt cfg keys + 2 := by
    show 5 * batchCnt cfg keys + 0 + (batchCnt cfg keys + 2) = _
    omega
  refine ⟨⟨by omega, hcompletes.done_of_stuck hinv⟩, ?_, ?_, ?_⟩
  · intro k w found o hw hpoint
    obtain ⟨s', hs'⟩ := hinv.exists_stepFetch k (w := w) (by simp [hpoint]) o
    exact ⟨s', (step_fetch hw o).trans hs'⟩
  · intro hpast
    have hcnt : s.fetches.length = batchCnt cfg keys := by
      have hat := hinv.main
      cases hs : s.main with
      | loop i => exact absurd hs (hpast i).1
      | acquired i => exact absurd hs (hpast i).2
      | receiving n collectCnt =>
        rw [hs] at hat
        exact hat.1
      | returned collectCnt =>
        rw [hs] at hat
        exact hat
    refine ⟨hcnt, ?_⟩
    rw [hinv.groups, hcnt]
    exact sliced_slices (batchSize_pos cfg)
  · intro cnt hcnt
    obtain ⟨hsent, hsum⟩ := hinv.of_returned hcnt
    exact ⟨fun w hw => Fetch.exists_of_sent (hsent w hw), hsum⟩

/-- A configuration for the key, and an answer with one point. -/
def sampleOutside : Outside Unit where
  getNdConfig _ := some ⟨"host", "cpu.idle", ∅, "GAUGE", 60, ()⟩
  queryLastPoints _ := .ok [some ⟨"host", "cpu.idle", some ⟨60, ()⟩⟩]
  now := 70

/-- A run with one key: the goroutine is started, fetches and sends, and its size is received before
it gives back its permit. -/
def sampleMoves : List (Move Unit) :=
  [.main, .main, .fetch 0 sampleOutside, .main, .fetch 0 sampleOutside, .main, .main]

/-- The run returns, and it is not longer than it may be. -/
theorem collectDataOnce_returns_one :
    ∃ s, Runs (Collecting.step ⟨0, 0⟩ ["host/cpu.idle"]) Collecting.start sampleMoves s ∧
      s.main = .returned 1 ∧ s.taken = 1 ∧
      sampleMoves.length ≤ 6 * batchCnt ⟨0, 0⟩ ["host/cpu.idle"] + 2 := by
  refine ⟨⟨.returned 1, 1, [⟨["host/cpu.idle"], 1, .releasing sampleOutside⟩], []⟩,
    rfl, rfl, rfl, ?_⟩
  exact (collectDataOnce_returns ⟨0, 0⟩ ["host/cpu.idle"] sampleMoves _ rfl).1.1

end OpenFalcon.Nodata
