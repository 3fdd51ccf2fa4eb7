import OpenFalcon.Nodata.Sender
import OpenFalcon.Numeric.Float64

/-!
# The judge of nodata

`modules/nodata/judge`.  Once a minute `judge` looks at the newest point collected for every
configured key.  A point that is too old, or that is itself a mock, means that the series has
stopped reporting; then a mock is generated with a timestamp two to three steps in the past,
at most one per step.

A mock must not get in the way of real points.  Its timestamp is later than the expired point
it stands in for, and later than every earlier mock of the key (`mocks_safe`).  Everything
hangs on two facts: the status of a key never lies ahead of the clock and never behind the
last mock (`Judged`), and `genTs` jumps by at least a step whenever the clock does
(`genTs_lt_genTs`).
-/

namespace OpenFalcon.Nodata

open Numeric Common Machine

variable {F : Type}

/-! ## The source -/

/-- `model.NodataConfig`. -/
structure NodataConfig (F : Type) where
  endpoint : String
  metric : String
  tags : Tags
  type : String
  step : Int
  mock : F

/-- Whether the collector could fetch the point. -/
inductive FStatus where
  | ok
  | err
  deriving DecidableEq

/-- `collector.DataItem`: the newest point of a series, and how and when it was fetched. -/
structure DataItem (F : Type) where
  ts : Int
  value : F
  fStatus : FStatus
  fTs : Int

/-- The status texts of a key. -/
inductive Turn where
  | ok
  | nodata
  deriving DecidableEq

/-- `NodataStatus`. -/
structure NodataStatus where
  status : Turn
  cnt : Int
  ts : Int

/-- `LastTs`: zero for a key without a status. -/
def lastTs (statusMap : GoMap String NodataStatus) (key : String) : Int :=
  ((statusMap.lookup key).map NodataStatus.ts).getD 0

/-- `TurnOk`. -/
def turnOk (statusMap : GoMap String NodataStatus) (key : String) (ts : Int) :
    GoMap String NodataStatus :=
  statusMap.insert key ⟨.ok, 0, ts⟩

/-- `TurnNodata`: a new status counts one. -/
def turnNodata (statusMap : GoMap String NodataStatus) (key : String) (ts : Int) :
    GoMap String NodataStatus :=
  statusMap.insert key ⟨.nodata, ((statusMap.lookup key).map NodataStatus.cnt).getD 0 + 1, ts⟩

/-- `genTs`. -/
def genTs (nowTs step : Int) : Int :=
  if step < 1 then nowTs - Int.tmod nowTs 60 - 2 * 60 else nowTs - Int.tmod nowTs step - 2 * step

/-- `getTimeout`. -/
def getTimeout (step : Int) : Int :=
  if step < 60 then 180 else step * 3

/-- Why a mock is generated: the point is a mock itself, or it is too old. -/
inductive Cause where
  | mocked
  | expired
  deriving DecidableEq

/-- One call of `genMock`: its key and mock, and for the record the time of the round, the
cause and the point that was judged. -/
structure Generated (F : Type) where
  key : String
  now : Int
  cause : Cause
  item : DataItem F
  mock : JsonMetaData F

/-- `StatusMap`, and the mocks generated so far. -/
structure JudgeState (F : Type) where
  statusMap : GoMap String NodataStatus
  generated : List (Generated F)

/-- `genMock`: what it hands to `AddMock`. -/
def genMock (ts : Int) (ndcfg : NodataConfig F) : JsonMetaData F where
  metric := ndcfg.metric
  endpoint := ndcfg.endpoint
  timestamp := ts
  step := ndcfg.step
  value := ndcfg.mock
  counterType := ndcfg.type
  tags := sortedTags ndcfg.tags

/-- The body of the two branches for a series that has stopped reporting. -/
def JudgeState.mockUnlessRecent (s : JudgeState F) (now : Int) (key : String)
    (ndcfg : NodataConfig F) (cause : Cause) (item : DataItem F) : JudgeState F :=
  if lastTs s.statusMap key + ndcfg.step ≤ now then
    ⟨turnNodata s.statusMap key now,
      s.generated ++ [⟨key, now, cause, item, genMock (genTs now ndcfg.step) ndcfg⟩]⟩
  else s

section

variable [Float64 F]

/-- `fCompare`. -/
def fCompare (left right : F) : Int :=
  if Float64.lt (Float64.ofRat (-0.000001)) (left - right) &&
      Float64.lt (left - right) (Float64.ofRat 0.000001) then 0
  else if Float64.le (Float64.ofRat 0.000001) (left - right) then 1
  else -1

/-- The body of the loop of `judge`, after the configuration and the newest point are found. -/
def JudgeState.judgeItem (s : JudgeState F) (now : Int) (key : String) (ndcfg : NodataConfig F)
    (item : DataItem F) : JudgeState F :=
  if item.fStatus ≠ .ok ∨ item.fTs < now - getTimeout ndcfg.step then s
  else if fCompare ndcfg.mock item.value = 0 then
    s.mockUnlessRecent now key ndcfg .mocked item
  else if item.ts < now - getTimeout ndcfg.step then
    s.mockUnlessRecent now key ndcfg .expired item
  else { s with statusMap := turnOk s.statusMap key now }

/-- The body of the loop of `judge`. -/
def JudgeState.judgeKey (s : JudgeState F) (now : Int) (key : String) :
    Option (NodataConfig F) → Option (DataItem F) → JudgeState F
  | some ndcfg, some item => s.judgeItem now key ndcfg item
  | _, _ => s

/-- What one call of `judge` finds: the clock, `config.Keys()`, `config.GetNdConfig` and
`collector.GetFirstItem`. -/
structure Round (F : Type) where
  now : Int
  keys : List String
  getNdConfig : String → Option (NodataConfig F)
  getFirstItem : String → Option (DataItem F)

/-- `judge`. -/
def judge (s : JudgeState F) (r : Round F) : JudgeState F :=
  r.keys.foldl (fun s key => s.judgeKey r.now key (r.getNdConfig key) (r.getFirstItem key)) s

end

/-- Before the first round. -/
def JudgeState.start : JudgeState F := ⟨∅, []⟩

/-- The mocks generated for a key, the oldest first. -/
def JudgeState.mocksOf (s : JudgeState F) (key : String) : List (Generated F) :=
  s.generated.filter fun g => g.key = key

/-! ## Timestamps -/

section

variable {now now' step : Int}

theorem genTs_of_one_le (hstep : 1 ≤ step) : genTs now step = now - Int.tmod now step - 2 * step :=
  if_neg (by omega)

/-- A mock lies on the grid of its series, two to three steps back. -/
theorem genTs_spec (hstep : 1 ≤ step) (hnow : 0 ≤ now) :
    step ∣ genTs now step ∧ genTs now step ≤ now - 2 * step ∧
      now - 3 * step < genTs now step := by
  rw [genTs_of_one_le hstep, Int.tmod_eq_emod_of_nonneg hnow]
  have hlow : 0 ≤ now % step := Int.emod_nonneg now (by omega)
  have hhigh : now % step < step := Int.emod_lt_of_pos now (by omega)
  refine ⟨?_, by omega, by omega⟩
  exact Int.dvd_sub (Int.dvd_self_sub_emod) (Dvd.intro_left 2 rfl)

theorem genTs_lt_genTs (hstep : 1 ≤ step) (hnow : 0 ≤ now) (hlater : now + step ≤ now') :
    genTs now step < genTs now' step := by
  obtain ⟨_, hupper, _⟩ := genTs_spec hstep hnow
  have hnow' : 0 ≤ now' := by omega
  obtain ⟨_, _, hlower⟩ := genTs_spec hstep hnow'
  omega

theorem three_mul_le_getTimeout (step : Int) : 3 * step ≤ getTimeout step := by
  rw [getTimeout]
  split_ifs <;> omega

end

/-! ## The status of a key -/

section

variable {statusMap : GoMap String NodataStatus} {key key' : String} {ts : Int}

@[simp] theorem lastTs_turnOk : lastTs (turnOk statusMap key ts) key = ts := by
  rw [lastTs, turnOk, AList.lookup_insert]
  rfl

@[simp] theorem lastTs_turnNodata : lastTs (turnNodata statusMap key ts) key = ts := by
  rw [lastTs, turnNodata, AList.lookup_insert]
  rfl

theorem lastTs_turnOk_of_ne (h : key ≠ key') :
    lastTs (turnOk statusMap key' ts) key = lastTs statusMap key := by
  rw [lastTs, turnOk, AList.lookup_insert_ne h]
  rfl

theorem lastTs_turnNodata_of_ne (h : key ≠ key') :
    lastTs (turnNodata statusMap key' ts) key = lastTs statusMap key := by
  rw [lastTs, turnNodata, AList.lookup_insert_ne h]
  rfl

end

/-! ## Rounds -/

/-- What is known of a mock from the round that generated it. -/
structure Generated.Made (step : Int) (g : Generated F) : Prop where
  nonneg : 0 ≤ g.now
  timestamp : g.mock.timestamp = genTs g.now step
  expired : g.cause = .expired → g.item.ts < g.now - getTimeout step

/-- The status of the key is not ahead of the clock and not behind the last mock, and the
mocks are at least a step apart. -/
structure JudgeState.Judged (key : String) (step clock : Int) (s : JudgeState F) : Prop where
  lastTs_le : lastTs s.statusMap key ≤ clock
  made : ∀ g ∈ s.mocksOf key, g.Made step
  recorded : ∀ g ∈ s.mocksOf key, g.now ≤ lastTs s.statusMap key
  apart : (s.mocksOf key).Pairwise fun g g' => g.now + step ≤ g'.now

section

variable {s : JudgeState F} {key key' : String} {step clock now : Int} {ndcfg : NodataConfig F}

theorem judged_start (key : String) (step : Int) :
    (JudgeState.start : JudgeState F).Judged key step 0 :=
  ⟨le_rfl, fun _ h => absurd h List.not_mem_nil, fun _ h => absurd h List.not_mem_nil,
    List.Pairwise.nil⟩

theorem JudgeState.Judged.mono (h : s.Judged key step clock) (hclock : clock ≤ now) :
    s.Judged key step now :=
  { h with lastTs_le := h.lastTs_le.trans hclock }

/-- The judge knows a key by its status and its mocks only. -/
theorem JudgeState.Judged.of_eq {s' : JudgeState F} (h : s.Judged key step clock)
    (hstatus : lastTs s'.statusMap key = lastTs s.statusMap key)
    (hmocks : s'.mocksOf key = s.mocksOf key) : s'.Judged key step clock := by
  obtain ⟨hle, hmade, hrec, hapart⟩ := h
  rw [← hstatus] at hle hrec
  rw [← hmocks] at hmade hrec hapart
  exact ⟨hle, hmade, hrec, hapart⟩

theorem JudgeState.Judged.turnOk (h : s.Judged key step now) :
    ({ s with statusMap := turnOk s.statusMap key now } : JudgeState F).Judged key step now where
  lastTs_le := lastTs_turnOk.le
  made := h.made
  recorded g hg := by
    rw [lastTs_turnOk]
    exact (h.recorded g hg).trans h.lastTs_le
  apart := h.apart

theorem JudgeState.Judged.mockUnlessRecent (h : s.Judged key step now) (hnow : 0 ≤ now)
    (hstep : ndcfg.step = step) {cause : Cause} {item : DataItem F}
    (hcause : cause = .expired → item.ts < now - getTimeout step) :
    (s.mockUnlessRecent now key ndcfg cause item).Judged key step now := by
  subst hstep
  rw [JudgeState.mockUnlessRecent]
  split_ifs with hrecent
  · have hmocks : JudgeState.mocksOf
        ⟨turnNodata s.statusMap key now, s.generated ++
          [⟨key, now, cause, item, genMock (genTs now ndcfg.step) ndcfg⟩]⟩ key =
        s.mocksOf key ++ [⟨key, now, cause, item, genMock (genTs now ndcfg.step) ndcfg⟩] := by
      simp [JudgeState.mocksOf, List.filter_append]
    refine ⟨lastTs_turnNodata.le, ?_, ?_, ?_⟩
    · rw [hmocks]
      intro g hg
      rcases List.mem_append.mp hg with hg | hg
      · exact h.made g hg
      · rw [List.mem_singleton.mp hg]
        exact ⟨hnow, rfl, hcause⟩
    · rw [hmocks, lastTs_turnNodata]
      intro g hg
      rcases List.mem_append.mp hg with hg | hg
      · exact (h.recorded g hg).trans h.lastTs_le
      · rw [List.mem_singleton.mp hg]
    · rw [hmocks, List.pairwise_append]
      refine ⟨h.apart, List.pairwise_singleton _ _, fun g hg g' hg' => ?_⟩
      rw [List.mem_singleton.mp hg']
      exact (Int.add_le_add_right (h.recorded g hg) _).trans hrecent
  · exact h

/-- What happens to another key is nothing to this one. -/
theorem mockUnlessRecent_of_ne (hne : key ≠ key') (ndcfg : NodataConfig F) (cause : Cause)
    (item : DataItem F) :
    lastTs (s.mockUnlessRecent now key' ndcfg cause item).statusMap key =
        lastTs s.statusMap key ∧
      (s.mockUnlessRecent now key' ndcfg cause item).mocksOf key = s.mocksOf key := by
  rw [JudgeState.mockUnlessRecent]
  split_ifs with hrecent
  · refine ⟨lastTs_turnNodata_of_ne hne, ?_⟩
    simp [JudgeState.mocksOf, List.filter_append, hne.symm]
  · exact ⟨rfl, rfl⟩

variable [Float64 F]

theorem judgeItem_of_ne (s : JudgeState F) (now : Int) (hne : key ≠ key')
    (ndcfg : NodataConfig F) (item : DataItem F) :
    lastTs (s.judgeItem now key' ndcfg item).statusMap key = lastTs s.statusMap key ∧
      (s.judgeItem now key' ndcfg item).mocksOf key = s.mocksOf key := by
  rw [JudgeState.judgeItem]
  split_ifs
  · exact ⟨rfl, rfl⟩
  · exact mockUnlessRecent_of_ne hne ndcfg .mocked item
  · exact mockUnlessRecent_of_ne hne ndcfg .expired item
  · exact ⟨lastTs_turnOk_of_ne hne, rfl⟩

theorem JudgeState.Judged.judgeItem (h : s.Judged key step now) (hnow : 0 ≤ now)
    (hstep : ndcfg.step = step) (item : DataItem F) :
    (s.judgeItem now key ndcfg item).Judged key step now := by
  rw [JudgeState.judgeItem]
  split_ifs with hfetch hmock hexpired
  · exact h
  · exact h.mockUnlessRecent hnow hstep fun hcause => by cases hcause
  · exact h.mockUnlessRecent hnow hstep fun _ => hstep ▸ hexpired
  · exact h.turnOk

theorem JudgeState.Judged.judgeKey (h : s.Judged key step now) (hnow : 0 ≤ now) (key' : String)
    {ndcfg : Option (NodataConfig F)} (hstep : key' = key → ∀ c ∈ ndcfg, c.step = step)
    (item : Option (DataItem F)) : (s.judgeKey now key' ndcfg item).Judged key step now := by
  cases ndcfg with
  | none => exact h
  | some ndcfg =>
    cases item with
    | none => exact h
    | some item =>
      by_cases hkey : key' = key
      · subst hkey
        exact h.judgeItem hnow (hstep rfl ndcfg rfl) item
      · obtain ⟨hstatus, hmocks⟩ := judgeItem_of_ne s now (Ne.symm hkey) ndcfg item
        exact h.of_eq hstatus hmocks

theorem JudgeState.Judged.judge (h : s.Judged key step clock) {r : Round F}
    (hclock : clock ≤ r.now) (hnow : 0 ≤ r.now)
    (hstep : ∀ c ∈ r.getNdConfig key, c.step = step) : (judge s r).Judged key step r.now := by
  refine List.foldlRecOn r.keys _ (h.mono hclock) fun s hs key' _ => ?_
  exact hs.judgeKey hnow key' (fun hkey => hkey ▸ hstep) (r.getFirstItem key')

theorem JudgeState.Judged.foldl_judge (rounds : List (Round F)) (h : s.Judged key step clock)
    (hclock : ∀ r ∈ rounds, clock ≤ r.now)
    (htimes : rounds.Pairwise fun r r' => r.now < r'.now) (hnow : ∀ r ∈ rounds, 0 ≤ r.now)
    (hstep : ∀ r ∈ rounds, ∀ c ∈ r.getNdConfig key, c.step = step) :
    ∃ clock', (rounds.foldl Nodata.judge s).Judged key step clock' := by
  induction rounds generalizing s clock with
  | nil => exact ⟨clock, h⟩
  | cons r rounds ih =>
    rw [List.forall_mem_cons] at hclock hnow hstep
    obtain ⟨hlater, htimes⟩ := List.pairwise_cons.mp htimes
    exact ih (h.judge hclock.1 hnow.1 hstep.1) (fun r' hr' => (hlater r' hr').le) htimes
      hnow.2 hstep.2

/-- The mocks of a key after a run: what is known of each, and the time between any two. -/
theorem exists_judged (key : String) {step : Int} {rounds : List (Round F)}
    (hfixed : ∀ r ∈ rounds, ∀ c ∈ r.getNdConfig key, c.step = step)
    (htimes : rounds.Pairwise fun r r' => r.now < r'.now) (hnow : ∀ r ∈ rounds, 0 ≤ r.now) :
    ∃ clock, (rounds.foldl judge JudgeState.start).Judged key step clock :=
  (judged_start key step).foldl_judge rounds hnow htimes hnow hfixed

omit [Float64 F] in
/-- Mocks that are a step apart have increasing timestamps. -/
theorem JudgeState.Judged.timestamps (h : s.Judged key step clock) (hstep : 1 ≤ step) :
    (s.mocksOf key).Pairwise fun g g' =>
      g.mock.timestamp < g'.mock.timestamp ∧ g.now + step ≤ g'.now := by
  refine h.apart.imp_of_mem fun {g g'} hg hg' hapart => ⟨?_, hapart⟩
  rw [(h.made g hg).timestamp, (h.made g' hg').timestamp]
  exact genTs_lt_genTs hstep (h.made g hg).nonneg hapart

/-- **Mocks are safe to inject.**  For a key whose step stays the same and rounds at increasing
times, the timestamps of its mocks are increasing multiples of the step, two to three steps
behind the round and, if the newest point had expired, later than that point; and the mocks
are generated at least a step apart. -/
theorem mocks_safe (key : String) {step : Int} (hstep : 1 ≤ step) (rounds : List (Round F))
    (hfixed : ∀ r ∈ rounds, ∀ c ∈ r.getNdConfig key, c.step = step)
    (htimes : rounds.Pairwise fun r r' => r.now < r'.now) (hnow : ∀ r ∈ rounds, 0 ≤ r.now) :
    (∀ g ∈ (rounds.foldl judge JudgeState.start).mocksOf key,
        step ∣ g.mock.timestamp ∧ g.mock.timestamp ≤ g.now - 2 * step ∧
          g.now - 3 * step < g.mock.timestamp ∧
          (g.cause = .expired → g.item.ts < g.mock.timestamp)) ∧
      ((rounds.foldl judge JudgeState.start).mocksOf key).Pairwise fun g g' =>
        g.mock.timestamp < g'.mock.timestamp ∧ g.now + step ≤ g'.now := by
  obtain ⟨clock, hjudged⟩ := exists_judged key hfixed htimes hnow
  refine ⟨fun g hg => ?_, hjudged.timestamps hstep⟩
  obtain ⟨hnonneg, hts, hexpired⟩ := hjudged.made g hg
  obtain ⟨hdvd, hupper, hlower⟩ := genTs_spec hstep hnonneg
  rw [hts]
  refine ⟨hdvd, hupper, hlower, fun hcause => ?_⟩
  have htimeout := three_mul_le_getTimeout step
  have hold := hexpired hcause
  omega

/-- A round that finds a series of step 60 silent since time 100. -/
def silentRound (now : Int) : Round QFloat where
  now := now
  keys := ["host/cpu"]
  getNdConfig _ := some ⟨"host", "cpu", ∅, "GAUGE", 60, .num (-1)⟩
  getFirstItem _ := some ⟨100, .num 5, .ok, now⟩

/-- Three rounds a minute apart: a mock in each of them. -/
theorem mocks_safe_silent :
    (([600, 660, 725].map silentRound).foldl judge JudgeState.start).mocksOf "host/cpu" ≠ [] ∧
      (∀ g ∈ (([600, 660, 725].map silentRound).foldl judge JudgeState.start).mocksOf
          "host/cpu",
        60 ∣ g.mock.timestamp ∧ g.mock.timestamp ≤ g.now - 2 * 60 ∧
          g.now - 3 * 60 < g.mock.timestamp ∧
          (g.cause = .expired → g.item.ts < g.mock.timestamp)) ∧
      ((([600, 660, 725].map silentRound).foldl judge JudgeState.start).mocksOf
          "host/cpu").Pairwise fun g g' =>
        g.mock.timestamp < g'.mock.timestamp ∧ g.now + 60 ≤ g'.now := by
  refine ⟨?_, mocks_safe "host/cpu" (by decide) _ ?_ ?_ ?_⟩
  · intro hnil
    have hcount := congrArg List.length hnil
    exact absurd hcount (by decide +kernel)
  · intro r hr c hc
    obtain ⟨now, _, rfl⟩ := List.mem_map.mp hr
    rw [← Option.some_inj.mp hc]
  · decide
  · decide

end

end OpenFalcon.Nodata
