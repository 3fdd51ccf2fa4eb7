import OpenFalcon.Judge.Event

/-!
# A series under judgement

The judge side of one series, from the item that arrives to the events that
leave: `JudgeItemMap.PushFrontAndMaintain` puts the item into the list of the
series, and every related strategy and expression is evaluated on the list and
offered to `sendEventIfNeed`.

The configuration is read at every call and can be reloaded in between, so the
length of the list and the minimal interval may differ from one item to the next;
so may the strategies and expressions, which the judge fetches periodically.  A
strategy or expression comes with the function its text parses to; one whose text
does not parse is never evaluated.

`alarm_points_not_reused` is the reason for the guard on the oldest point: along
every run, an alarm that is raised uses no point that is as old as the alarm
before it.  The source looks at one point only.  That this is enough rests on
three facts about different files --- the list is newest first, the points are an
initial segment of it, and every function passes the points through --- and they
meet in `newestFirst_of_judgeItem`.
-/

namespace OpenFalcon.Judge

open Numeric Common Order

variable {F : Type} [Float64 F]

/-! ## One item -/

/-- The part `judgeItemWithStrategy` and `judgeItemWithExpression` share: the call
of `sendEventIfNeed`, when the function has enough points. -/
def judgeItem (fn : Function F) (event : F → EventBody F) (maxStep : Int)
    (L : List (JudgeItem F)) (now minInterval : Int) : Option (Option (Judgement F)) :=
  (fn.compute L).map fun r =>
    if r.isEnough then
      some ⟨r.vs, r.isTriggered, now, event r.leftValue, maxStep, minInterval⟩
    else none

variable (md5 : String → String)

/-- `JudgeItem.PrimaryKey`. -/
def JudgeItem.primaryKey (item : JudgeItem F) : String :=
  md5 (pk item.endpoint item.metric item.tags)

/-- `judgeItemWithStrategy`, `fn` being the parsed `strategy.Func`. -/
def judgeItemWithStrategy (strategy : Strategy F) (fn : Function F) (firstItem : JudgeItem F)
    (L : List (JudgeItem F)) (now minInterval : Int) : Option (Option (Judgement F)) :=
  judgeItem fn
    (fun leftValue =>
      { id := "s_" ++ toString strategy.id ++ "_" ++ firstItem.primaryKey md5
        strategy := some strategy
        expression := none
        endpoint := firstItem.endpoint
        leftValue := leftValue
        eventTime := firstItem.timestamp
        pushedTags := firstItem.tags })
    strategy.maxStep L now minInterval

/-- `judgeItemWithExpression`, `fn` being the parsed `expression.Func`. -/
def judgeItemWithExpression (expression : Expression F) (fn : Function F)
    (firstItem : JudgeItem F) (L : List (JudgeItem F)) (now minInterval : Int) :
    Option (Option (Judgement F)) :=
  judgeItem fn
    (fun leftValue =>
      { id := "e_" ++ toString expression.id ++ "_" ++ firstItem.primaryKey md5
        strategy := none
        expression := some expression
        endpoint := firstItem.endpoint
        leftValue := leftValue
        eventTime := firstItem.timestamp
        pushedTags := firstItem.tags })
    expression.maxStep L now minInterval

/-- A strategy or an expression related to the item, with its parsed function. -/
inductive Rule (F : Type) where
  | strategy (s : Strategy F) (fn : Function F)
  | expression (e : Expression F) (fn : Function F)

/-- Evaluate a rule on the list of a series. -/
def Rule.judge (rule : Rule F) (firstItem : JudgeItem F) (L : List (JudgeItem F))
    (now minInterval : Int) : Option (Option (Judgement F)) :=
  match rule with
  | .strategy s fn => judgeItemWithStrategy md5 s fn firstItem L now minInterval
  | .expression e fn => judgeItemWithExpression md5 e fn firstItem L now minInterval

/-- `Judge`: the related rules one after the other, each evaluated and offered. -/
def judgeRules (firstItem : JudgeItem F) (L : List (JudgeItem F)) (now minInterval : Int) :
    LastEvents F → List (Rule F) → Option (LastEvents F × List (Emission F))
  | lastEvents, [] => some (lastEvents, [])
  | lastEvents, rule :: rules =>
    (rule.judge md5 firstItem L now minInterval).bind fun
      | none => judgeRules firstItem L now minInterval lastEvents rules
      | some j =>
        (judge lastEvents j).bind fun p =>
          (judgeRules firstItem L now minInterval p.1 rules).map fun q => (q.1, p.2 ++ q.2)

/-! ## One series -/

/-- What the judge keeps about a series: its list, if it is in the map, and the
events last sent. -/
structure Series (F : Type) where
  list : Option (List (JudgeItem F))
  lastEvents : LastEvents F

/-- A series nothing is known about. -/
def Series.init : Series F := ⟨none, fun _ => none⟩

/-- What happens to a series: an item arrives, under the configuration and the
rules in force, or the cleaner looks for stale lists. -/
inductive Input (F : Type) where
  | push (item : JudgeItem F) (maxCount now minInterval : Int) (rules : List (Rule F))
  | cleanStale (before : Int)

/-- `JudgeItemMap.PushFrontAndMaintain` and `JudgeItemMap.CleanStale`. -/
def Series.step (s : Series F) : Input F → Option (Series F × List (Emission F))
  | .push item maxCount now minInterval rules =>
    let pushed :=
      match s.list with
      | some L => pushFrontAndMaintain L item maxCount
      | none => some ([item], true)
    pushed.bind fun p =>
      if p.2 then
        (judgeRules md5 item p.1 now minInterval s.lastEvents rules).map fun q =>
          (⟨some p.1, q.1⟩, q.2)
      else some (⟨some p.1, s.lastEvents⟩, [])
  | .cleanStale before =>
    match s.list.bind List.head? with
    | some front =>
      if front.timestamp < before then some (⟨none, s.lastEvents⟩, []) else some (s, [])
    | none => some (s, [])

/-- A run of a series. -/
def Series.run : Series F → List (Input F) → Option (Series F × List (Emission F))
  | s, [] => some (s, [])
  | s, i :: is =>
    (s.step md5 i).bind fun p => (Series.run p.1 is).map fun q => (q.1, p.2 ++ q.2)

/-! ## The judgements of a run -/

variable {md5}
variable {out : List (Emission F)}
variable {L : List (JudgeItem F)} {minInterval now : Int}
variable {firstItem : JudgeItem F} {j : Judgement F} {s' s : Series F}

/-- The history of a judgement is what `compute` returned for the list, so it is
newest first when the list is. -/
theorem newestFirst_of_judgeItem {fn : Function F} {event : F → EventBody F} {maxStep : Int}
    (hL : NewestFirst JudgeItem.timestamp L)
    (h : judgeItem fn event maxStep L now minInterval = some (some j)) :
    NewestFirst HistoryData.timestamp j.historyData := by
  obtain ⟨r, hr, hsend⟩ := Option.map_eq_some_iff.mp h
  obtain ⟨isEnough, hhist⟩ := vs_of_compute hr
  split at hsend
  · rw [← Option.some.inj hsend]
    exact newestFirst_historyData hL hhist
  · exact absurd hsend (by simp)

theorem newestFirst_of_rule_judge {rule : Rule F} (hL : NewestFirst JudgeItem.timestamp L)
    (h : rule.judge md5 firstItem L now minInterval = some (some j)) :
    NewestFirst HistoryData.timestamp j.historyData := by
  cases rule with
  | strategy s fn =>
    rw [Rule.judge, judgeItemWithStrategy] at h
    exact newestFirst_of_judgeItem hL h
  | expression e fn =>
    rw [Rule.judge, judgeItemWithExpression] at h
    exact newestFirst_of_judgeItem hL h

/-- Judging the rules of an item is a run of judgements over its list. -/
theorem judgeRules_eq_judgeAll {lastEvents st : LastEvents F} {rules : List (Rule F)}
    (hL : NewestFirst JudgeItem.timestamp L)
    (h : judgeRules md5 firstItem L now minInterval lastEvents rules = some (st, out)) :
    ∃ js, judgeAll lastEvents js = some (st, out) ∧
      ∀ j ∈ js, NewestFirst HistoryData.timestamp j.historyData := by
  induction rules generalizing lastEvents out with
  | nil => exact ⟨[], h, by simp⟩
  | cons rule rules ih =>
    obtain ⟨r, hr, hrest⟩ := Option.bind_eq_some_iff.mp h
    cases r with
    | none => exact ih hrest
    | some j =>
      obtain ⟨p, hp, hmap⟩ := Option.bind_eq_some_iff.mp hrest
      obtain ⟨⟨st', out'⟩, hq, heq⟩ := Option.map_eq_some_iff.mp hmap
      obtain ⟨rfl, rfl⟩ := Prod.mk.inj heq
      obtain ⟨js, hjs, hnew⟩ := ih hq
      refine ⟨j :: js, ?_, ?_⟩
      · rw [judgeAll, hp, Option.bind_some, hjs, Option.map_some]
      · intro j' hj'
        rcases List.mem_cons.mp hj' with rfl | hj'
        · exact newestFirst_of_rule_judge hL hr
        · exact hnew j' hj'

/-- The list of a series is newest first. -/
def Series.Ordered (s : Series F) : Prop :=
  ∀ L, s.list = some L → NewestFirst JudgeItem.timestamp L

/-- **One step of a series** keeps the list newest first and is a run of judgements
over newest-first histories. -/
theorem Series.step_spec {i : Input F} (hs : s.Ordered) (h : s.step md5 i = some (s', out)) :
    s'.Ordered ∧ ∃ js, judgeAll s.lastEvents js = some (s'.lastEvents, out) ∧
      ∀ j ∈ js, NewestFirst HistoryData.timestamp j.historyData := by
  have hsilent : ∀ {t : Series F}, t.lastEvents = s.lastEvents → ∃ js,
      judgeAll s.lastEvents js = some (t.lastEvents, []) ∧
        ∀ j ∈ js, NewestFirst HistoryData.timestamp j.historyData :=
    fun ht => ⟨[], by rw [ht]; rfl, by simp⟩
  cases i with
  | push item maxCount now minInterval rules =>
    obtain ⟨⟨L', needJudge⟩, hpush, hrest⟩ := Option.bind_eq_some_iff.mp h
    have hL' : NewestFirst JudgeItem.timestamp L' := by
      cases hlist : s.list with
      | none =>
        rw [hlist] at hpush
        obtain ⟨rfl, -⟩ := Prod.mk.inj (Option.some.inj hpush)
        exact newestFirst_singleton item
      | some L =>
        rw [hlist] at hpush
        exact newestFirst_pushFrontAndMaintain (hs L hlist) hpush
    have hordered : ∀ st : LastEvents F, Series.Ordered ⟨some L', st⟩ := by
      intro st L hL
      rw [← Option.some.inj hL]
      exact hL'
    split at hrest
    · obtain ⟨⟨st, out'⟩, hrules, heq⟩ := Option.map_eq_some_iff.mp hrest
      obtain ⟨rfl, rfl⟩ := Prod.mk.inj heq
      exact ⟨hordered st, judgeRules_eq_judgeAll hL' hrules⟩
    · obtain ⟨rfl, rfl⟩ := Prod.mk.inj (Option.some.inj hrest)
      exact ⟨hordered _, hsilent rfl⟩
  | cleanStale before =>
    rw [Series.step] at h
    split at h
    · split at h
      · obtain ⟨rfl, rfl⟩ := Prod.mk.inj (Option.some.inj h)
        exact ⟨fun L hL => absurd hL (by simp), hsilent rfl⟩
      · obtain ⟨rfl, rfl⟩ := Prod.mk.inj (Option.some.inj h)
        exact ⟨hs, hsilent rfl⟩
    · obtain ⟨rfl, rfl⟩ := Prod.mk.inj (Option.some.inj h)
      exact ⟨hs, hsilent rfl⟩

/-- **A run of a series is a run of judgements**, each over a newest-first
history. -/
theorem Series.run_spec {is : List (Input F)} (hs : s.Ordered) (h : s.run md5 is = some (s', out)) :
    ∃ js, judgeAll s.lastEvents js = some (s'.lastEvents, out) ∧
      ∀ j ∈ js, NewestFirst HistoryData.timestamp j.historyData := by
  induction is generalizing s out with
  | nil =>
    obtain ⟨rfl, rfl⟩ := Prod.mk.inj (Option.some.inj h)
    exact ⟨[], rfl, by simp⟩
  | cons i is ih =>
    obtain ⟨⟨s₁, out₁⟩, hstep, hrest⟩ := Option.bind_eq_some_iff.mp h
    obtain ⟨⟨s₂, out₂⟩, hrun, heq⟩ := Option.map_eq_some_iff.mp hrest
    obtain ⟨rfl, rfl⟩ := Prod.mk.inj heq
    obtain ⟨hs₁, js₁, hjs₁, hnew₁⟩ := Series.step_spec hs hstep
    obtain ⟨js₂, hjs₂, hnew₂⟩ := ih hs₁ hrun
    refine ⟨js₁ ++ js₂, judgeAll_append hjs₁ hjs₂, ?_⟩
    intro j hj
    rcases List.mem_append.mp hj with hj | hj
    · exact hnew₁ j hj
    · exact hnew₂ j hj

/-! ## Points are not reused -/

/-- **An alarm uses no point of the alarm before it.**  Along every run of a
series from scratch, when two successive events of an id are both problems, every
history point of the second is newer than the first event, and the second is
judged at least the minimal interval after it. -/
theorem alarm_points_not_reused {s : Series F} {is : List (Input F)} {out : List (Emission F)}
    (h : Series.init.run md5 is = some (s, out)) (id : String)
    {xs ys : List (Emission F)} {x y : Emission F} (hout : ofId id out = xs ++ x :: y :: ys)
    (hx : x.event.status = .PROBLEM) (hy : y.event.status = .PROBLEM) :
    (∀ p ∈ y.judgement.historyData, x.event.eventTime < p.timestamp) ∧
      x.event.eventTime + y.judgement.minInterval ≤ y.judgement.now := by
  have hinit : (Series.init : Series F).Ordered := fun L hL => absurd hL (by simp [Series.init])
  obtain ⟨js, hjs, hnew⟩ := Series.run_spec hinit h
  have hlinked : Linked none (ofId id out) := linked_judgeAll id hjs
  rw [hout] at hlinked
  have hsends : Sends (some x.event) y.judgement y.event := hlinked.sends_of_append
  have hmem : y ∈ out := by
    have hy' : y ∈ ofId id out := by rw [hout]; simp
    exact (List.mem_filter.mp hy').1
  have hold : NewestFirst HistoryData.timestamp y.judgement.historyData :=
    hnew _ (judgement_mem_of_mem_judgeAll hjs hmem)
  obtain ⟨hne, hfresh, hinterval⟩ := hsends.fresh hx hy
  exact ⟨fun p hp => lt_of_lt_of_le hfresh (hold.stamp_getLast_le hne hp), hinterval⟩

/-- A point of a gauge, for the run below. -/
def samplePoint (timestamp : Int) : JudgeItem QFloat :=
  ⟨"host", "cpu", .num 90, timestamp, .GAUGE, ∅⟩

/-- The strategy `max(#1) > 80`, for the run below. -/
def sampleRule : Rule QFloat :=
  .strategy ⟨1, "cpu", ∅, "max(#1)", ">", .num 80, 3, 0, "", none⟩ ⟨.max 1, ">", .num 80⟩

/-- Two points, a minute apart. -/
def sampleInputs : List (Input QFloat) :=
  [.push (samplePoint 60) 10 60 60 [sampleRule], .push (samplePoint 120) 10 120 60 [sampleRule]]

/-- Two points a minute apart raise an alarm twice. -/
theorem alarm_points_not_reused_two_alarms :
    ∃ s out x y, Series.init.run (fun text => text) sampleInputs = some (s, out) ∧
      ofId "s_1_host/cpu" out = [x, y] ∧
      x.event.status = .PROBLEM ∧ y.event.status = .PROBLEM ∧
      (∀ p ∈ y.judgement.historyData, x.event.eventTime < p.timestamp) ∧
      x.event.eventTime + y.judgement.minInterval ≤ y.judgement.now := by
  obtain ⟨s, out, hrun⟩ :
      ∃ s out, Series.init.run (fun text => text) sampleInputs = some (s, out) := ⟨_, _, rfl⟩
  obtain ⟨x, y, hxy, hx, hy⟩ : ∃ x y, ofId "s_1_host/cpu" out = [x, y] ∧
      x.event.status = .PROBLEM ∧ y.event.status = .PROBLEM := by
    obtain ⟨-, rfl⟩ := Prod.mk.inj (Option.some.inj hrun)
    exact ⟨_, _, rfl, rfl, rfl⟩
  have hsplit : ofId "s_1_host/cpu" out = [] ++ x :: y :: [] := hxy
  have hfresh := alarm_points_not_reused hrun "s_1_host/cpu" hsplit hx hy
  exact ⟨s, out, x, y, hrun, hxy, hx, hy, hfresh.1, hfresh.2⟩

end OpenFalcon.Judge
