import OpenFalcon.Judge.Func
import OpenFalcon.Common.Model

/-!
# When a judgement becomes an event

`sendEventIfNeed` of `modules/judge/store/judge.go`.  The judge remembers one
thing about an event id: the last event it sent for it.  A judgement that
triggers opens an alarm when there was none, raises its step when there was one,
and stays silent when the steps are used up, when the oldest point was already
part of an alarm, or when the last alarm is too recent.  A judgement that does
not trigger closes an open alarm.

## The language of an id

Read along a run, the events of one id spell blocks

    PROBLEM(1) PROBLEM(2) ... PROBLEM(k) OK

one after the other, the last one possibly unfinished.  `alarm_event_grammar`
says this of every run, with the bounds on the steps.  The memory of the last
event is exactly the position in the current block, which is the invariant
`Spells`; `sendEventIfNeed_cases` is the one place where the branches of the
source are looked at.
-/

namespace OpenFalcon.Judge

open Numeric Common Order

/-- `Event.Status`. -/
inductive Status where
  | PROBLEM
  | OK
  deriving DecidableEq

/-- A `model.Event` before `sendEventIfNeed` writes its status and step. -/
structure EventBody (F : Type) where
  id : String
  strategy : Option (Strategy F)
  expression : Option (Expression F)
  endpoint : String
  leftValue : F
  eventTime : Int
  pushedTags : Tags

/-- `model.Event`. -/
structure Event (F : Type) extends EventBody F where
  status : Status
  currentStep : Int

/-- `g.LastEvents`: the last event sent for each id. -/
abbrev LastEvents (F : Type) := String → Option (Event F)

/-- The arguments of a call of `sendEventIfNeed`, with the `MinInterval` of the
configuration in force. -/
structure Judgement (F : Type) where
  historyData : List (HistoryData F)
  isTriggered : Bool
  now : Int
  event : EventBody F
  maxStep : Int
  minInterval : Int

variable {F : Type} {last : Option (Event F)} {lastEvents st : LastEvents F} {j : Judgement F}
  {js : List (Judgement F)}

/-- `sendEventIfNeed`: the event handed to `sendEvent`, if any.  Reading the last
point of an empty history panics. -/
def sendEventIfNeed (lastEvents : LastEvents F) (j : Judgement F) : Option (Option (Event F)) :=
  let last := lastEvents j.event.id
  if j.isTriggered then
    match last with
    | some ⟨lastBody, .PROBLEM, lastStep⟩ =>
      if j.maxStep ≤ lastStep then some none
      else
        (j.historyData.getLast?).map fun oldest =>
          if oldest.timestamp ≤ lastBody.eventTime then none
          else if j.now - lastBody.eventTime < j.minInterval then none
          else some ⟨j.event, .PROBLEM, lastStep + 1⟩
    | _ => if j.maxStep = 0 then some none else some (some ⟨j.event, .PROBLEM, 1⟩)
  else
    match last with
    | some ⟨_, .PROBLEM, _⟩ => some (some ⟨j.event, .OK, 1⟩)
    | _ => some none

/-- The first thing `sendEvent` does: remember the event. -/
def sendEvent (lastEvents : LastEvents F) (e : Event F) : LastEvents F :=
  Function.update lastEvents e.id (some e)

/-- An event that was sent, and the judgement it came from. -/
structure Emission (F : Type) where
  judgement : Judgement F
  event : Event F

/-- One judgement: the memory afterwards, and what was sent. -/
def judge (lastEvents : LastEvents F) (j : Judgement F) :
    Option (LastEvents F × List (Emission F)) :=
  (sendEventIfNeed lastEvents j).map fun r =>
    match r with
    | none => (lastEvents, [])
    | some e => (sendEvent lastEvents e, [⟨j, e⟩])

/-- A run of judgements, of any ids. -/
def judgeAll : LastEvents F → List (Judgement F) →
    Option (LastEvents F × List (Emission F))
  | lastEvents, [] => some (lastEvents, [])
  | lastEvents, j :: js =>
    (judge lastEvents j).bind fun p =>
      (judgeAll p.1 js).map fun q => (q.1, p.2 ++ q.2)

/-! ## What one judgement does -/

/-- The event a judgement sends, and what was remembered before it: a new alarm,
the next step of an open one, or the end of an open one. -/
inductive Sends (last : Option (Event F)) (j : Judgement F) : Event F → Prop where
  | opens (hidle : ∀ l, last = some l → l.status = .OK) (hmax : j.maxStep ≠ 0) :
      Sends last j ⟨j.event, .PROBLEM, 1⟩
  | raises (l : Event F) (hlast : last = some l) (hstatus : l.status = .PROBLEM)
      (hstep : l.currentStep < j.maxStep) (hne : j.historyData ≠ [])
      (hnew : l.eventTime < (j.historyData.getLast hne).timestamp)
      (hinterval : l.eventTime + j.minInterval ≤ j.now) :
      Sends last j ⟨j.event, .PROBLEM, l.currentStep + 1⟩
  | closes (l : Event F) (hlast : last = some l) (hstatus : l.status = .PROBLEM) :
      Sends last j ⟨j.event, .OK, 1⟩

/-- **What a judgement can send**, every guard of the source included. -/
theorem sendEventIfNeed_cases {e : Event F} (h : sendEventIfNeed lastEvents j = some (some e)) :
    Sends (lastEvents j.event.id) j e := by
  unfold sendEventIfNeed at h
  simp only at h
  split at h
  case isTrue htrig =>
    split at h
    case h_1 lastBody lastStep hlast =>
      split at h
      case isTrue => simp at h
      case isFalse hstep =>
        obtain ⟨oldest, holdest, hsend⟩ := Option.map_eq_some_iff.mp h
        have hne : j.historyData ≠ [] := by
          rintro hnil
          rw [hnil] at holdest
          simp at holdest
        have hold : j.historyData.getLast hne = oldest := by
          rw [List.getLast?_eq_some_getLast hne] at holdest
          exact Option.some.inj holdest
        split at hsend
        case isTrue => simp at hsend
        case isFalse hnew =>
          split at hsend
          case isTrue => simp at hsend
          case isFalse hint =>
            rw [← Option.some.inj hsend]
            refine Sends.raises ⟨lastBody, .PROBLEM, lastStep⟩ hlast rfl ?_ hne ?_ ?_
            · exact not_le.mp hstep
            · rw [hold]; exact not_le.mp hnew
            · show lastBody.eventTime + j.minInterval ≤ j.now
              omega
    case h_2 hother =>
      split at h
      case isTrue => simp at h
      case isFalse hmax =>
        rw [← Option.some.inj (Option.some.inj h)]
        refine Sends.opens ?_ hmax
        rintro ⟨body, status, step⟩ hl
        cases status with
        | PROBLEM => exact absurd hl (hother body step)
        | OK => rfl
  case isFalse =>
    split at h
    case h_1 body step hlast =>
      rw [← Option.some.inj (Option.some.inj h)]
      exact Sends.closes _ hlast rfl
    case h_2 => simp at h

theorem exists_sendEventIfNeed (lastEvents : LastEvents F) (hne : j.historyData ≠ []) :
    ∃ r, sendEventIfNeed lastEvents j = some r := by
  unfold sendEventIfNeed
  simp only [List.getLast?_eq_some_getLast hne, Option.map_some]
  split <;> split <;> (try split) <;> exact ⟨_, rfl⟩

/-- What was sent is stamped with the judgement's own event. -/
theorem Sends.toEventBody {e : Event F} (h : Sends last j e) : e.toEventBody = j.event := by
  cases h <;> rfl

/-- A problem sent after a problem raised it: the oldest point is newer than the
remembered event, and the minimal interval has passed. -/
theorem Sends.fresh {l e : Event F} (h : Sends (some l) j e) (hl : l.status = .PROBLEM)
    (he : e.status = .PROBLEM) :
    ∃ hne : j.historyData ≠ [], l.eventTime < (j.historyData.getLast hne).timestamp ∧
      l.eventTime + j.minInterval ≤ j.now := by
  cases h with
  | opens hidle hmax =>
    rw [hidle l rfl] at hl
    exact absurd hl (by simp)
  | raises l' hlast hstatus hstep hne hnew hinterval =>
    obtain rfl := Option.some.inj hlast
    exact ⟨hne, hnew, hinterval⟩
  | closes l' hlast hstatus => exact absurd he (by simp)

variable {out xs : List (Emission F)} {x : Emission F}

/-- A judgement is silent, or sends one event and remembers it. -/
theorem judge_cases (h : judge lastEvents j = some (st, out)) :
    (st = lastEvents ∧ out = []) ∨
      ∃ e, Sends (lastEvents j.event.id) j e ∧ st = sendEvent lastEvents e ∧
        out = [⟨j, e⟩] := by
  obtain ⟨r, hr, heq⟩ := Option.map_eq_some_iff.mp h
  cases r with
  | none =>
    obtain ⟨rfl, rfl⟩ := Prod.mk.inj heq
    exact Or.inl ⟨rfl, rfl⟩
  | some e =>
    obtain ⟨rfl, rfl⟩ := Prod.mk.inj heq
    exact Or.inr ⟨e, sendEventIfNeed_cases hr, rfl, rfl⟩

theorem judgeAll_cons (h : judgeAll lastEvents (j :: js) = some (st, out)) :
    ∃ st₁ out₁ out₂, judge lastEvents j = some (st₁, out₁) ∧
      judgeAll st₁ js = some (st, out₂) ∧ out = out₁ ++ out₂ := by
  obtain ⟨⟨st₁, out₁⟩, hj, hrest⟩ := Option.bind_eq_some_iff.mp h
  obtain ⟨⟨st₂, out₂⟩, hjs, heq⟩ := Option.map_eq_some_iff.mp hrest
  obtain ⟨rfl, rfl⟩ := Prod.mk.inj heq
  exact ⟨st₁, out₁, out₂, hj, hjs, rfl⟩

theorem judgeAll_append {st₁ st₂ : LastEvents F} {js₁ js₂ : List (Judgement F)}
    {out₁ out₂ : List (Emission F)} (h₁ : judgeAll lastEvents js₁ = some (st₁, out₁))
    (h₂ : judgeAll st₁ js₂ = some (st₂, out₂)) :
    judgeAll lastEvents (js₁ ++ js₂) = some (st₂, out₁ ++ out₂) := by
  induction js₁ generalizing lastEvents out₁ with
  | nil =>
    obtain ⟨rfl, rfl⟩ := Prod.mk.inj (Option.some.inj h₁)
    exact h₂
  | cons j js ih =>
    obtain ⟨st', out', out'', hj, hjs, rfl⟩ := judgeAll_cons h₁
    rw [List.cons_append, judgeAll, hj, Option.bind_some, ih hjs, Option.map_some,
      List.append_assoc]

theorem exists_judgeAll (lastEvents : LastEvents F) (hne : ∀ j ∈ js, j.historyData ≠ []) :
    ∃ st out, judgeAll lastEvents js = some (st, out) := by
  induction js generalizing lastEvents with
  | nil => exact ⟨lastEvents, [], rfl⟩
  | cons j js ih =>
    obtain ⟨r, hr⟩ := exists_sendEventIfNeed lastEvents (hne j List.mem_cons_self)
    obtain ⟨p, hp⟩ : ∃ p, judge lastEvents j = some p := ⟨_, by rw [judge, hr, Option.map_some]⟩
    obtain ⟨st, out, hrun⟩ := ih p.1 fun j' hj' => hne j' (List.mem_cons_of_mem j hj')
    exact ⟨st, p.2 ++ out, by rw [judgeAll, hp, Option.bind_some, hrun, Option.map_some]⟩

/-! ## What a run does -/

/-- The emissions of one id. -/
def ofId (id : String) (out : List (Emission F)) : List (Emission F) :=
  out.filter fun x => x.event.id = id

/-- Emissions of one id in the order they were sent, `last` being remembered
before the first: each was sent with its predecessor remembered. -/
def Linked : Option (Event F) → List (Emission F) → Prop
  | _, [] => True
  | last, x :: xs => Sends last x.judgement x.event ∧ Linked (some x.event) xs

/-- **A run links the emissions of every id.**  Emissions of other ids in between
do not matter, because an id is remembered by itself. -/
theorem linked_judgeAll (id : String) (h : judgeAll lastEvents js = some (st, out)) :
    Linked (lastEvents id) (ofId id out) := by
  induction js generalizing lastEvents out with
  | nil =>
    obtain ⟨-, rfl⟩ := Prod.mk.inj (Option.some.inj h)
    trivial
  | cons j js ih =>
    obtain ⟨st₁, out₁, out₂, hj, hjs, rfl⟩ := judgeAll_cons h
    have hrest : Linked (st₁ id) (ofId id out₂) := ih hjs
    rw [ofId, List.filter_append]
    rcases judge_cases hj with ⟨rfl, rfl⟩ | ⟨e, he, rfl, rfl⟩
    · exact hrest
    · have hbody : e.id = j.event.id := by rw [he.toEventBody]
      by_cases hid : e.id = id
      · rw [sendEvent, ← hid, Function.update_self] at hrest
        rw [← hbody, hid] at he
        rw [List.filter_cons_of_pos (by simpa using hid)]
        exact ⟨he, by rwa [hid] at hrest⟩
      · rw [sendEvent, Function.update_of_ne (Ne.symm hid)] at hrest
        rw [List.filter_cons_of_neg (by simpa using hid)]
        exact hrest

theorem judgement_mem_of_mem_judgeAll (h : judgeAll lastEvents js = some (st, out)) (hx : x ∈ out) :
    x.judgement ∈ js := by
  induction js generalizing lastEvents out with
  | nil =>
    obtain ⟨-, rfl⟩ := Prod.mk.inj (Option.some.inj h)
    simp at hx
  | cons j js ih =>
    obtain ⟨st₁, out₁, out₂, hj, hjs, rfl⟩ := judgeAll_cons h
    rcases List.mem_append.mp hx with hx | hx
    · rcases judge_cases hj with ⟨-, rfl⟩ | ⟨e, -, -, rfl⟩
      · simp at hx
      · rw [List.mem_singleton.mp hx]
        exact List.mem_cons_self
    · exact List.mem_cons_of_mem j (ih hjs hx)

theorem Linked.exists_sends (h : Linked last xs) (hx : x ∈ xs) :
    ∃ last', Sends last' x.judgement x.event := by
  induction xs generalizing last with
  | nil => simp at hx
  | cons y ys ih =>
    rcases List.mem_cons.mp hx with rfl | hx
    · exact ⟨last, h.1⟩
    · exact ih h.2 hx

/-- Of two successive emissions, the second was sent with the first remembered. -/
theorem Linked.sends_of_append {ys : List (Emission F)} {y : Emission F}
    (h : Linked last (xs ++ x :: y :: ys)) : Sends (some x.event) y.judgement y.event := by
  induction xs generalizing last with
  | nil => exact h.2.1
  | cons z zs ih => exact ih h.2

/-! ## The language -/

/-- What an event says, apart from its data. -/
inductive Letter where
  | problem (step : Int)
  | ok
  deriving DecidableEq

/-- The letter of an event. -/
def Event.letter (e : Event F) : Letter :=
  match e.status with
  | .PROBLEM => .problem e.currentStep
  | .OK => .ok

/-- `PROBLEM(1) ... PROBLEM(k)`. -/
def problems (k : ℕ) : List Letter :=
  (List.range k).map fun (i : ℕ) => Letter.problem (i + 1)

/-- `PROBLEM(1) ... PROBLEM(k) OK`. -/
def block (k : ℕ) : List Letter :=
  problems k ++ [Letter.ok]

theorem problems_succ (k : ℕ) : problems (k + 1) = problems k ++ [Letter.problem (k + 1)] := by
  rw [problems, problems, List.range_succ, List.map_append]
  rfl

/-- The letters sent so far, read off what is remembered: whole blocks when the
alarm is closed, whole blocks and `k` problems when it stands at step `k`. -/
inductive Spells : Option (Event F) → List Letter → Prop where
  | start : Spells none []
  | closed (e : Event F) (ks : List ℕ) (he : e.status = .OK) (hks : ∀ k ∈ ks, 1 ≤ k) :
      Spells (some e) (ks.flatMap block)
  | openAt (e : Event F) (ks : List ℕ) (k : ℕ) (he : e.status = .PROBLEM)
      (hstep : e.currentStep = k) (hk : 1 ≤ k) (hks : ∀ k ∈ ks, 1 ≤ k) :
      Spells (some e) (ks.flatMap block ++ problems k)

variable {w : List Letter}

theorem Spells.send {e : Event F} (hw : Spells last w) (h : Sends last j e) :
    Spells (some e) (w ++ [e.letter]) := by
  cases h with
  | opens hidle hmax =>
    show Spells _ (w ++ [Letter.problem 1])
    cases hw with
    | start => exact Spells.openAt _ [] 1 rfl rfl le_rfl (by simp)
    | closed l ks hl hks => exact Spells.openAt _ ks 1 rfl rfl le_rfl hks
    | openAt l ks k hl =>
      rw [hidle l rfl] at hl
      exact absurd hl (by simp)
  | raises l hlast hstatus hstep hne hnew hinterval =>
    subst hlast
    cases hw with
    | closed _ ks hl =>
      rw [hstatus] at hl
      exact absurd hl (by simp)
    | openAt _ ks k hl hk hk1 hks =>
      show Spells _ (_ ++ [Letter.problem (l.currentStep + 1)])
      rw [hk, List.append_assoc, ← problems_succ]
      exact Spells.openAt _ ks (k + 1) rfl (Nat.cast_succ k).symm (Nat.le_add_left 1 k) hks
  | closes l hlast hstatus =>
    subst hlast
    cases hw with
    | closed _ ks hl =>
      rw [hstatus] at hl
      exact absurd hl (by simp)
    | openAt _ ks k hl hk hk1 hks =>
      have hflat : ks.flatMap block ++ problems k ++ [Letter.ok] = (ks ++ [k]).flatMap block := by
        simp [block]
      show Spells _ (_ ++ [Letter.ok])
      rw [hflat]
      refine Spells.closed _ (ks ++ [k]) rfl ?_
      intro k' hk'
      rcases List.mem_append.mp hk' with hk' | hk'
      · exact hks k' hk'
      · rw [List.mem_singleton.mp hk']
        exact hk1

theorem Spells.prefix_blocks (h : Spells last w) :
    ∃ ks : List ℕ, (∀ k ∈ ks, 1 ≤ k) ∧ w <+: ks.flatMap block := by
  cases h with
  | start => exact ⟨[], by simp, List.prefix_refl _⟩
  | closed e ks he hks => exact ⟨ks, hks, List.prefix_refl _⟩
  | openAt e ks k he hstep hk hks =>
    refine ⟨ks ++ [k], ?_, ?_⟩
    · intro k' hk'
      rcases List.mem_append.mp hk' with hk' | hk'
      · exact hks k' hk'
      · rw [List.mem_singleton.mp hk']
        exact hk
    · rw [List.flatMap_append, List.flatMap_singleton, block, ← List.append_assoc]
      exact List.prefix_append _ _

theorem Spells.linked (hw : Spells last w) (h : Linked last xs) :
    ∃ last' : Option (Event F), Spells last' (w ++ xs.map fun x => x.event.letter) := by
  induction xs generalizing last w with
  | nil => exact ⟨last, by simpa using hw⟩
  | cons x xs ih =>
    obtain ⟨last', hlast'⟩ := ih (hw.send h.1) h.2
    exact ⟨last', by simpa using hlast'⟩

/-- The step of an event is bounded by the limit in force. -/
theorem Sends.step_bound {e : Event F} {n : Int} (h : Sends last j e)
    (hn : e.letter = Letter.problem n) : (2 ≤ n → n ≤ j.maxStep) ∧ (n = 1 → j.maxStep ≠ 0) := by
  cases h with
  | opens hidle hmax =>
    have h1 : (1 : Int) = n := Letter.problem.inj hn
    exact ⟨fun h2 => by omega, fun _ => hmax⟩
  | raises l hlast hstatus hstep =>
    have h1 : l.currentStep + 1 = n := Letter.problem.inj hn
    exact ⟨fun _ => by omega, fun _ => by omega⟩
  | closes l hlast hstatus => simp [Event.letter] at hn

/-- With no alarm open, a judgement that allows no step sends nothing. -/
theorem Sends.maxStep_ne_zero {e : Event F} (h : Sends none j e) : j.maxStep ≠ 0 := by
  cases h with
  | opens hidle hmax => exact hmax
  | raises l hlast => exact absurd hlast (by simp)
  | closes l hlast => exact absurd hlast (by simp)

/-- **The events of an id spell blocks.**  From a judge that has sent nothing,
over every run of judgements on non-empty histories: the run does not panic, and
the events of each id are a beginning of blocks
`PROBLEM(1) ... PROBLEM(k) OK` with `k ≥ 1`.  A step from the second on is at most
the `maxStep` of the judgement that sent it, a block is opened only by a judgement
whose `maxStep` is not zero, and an id whose `maxStep` is always zero sends
nothing. -/
theorem alarm_event_grammar (id : String) (js : List (Judgement F))
    (hne : ∀ j ∈ js, j.historyData ≠ []) :
    ∃ st out, judgeAll (fun _ => none) js = some (st, out) ∧
      (∃ ks : List ℕ, (∀ k ∈ ks, 1 ≤ k) ∧
        ((ofId id out).map fun x => x.event.letter) <+: ks.flatMap block) ∧
      (∀ x ∈ ofId id out, ∀ n, x.event.letter = Letter.problem n →
        (2 ≤ n → n ≤ x.judgement.maxStep) ∧ (n = 1 → x.judgement.maxStep ≠ 0)) ∧
      ((∀ j ∈ js, j.event.id = id → j.maxStep = 0) → ofId id out = []) := by
  obtain ⟨st, out, hrun⟩ := exists_judgeAll (fun _ => none) hne
  have hlinked : Linked none (ofId id out) := linked_judgeAll id hrun
  refine ⟨st, out, hrun, ?_, ?_, ?_⟩
  · obtain ⟨last, hlast⟩ := Spells.start.linked hlinked
    exact hlast.prefix_blocks
  · intro x hx n hn
    obtain ⟨last, hlast⟩ := hlinked.exists_sends hx
    exact hlast.step_bound hn
  · intro hmute
    by_contra hsent
    obtain ⟨x, xs, hx⟩ := List.exists_cons_of_ne_nil hsent
    have hmem : x ∈ ofId id out := by rw [hx]; exact List.mem_cons_self
    obtain ⟨hout, hid⟩ := List.mem_filter.mp hmem
    rw [hx] at hlinked
    have hzero : x.judgement.maxStep = 0 := by
      refine hmute _ (judgement_mem_of_mem_judgeAll hrun hout) ?_
      rw [← hlinked.1.toEventBody]
      simpa using hid
    exact hlinked.1.maxStep_ne_zero hzero

/-- A judgement of a fixed event at the given times, for the run below. -/
def sampleJudgement (isTriggered : Bool) (timestamp : Int) : Judgement QFloat where
  historyData := [⟨timestamp, .num 1⟩]
  isTriggered := isTriggered
  now := timestamp
  event := ⟨"s_1_cpu", none, none, "host", .num 1, timestamp, ∅⟩
  maxStep := 3
  minInterval := 60

/-- An alarm that is raised once and closed. -/
theorem alarm_event_grammar_raised_and_closed :
    ∃ st out, judgeAll (fun _ => none) [sampleJudgement true 60, sampleJudgement true 90,
        sampleJudgement true 120, sampleJudgement false 180] = some (st, out) ∧
      ((ofId "s_1_cpu" out).map fun x => x.event.letter) = [.problem 1, .problem 2, .ok] ∧
      ∃ ks : List ℕ, (∀ k ∈ ks, 1 ≤ k) ∧
        ((ofId "s_1_cpu" out).map fun x => x.event.letter) <+: ks.flatMap block := by
  obtain ⟨st, out, hrun, hblocks, -⟩ := alarm_event_grammar "s_1_cpu"
    [sampleJudgement true 60, sampleJudgement true 90, sampleJudgement true 120,
      sampleJudgement false 180] (by simp [sampleJudgement])
  refine ⟨st, out, hrun, ?_, hblocks⟩
  obtain ⟨-, rfl⟩ := Prod.mk.inj (Option.some.inj hrun)
  decide

end OpenFalcon.Judge
