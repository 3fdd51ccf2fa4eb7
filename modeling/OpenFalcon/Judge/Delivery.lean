import OpenFalcon.Judge.Series
import OpenFalcon.Machine.Run

/-!
# What the judge remembers and what it delivered

`sendEvent` of `modules/judge/store/judge.go`.  An event is remembered as the last
one of its id first; then it is encoded, and then pushed to the redis queue of its
priority.  The encoder refuses numbers that are not finite, and redis may refuse a
push at any time; neither failure takes back what was remembered.

A run is a list of calls of `sendEventIfNeed`, each with the answer redis would give
to a push in it.  The memory matches the queue in every state of a run exactly if
every call that is due to send delivers (`memory_matches_queue_iff`).
-/

namespace OpenFalcon.Judge

open Numeric Common

variable {F : Type} {j : Judgement F} {lastEvents : LastEvents F}

/-! ## Sending -/

/-- `Event.Priority`.  Of an event of no rule it is a nil dereference. -/
def EventBody.priority (e : EventBody F) : Option Int :=
  match e.strategy with
  | some s => some s.priority
  | none => e.expression.map Expression.priority

section Marshal

variable [Float64 F] [FiniteTest F]

/-- `json.Marshal` of an event succeeds: its numbers are finite. -/
def EventBody.marshals (e : EventBody F) : Bool :=
  FiniteTest.isFinite e.leftValue &&
    e.strategy.all (fun s => FiniteTest.isFinite s.rightValue) &&
    e.expression.all fun x => FiniteTest.isFinite x.rightValue

end Marshal

/-- A call of `sendEvent`, and whether the event reached redis. -/
structure Sending (F : Type) where
  event : Event F
  pushed : Bool

/-- `g.LastEvents`, and the calls of `sendEvent` so far, newest first. -/
structure AlarmState (F : Type) where
  lastEvents : LastEvents F
  sendings : List (Sending F)

namespace AlarmState

/-- A judge that has just started. -/
def init : AlarmState F := ⟨fun _ => none, []⟩

/-- The redis queue of a priority.  `LPUSH` puts an event in front. -/
def queue (s : AlarmState F) (priority : Int) : List (Event F) :=
  (s.sendings.filter fun x => x.pushed ∧ x.event.priority = some priority).map Sending.event

/-- The call that recorded the last event of an id. -/
def recording (s : AlarmState F) (id : String) : Option (Sending F) :=
  s.sendings.find? fun x => x.event.id = id

end AlarmState

/-- A call of `sendEventIfNeed`, with the answer of redis to an `LPUSH` in it.  It is
made for a strategy or an expression, when its function had enough points. -/
structure Call (F : Type) where
  judgement : Judgement F
  lpush : Bool
  historyData_ne_nil : judgement.historyData ≠ []
  priority_isSome : judgement.event.priority.isSome

/-- The memory says what the queue says: the event remembered for an id was pushed by
the call that recorded it, to the queue of its priority. -/
def AlarmState.Matches (s : AlarmState F) : Prop :=
  ∀ id e, s.lastEvents id = some e → s.recording id = some ⟨e, true⟩ ∧
    ∃ p, e.priority = some p ∧ e ∈ s.queue p

/-- A problem that was not delivered is sent again, at its own step, by the next
triggering judgement that allows this step. -/
def AlarmState.Retries (s : AlarmState F) : Prop :=
  ∀ id e, s.recording id = some ⟨e, false⟩ → e.status = .PROBLEM → ∀ c : Call F,
    c.judgement.event.id = id → c.judgement.isTriggered = true →
    e.currentStep ≤ c.judgement.maxStep →
    sendEventIfNeed s.lastEvents c.judgement =
      some (some ⟨c.judgement.event, .PROBLEM, e.currentStep⟩)

/-! ## When a judgement sends -/

/-- A judgement is due to send an event, given the last one of its id: it opens an
alarm, raises an open one, or closes it. -/
inductive Due (last : Option (Event F)) (j : Judgement F) : Prop where
  | opens (htrig : j.isTriggered = true) (hidle : ∀ l, last = some l → l.status = .OK)
      (hmax : j.maxStep ≠ 0)
  | raises (htrig : j.isTriggered = true) (l : Event F) (hlast : last = some l)
      (hstatus : l.status = .PROBLEM) (hstep : l.currentStep < j.maxStep)
      (hnew : ∀ p, j.historyData.getLast? = some p → l.eventTime < p.timestamp)
      (hinterval : l.eventTime + j.minInterval ≤ j.now)
  | closes (hquiet : j.isTriggered = false) (l : Event F) (hlast : last = some l)
      (hstatus : l.status = .PROBLEM)

theorem sendEventIfNeed_idle (hidle : ∀ l, lastEvents j.event.id = some l → l.status = .OK) :
    sendEventIfNeed lastEvents j =
      some (if j.isTriggered = true ∧ j.maxStep ≠ 0 then some ⟨j.event, .PROBLEM, 1⟩
        else none) := by
  rcases hlast : lastEvents j.event.id with _ | ⟨body, status, step⟩
  · simp only [sendEventIfNeed, hlast]
    split_ifs <;> simp_all
  · obtain rfl : status = .OK := hidle _ hlast
    simp only [sendEventIfNeed, hlast]
    split_ifs <;> simp_all

theorem sendEventIfNeed_open {l : Event F} (hne : j.historyData ≠ [])
    (hlast : lastEvents j.event.id = some l) (hstatus : l.status = .PROBLEM) :
    sendEventIfNeed lastEvents j =
      some (if j.isTriggered = true then
          if l.currentStep < j.maxStep ∧ l.eventTime < (j.historyData.getLast hne).timestamp ∧
              l.eventTime + j.minInterval ≤ j.now then
            some ⟨j.event, .PROBLEM, l.currentStep + 1⟩
          else none
        else some ⟨j.event, .OK, 1⟩) := by
  obtain ⟨body, status, step⟩ := l
  obtain rfl : status = .PROBLEM := hstatus
  simp only [sendEventIfNeed, hlast, List.getLast?_eq_some_getLast hne, Option.map_some]
  cases htrig : j.isTriggered with
  | false => rfl
  | true =>
    rw [if_pos rfl, if_pos rfl]
    -- the three guards of the source, in its order
    by_cases hstep : j.maxStep ≤ step
    · rw [if_pos hstep, if_neg fun h => absurd h.1 (not_lt.mpr hstep)]
    · rw [if_neg hstep]
      by_cases hnew : (j.historyData.getLast hne).timestamp ≤ body.eventTime
      · rw [if_pos hnew, if_neg fun h => absurd h.2.1 (not_lt.mpr hnew)]
      · rw [if_neg hnew]
        by_cases hearly : j.now - body.eventTime < j.minInterval
        · rw [if_pos hearly, if_neg fun h => absurd h.2.2 (by omega)]
        · rw [if_neg hearly, if_pos ⟨not_le.mp hstep, not_le.mp hnew, by omega⟩]

/-- **A judgement sends exactly when it is due.** -/
theorem exists_sendEventIfNeed_iff_due (lastEvents : LastEvents F) (hne : j.historyData ≠ []) :
    (∃ e, sendEventIfNeed lastEvents j = some (some e)) ↔ Due (lastEvents j.event.id) j := by
  have hgetLast : j.historyData.getLast? = some (j.historyData.getLast hne) :=
    List.getLast?_eq_some_getLast hne
  by_cases hidle : ∀ l, lastEvents j.event.id = some l → l.status = .OK
  · rw [sendEventIfNeed_idle hidle]
    constructor
    · rintro ⟨e, he⟩
      by_cases hopen : j.isTriggered = true ∧ j.maxStep ≠ 0
      · exact Due.opens hopen.1 hidle hopen.2
      · rw [if_neg hopen] at he
        exact absurd he (by simp)
    · intro hdue
      cases hdue with
      | opens htrig _ hmax => exact ⟨_, by rw [if_pos ⟨htrig, hmax⟩]⟩
      | raises _ l hl hstatus => exact absurd ((hidle l hl).symm.trans hstatus) (by simp)
      | closes _ l hl hstatus => exact absurd ((hidle l hl).symm.trans hstatus) (by simp)
  · push Not at hidle
    obtain ⟨l, hl, hnot⟩ := hidle
    have hstatus : l.status = .PROBLEM := by
      cases hs : l.status with
      | PROBLEM => rfl
      | OK => exact absurd hs hnot
    rw [sendEventIfNeed_open hne hl hstatus]
    constructor
    · rintro ⟨e, he⟩
      cases htrig : j.isTriggered with
      | false => exact Due.closes htrig l hl hstatus
      | true =>
        rw [htrig, if_pos rfl] at he
        split_ifs at he with hraise
        · refine Due.raises htrig l hl hstatus hraise.1 ?_ hraise.2.2
          intro p hp
          rw [← Option.some.inj (hgetLast.symm.trans hp)]
          exact hraise.2.1
        · exact absurd he (by simp)
    · intro hdue
      cases hdue with
      | opens _ hidle => exact absurd (hidle l hl) hnot
      | raises htrig l' hl' _ hstep hnew hinterval =>
        obtain rfl : l = l' := Option.some.inj (hl.symm.trans hl')
        exact ⟨_, by rw [if_pos htrig, if_pos ⟨hstep, hnew _ hgetLast, hinterval⟩]⟩
      | closes hquiet => exact ⟨_, by rw [if_neg (by simp [hquiet])]⟩

/-! ## A memory that matches -/

namespace AlarmState

/-- What is remembered was recorded by a call, every recorded event has a queue, and
every recording delivered. -/
structure Delivered (s : AlarmState F) : Prop where
  lastEvents_eq : ∀ id, s.lastEvents id = (s.recording id).map Sending.event
  priority_isSome : ∀ x ∈ s.sendings, x.event.priority.isSome
  pushed : ∀ id x, s.recording id = some x → x.pushed = true

theorem delivered_init : (init : AlarmState F).Delivered where
  lastEvents_eq _ := rfl
  priority_isSome x hx := absurd hx (by simp [init])
  pushed id x hx := absurd hx (by simp [recording, init])

variable {s : AlarmState F}

theorem Delivered.matches (h : s.Delivered) : s.Matches := by
  intro id e he
  rw [h.lastEvents_eq] at he
  obtain ⟨⟨e', pushed⟩, hrec, rfl⟩ := Option.map_eq_some_iff.mp he
  obtain rfl : pushed = true := h.pushed id _ hrec
  have hmem : (⟨e', true⟩ : Sending F) ∈ s.sendings := List.mem_of_find?_eq_some hrec
  obtain ⟨p, hp⟩ := Option.isSome_iff_exists.mp (h.priority_isSome _ hmem)
  refine ⟨hrec, p, hp, List.mem_map.mpr ⟨⟨e', true⟩, ?_, rfl⟩⟩
  exact List.mem_filter.mpr ⟨hmem, by simpa using hp⟩

theorem Delivered.retries (h : s.Delivered) : s.Retries := by
  intro id e hrec
  exact absurd (h.pushed id _ hrec) (by simp)

end AlarmState

/-! ## One call -/

section

variable [Float64 F] [FiniteTest F]

namespace AlarmState

/-- `sendEvent`: remember, then encode, then push.  A failure of the last two is not
told to anyone. -/
def sendEvent (s : AlarmState F) (e : Event F) (lpush : Bool) : AlarmState F :=
  { lastEvents := Judge.sendEvent s.lastEvents e
    sendings := ⟨e, e.marshals && lpush⟩ :: s.sendings }

/-- A call of `sendEventIfNeed`. -/
def step (s : AlarmState F) (c : Call F) : AlarmState F :=
  match sendEventIfNeed s.lastEvents c.judgement with
  | some (some e) => s.sendEvent e c.lpush
  | _ => s

/-- The call, if it is due to send, can encode its event, and redis takes it. -/
def Delivers (s : AlarmState F) (c : Call F) : Prop :=
  Due (s.lastEvents c.judgement.event.id) c.judgement →
    c.judgement.event.marshals = true ∧ c.lpush = true

/-- **What a call does**: it is due and one event of its own is sent, or it is not due
and nothing happens. -/
theorem step_cases (s : AlarmState F) (c : Call F) :
    (∃ e, e.toEventBody = c.judgement.event ∧
        Due (s.lastEvents c.judgement.event.id) c.judgement ∧
        s.step c = s.sendEvent e c.lpush) ∨
      (¬Due (s.lastEvents c.judgement.event.id) c.judgement ∧ s.step c = s) := by
  rcases hsend : sendEventIfNeed s.lastEvents c.judgement with _ | _ | e
  · obtain ⟨r, hr⟩ := exists_sendEventIfNeed s.lastEvents c.historyData_ne_nil
    exact absurd (hr.symm.trans hsend) (by simp)
  · right
    rw [← exists_sendEventIfNeed_iff_due s.lastEvents c.historyData_ne_nil, step, hsend]
    exact ⟨by simp, rfl⟩
  · left
    refine ⟨e, (sendEventIfNeed_cases hsend).toEventBody, ?_, ?_⟩
    · exact (exists_sendEventIfNeed_iff_due s.lastEvents c.historyData_ne_nil).mp ⟨e, hsend⟩
    · rw [step, hsend]

theorem recording_sendEvent_self (s : AlarmState F) (e : Event F) (lpush : Bool) :
    (s.sendEvent e lpush).recording e.id = some ⟨e, e.marshals && lpush⟩ := by
  rw [recording, sendEvent, List.find?_cons_of_pos (by simp)]

theorem recording_sendEvent_of_ne (s : AlarmState F) {e : Event F} (lpush : Bool) {id : String}
    (hid : e.id ≠ id) : (s.sendEvent e lpush).recording id = s.recording id := by
  rw [recording, sendEvent, List.find?_cons_of_neg (by simpa using hid), ← recording]

variable {s : AlarmState F} {c : Call F}

theorem Delivered.step (h : s.Delivered) (hc : s.Delivers c) : (s.step c).Delivered := by
  rcases step_cases s c with ⟨e, hbody, hdue, hstep⟩ | ⟨-, hstep⟩
  · rw [hstep]
    obtain ⟨hmarshals, hlpush⟩ := hc hdue
    refine ⟨?_, ?_, ?_⟩
    · intro id
      by_cases hid : e.id = id
      · subst hid
        rw [recording_sendEvent_self]
        exact Function.update_self ..
      · rw [recording_sendEvent_of_ne s c.lpush hid, ← h.lastEvents_eq]
        exact Function.update_of_ne (Ne.symm hid) ..
    · intro x hx
      rcases List.mem_cons.mp hx with rfl | hx
      · rw [hbody]
        exact c.priority_isSome
      · exact h.priority_isSome x hx
    · intro id x hx
      by_cases hid : e.id = id
      · subst hid
        rw [recording_sendEvent_self, Option.some_inj] at hx
        rw [← hx, hbody, hmarshals, hlpush]
        rfl
      · rw [recording_sendEvent_of_ne s c.lpush hid] at hx
        exact h.pushed id x hx
  · rw [hstep]
    exact h

/-- After a call, the memory matches only if the call delivered. -/
theorem delivers_of_matches_step (h : (s.step c).Matches) : s.Delivers c := by
  intro hdue
  rcases step_cases s c with ⟨e, hbody, -, hstep⟩ | ⟨hnot, -⟩
  · rw [hstep] at h
    have hlast : (s.sendEvent e c.lpush).lastEvents e.id = some e := Function.update_self ..
    obtain ⟨hrec, -⟩ := h e.id e hlast
    rw [recording_sendEvent_self, Option.some_inj] at hrec
    have hpushed : (e.marshals && c.lpush) = true := congrArg Sending.pushed hrec
    rw [hbody] at hpushed
    simpa using hpushed
  · exact absurd hdue hnot

end AlarmState

/-- **Memory and queue match as long as every due call delivers.**  Along every run of
calls from a judge that has just started: in every state, the event remembered for an id
was pushed to the queue of its priority by the call that recorded it, and an undelivered
problem is sent again, exactly if every call that is due to send an event can encode it
and redis takes it. -/
theorem memory_matches_queue_iff (cs : List (Call F)) :
    (∀ cs', cs' <+: cs →
        (cs'.foldl AlarmState.step AlarmState.init).Matches ∧
          (cs'.foldl AlarmState.step AlarmState.init).Retries) ↔
      Machine.Meets AlarmState.step AlarmState.Delivers AlarmState.init cs := by
  have sound : ∀ s : AlarmState F, s.Delivered → s.Matches ∧ s.Retries :=
    fun s hs => ⟨hs.matches, hs.retries⟩
  have exact_step : ∀ (s : AlarmState F) (c : Call F), s.Delivered →
      ((s.step c).Matches ∧ (s.step c).Retries ↔ s.Delivers c) :=
    fun s c hs => ⟨fun h => AlarmState.delivers_of_matches_step h.1,
      fun hc => sound _ (hs.step hc)⟩
  exact Machine.forall_prefix_iff_meets sound exact_step (fun s c hs hc => hs.step hc)
    AlarmState.delivered_init cs

end

/-! ## Calls come from rules -/

/-- The judgement of a strategy on one point, redis answering as given. -/
def sampleCall (timestamp : Int) (lpush : Bool) : Call QFloat where
  judgement :=
    { historyData := [⟨timestamp, .num 90⟩]
      isTriggered := true
      now := timestamp
      event := ⟨"s_1_host/cpu",
        some ⟨1, "cpu", ∅, "max(#1)", ">", .num 80, 3, 0, "", none⟩, none, "host", .num 90,
        timestamp, ∅⟩
      maxStep := 3
      minInterval := 60 }
  lpush := lpush
  historyData_ne_nil := by simp
  priority_isSome := rfl

/-- The judge after redis refused the first alarm of the strategy. -/
def refusedState : AlarmState QFloat := AlarmState.init.step (sampleCall 60 false)

/-- Redis refuses the first alarm of a strategy.  It is remembered and in no queue, and the
next triggering judgement counts it as sent: what it sends is the second step. -/
theorem refused_alarm_counted_as_sent :
    (∃ e : Event QFloat, refusedState.lastEvents "s_1_host/cpu" = some e ∧
        e.status = .PROBLEM ∧ e.currentStep = 1 ∧ ∀ p, refusedState.queue p = []) ∧
      (∃ e : Event QFloat,
        sendEventIfNeed refusedState.lastEvents (sampleCall 120 true).judgement =
          some (some e) ∧ e.status = .PROBLEM ∧ e.currentStep = 2) ∧
      ¬refusedState.Matches ∧ ¬refusedState.Retries := by
  refine ⟨⟨_, rfl, rfl, rfl, fun p => rfl⟩, ⟨_, rfl, rfl, rfl⟩, ?_, ?_⟩
  · intro h
    obtain ⟨hrec, -⟩ := h "s_1_host/cpu" _ rfl
    have hpushed : (some false : Option Bool) = some true :=
      congrArg (Option.map Sending.pushed) hrec
    exact absurd hpushed (by decide)
  · intro h
    have hretry := h "s_1_host/cpu" _ rfl rfl (sampleCall 120 true) rfl rfl (by decide)
    have hstep : (some (some 2) : Option (Option Int)) = some (some 1) :=
      congrArg (Option.map (Option.map Event.currentStep)) hretry
    exact absurd hstep (by decide)

end OpenFalcon.Judge
