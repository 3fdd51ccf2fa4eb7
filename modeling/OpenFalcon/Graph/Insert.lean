import OpenFalcon.Assoc.Heap
import OpenFalcon.Graph.Migrate

/-!
# Inserting a point into the cache

`GraphItemMap.PushFront` is not one operation of the map.  It looks the list of the key up,
and then either pushes onto the list it found or stores a list of its own; between the two
other calls may run.  To see that, the map holds addresses of lists here, and a list found
once stays at its address whatever becomes of the map.

Undisturbed, a call does what the one-step `GraphItemMap.pushFront` does
(`represents_pushFront`).  Of several calls at once, two that find the key of a new series
absent both store a list, and the points in the list stored first are gone.  Nothing else
goes wrong: all points that were pushed are cached at the end, each as often as it was
pushed, exactly if every list is stored while the key is still absent
(`cached_iff_stores_when_absent`).
-/

namespace OpenFalcon.Graph

open Machine

variable {F : Type}

/-! ## Lists at their addresses -/

/-- `GraphItemMap` with pointers: the lists that were made, and for each key the address of
its list.  No two keys have the same list. -/
structure ListHeap (F : Type) where
  lists : List (SafeLinkedList F)
  addr : GoMap String ℕ
  addr_lt : ∀ key a, addr.lookup key = some a → a < lists.length
  addr_inj : ∀ key key' a, addr.lookup key = some a → addr.lookup key' = some a → key = key'

namespace ListHeap

/-- The list of a key. -/
def list (s : ListHeap F) (key : String) : Option (SafeLinkedList F) :=
  (s.addr.lookup key).bind fun a => s.lists[a]?

/-- The cached points of a key, from front to back. -/
def cached (s : ListHeap F) (key : String) : List (GraphItem F) :=
  ((s.list key).map SafeLinkedList.l).getD []

/-- The lists as objects of a map of pointers. -/
def toHeap (s : ListHeap F) : Assoc.Heap String (SafeLinkedList F) where
  cells := s.lists
  addr := s.addr
  addr_lt := s.addr_lt
  addr_inj := s.addr_inj

/-- `PushFront` of a list, at its address. -/
def pushFront (s : ListHeap F) (a : ℕ) (item : GraphItem F) : ListHeap F where
  lists := s.lists.modify a fun sl => sl.pushFront item
  addr := s.addr
  addr_lt := (s.toHeap.update a fun sl => sl.pushFront item).addr_lt
  addr_inj := s.addr_inj

/-- `Set` with a list that was just made. -/
def set (s : ListHeap F) (key : String) (sl : SafeLinkedList F) : ListHeap F where
  lists := s.lists ++ [sl]
  addr := s.addr.insert key s.lists.length
  addr_lt := (s.toHeap.store key sl).addr_lt
  addr_inj := (s.toHeap.store key sl).addr_inj

variable (s : ListHeap F)

theorem list_pushFront (a : ℕ) (item : GraphItem F) (key : String) :
    (s.pushFront a item).list key =
      if s.addr.lookup key = some a then (s.list key).map fun sl => sl.pushFront item
      else s.list key :=
  s.toHeap.value_update a _ key

theorem list_set (key key' : String) (sl : SafeLinkedList F) :
    (s.set key sl).list key' = if key' = key then some sl else s.list key' :=
  s.toHeap.value_store key key' sl

theorem isSome_list {key : String} {a : ℕ} (h : s.addr.lookup key = some a) : (s.list key).isSome :=
  s.toHeap.isSome_value h

theorem cached_pushFront (a : ℕ) (item : GraphItem F) (key : String) :
    (s.pushFront a item).cached key =
      if s.addr.lookup key = some a then item :: s.cached key else s.cached key := by
  unfold cached
  rw [list_pushFront]
  split
  · rename_i ha
    obtain ⟨sl, hsl⟩ := Option.isSome_iff_exists.mp (s.isSome_list ha)
    rw [hsl]
    rfl
  · rfl

theorem cached_set (key key' : String) (sl : SafeLinkedList F) :
    (s.set key sl).cached key' = if key' = key then sl.l else s.cached key' := by
  unfold cached
  rw [list_set]
  split <;> rfl

end ListHeap

/-! ## A call of `PushFront` -/

/-- The program points of `PushFront`: before `Get`, before `PushFront` of the list found,
before `Set`, and behind. -/
inductive PushPoint where
  | get
  | push (a : ℕ)
  | set
  | returned
  deriving DecidableEq

/-- A call of `PushFront`. -/
structure PushCall (F : Type) where
  key : String
  item : GraphItem F
  point : PushPoint := .get

namespace PushCall

/-- One atomic step of a call.  `fileExists` is the answer of `IsRrdFileExist`. -/
def step (migrateEnabled fileExists : Bool) (s : ListHeap F) (call : PushCall F) :
    ListHeap F × PushCall F :=
  match call.point with
  | .get =>
    match s.addr.lookup call.key with
    | some a => (s, { call with point := .push a })
    | none => (s, { call with point := .set })
  | .push a => (s.pushFront a call.item, { call with point := .returned })
  | .set =>
    (s.set call.key (GraphItemMap.newList migrateEnabled fileExists call.item),
      { call with point := .returned })
  | .returned => (s, call)

/-! ## One call at a time -/

/-- The map of lists that the map of addresses stands for. -/
def Represents (m : GraphItemMap F) (s : ListHeap F) : Prop :=
  ∀ key, m.lookup key = s.list key

variable {s : ListHeap F} {call : PushCall F} {key : String} {a : ℕ}

/-- **A call that is not disturbed is one step of the map.** -/
theorem represents_pushFront {m : GraphItemMap F} (h : Represents m s) (key : String)
    (item : GraphItem F) (migrateEnabled : Bool) (answers : Bool × Bool) :
    let r := alone (step migrateEnabled) (s, ⟨key, item, .get⟩) [answers.1, answers.2]
    r.2.point = .returned ∧
      Represents (GraphItemMap.pushFront m key item migrateEnabled answers.2) r.1 := by
  cases ha : s.addr.lookup key with
  | none =>
    have halone : alone (step migrateEnabled) (s, ⟨key, item, .get⟩) [answers.1, answers.2] =
        (s.set key (GraphItemMap.newList migrateEnabled answers.2 item),
          ⟨key, item, .returned⟩) := by
      simp [step, ha]
    have hnone : s.list key = none := by
      unfold ListHeap.list
      rw [ha]
      rfl
    rw [halone]
    refine ⟨rfl, fun k => ?_⟩
    rw [GraphItemMap.lookup_pushFront, ListHeap.list_set]
    split
    · rename_i hk
      rw [hk, h key, hnone]
      rfl
    · exact h k
  | some a =>
    have halone : alone (step migrateEnabled) (s, ⟨key, item, .get⟩) [answers.1, answers.2] =
        (s.pushFront a item, ⟨key, item, .returned⟩) := by
      simp [step, ha]
    obtain ⟨sl, hsl⟩ := Option.isSome_iff_exists.mp (s.isSome_list ha)
    rw [halone]
    refine ⟨rfl, fun k => ?_⟩
    rw [GraphItemMap.lookup_pushFront, ListHeap.list_pushFront]
    by_cases hk : k = key
    · rw [if_pos hk, hk, if_pos ha, h key, hsl]
      rfl
    · rw [if_neg hk, if_neg fun hk' => hk (s.addr_inj k key a hk' ha)]
      exact h k

/-- **Calls one after another are a run of the map.** -/
theorem represents_pushFronts {m : GraphItemMap F} (h : Represents m s) (migrateEnabled : Bool)
    (calls : List (String × GraphItem F × Bool × Bool)) :
    Represents
      (calls.foldl (fun m c => GraphItemMap.pushFront m c.1 c.2.1 migrateEnabled c.2.2.2) m)
      (calls.foldl (fun s c => (alone (step migrateEnabled) (s, ⟨c.1, c.2.1, .get⟩)
        [c.2.2.1, c.2.2.2]).1) s) := by
  induction calls generalizing m s with
  | nil => exact h
  | cons c calls ih => exact ih (represents_pushFront h c.1 c.2.1 migrateEnabled c.2.2).2

/-! ## What a call may find -/

/-- What holds of a call while others run: the list it found is of its own key or of none,
and a list stored since it found the key absent is not empty. -/
structure Fits (s : ListHeap F) (call : PushCall F) : Prop where
  push : ∀ a, call.point = .push a →
    a < s.lists.length ∧ ∀ key, s.addr.lookup key = some a → key = call.key
  set : call.point = .set → ∀ a, s.addr.lookup call.key = some a → s.cached call.key ≠ []

/-- Before `Get` and behind the call there is nothing to hold. -/
theorem fits_of_ne (hpush : ∀ a, call.point ≠ .push a) (hset : call.point ≠ .set) : Fits s call :=
  ⟨fun a ha => absurd ha (hpush a), fun h => absurd h hset⟩

/-- What a step of a call can do. -/
inductive Move (migrateEnabled fileExists : Bool) (s : ListHeap F) (call : PushCall F) :
    ListHeap F → PushCall F → Prop
  | found (h : call.point = .get) (a : ℕ) (ha : s.addr.lookup call.key = some a) :
      Move migrateEnabled fileExists s call s { call with point := .push a }
  | absent (h : call.point = .get) (ha : s.addr.lookup call.key = none) :
      Move migrateEnabled fileExists s call s { call with point := .set }
  | push (a : ℕ) (h : call.point = .push a) :
      Move migrateEnabled fileExists s call (s.pushFront a call.item)
        { call with point := .returned }
  | set (h : call.point = .set) :
      Move migrateEnabled fileExists s call
        (s.set call.key (GraphItemMap.newList migrateEnabled fileExists call.item))
        { call with point := .returned }
  | ended (h : call.point = .returned) : Move migrateEnabled fileExists s call s call

theorem move_step (migrateEnabled fileExists : Bool) (s : ListHeap F) (call : PushCall F) :
    Move migrateEnabled fileExists s call (step migrateEnabled fileExists s call).1
      (step migrateEnabled fileExists s call).2 := by
  unfold step
  cases hpoint : call.point with
  | get =>
    cases ha : s.addr.lookup call.key with
    | none => exact .absent hpoint ha
    | some a => exact .found hpoint a ha
  | push a => exact .push a hpoint
  | set => exact .set hpoint
  | returned => exact .ended hpoint

variable {other : PushCall F}

section

variable {migrateEnabled fileExists : Bool} {s s' : ListHeap F} {call call' : PushCall F}

theorem Move.fits (hmove : Move migrateEnabled fileExists s call s' call') (h : Fits s call) :
    Fits s' call' := by
  cases hmove with
  | found _ a ha =>
    refine ⟨fun b hb => ?_, fun hset => by cases hset⟩
    cases hb
    exact ⟨s.addr_lt _ a ha, fun key hkey => s.addr_inj key call.key a hkey ha⟩
  | absent _ ha =>
    refine ⟨fun b hb => (by cases hb), fun _ b hb => ?_⟩
    rw [ha] at hb
    cases hb
  | push a _ => exact fits_of_ne (fun a ha => by cases ha) fun hset => by cases hset
  | set _ => exact fits_of_ne (fun a ha => by cases ha) fun hset => by cases hset
  | ended _ => exact h

theorem Move.fits_other (hmove : Move migrateEnabled fileExists s call s' call')
    (h : Fits s other) :
    Fits s' other := by
  cases hmove with
  | found _ _ _ => exact h
  | absent _ _ => exact h
  | ended _ => exact h
  | push a _ =>
    refine ⟨fun b hb => ⟨?_, (h.push b hb).2⟩, fun hset b hb => ?_⟩
    · show b < (s.lists.modify a _).length
      rw [List.length_modify]
      exact (h.push b hb).1
    · rw [ListHeap.cached_pushFront]
      split
      · exact List.cons_ne_nil _ _
      · exact h.set hset b hb
  | set _ =>
    refine ⟨fun b hb => ⟨?_, fun key hkey => ?_⟩, fun hset b hb => ?_⟩
    · have hlt := (h.push b hb).1
      show b < (s.lists ++ [_]).length
      rw [List.length_append]
      omega
    · by_cases hk : key = call.key
      · -- The list that was just stored is none that was found before.
        subst hk
        have hlt := (h.push b hb).1
        have hnew : s.lists.length = b :=
          Option.some_inj.mp ((AList.lookup_insert _).symm.trans hkey)
        omega
      · exact (h.push b hb).2 key ((AList.lookup_insert_ne hk).symm.trans hkey)
    · rw [ListHeap.cached_set]
      split
      · exact List.cons_ne_nil _ _
      · rename_i hk
        exact h.set hset b ((AList.lookup_insert_ne hk).symm.trans hb)

end

/-! ## The points that are cached or under way -/

/-- The cached points of every key. -/
def held (s : ListHeap F) : String → Multiset (GraphItem F) :=
  fun key => s.cached key

/-- The point of a call that has not returned. -/
def pending (call : PushCall F) : String → Multiset (GraphItem F) :=
  if call.point = .returned then 0 else Pi.single call.key {call.item}

/-- The step keeps every point. -/
def Keeps (_ : Bool) (s : ListHeap F) (call : PushCall F) : Prop :=
  match call.point with
  | .push a => s.addr.lookup call.key = some a
  | .set => s.addr.lookup call.key = none
  | _ => True

/-- A list is stored while the key is absent. -/
def StoresWhenAbsent (_ : Bool) (s : ListHeap F) (call : PushCall F) : Prop :=
  call.point = .set → s.addr.lookup call.key = none

theorem single_pos (key : String) (item : GraphItem F) :
    (0 : String → Multiset (GraphItem F)) < Pi.single key {item} := by
  refine Pi.lt_def.mpr ⟨fun k => Multiset.zero_le _, key, ?_⟩
  rw [Pi.single_eq_same]
  exact pos_iff_ne_zero.mpr (Multiset.singleton_ne_zero item)

variable (item : GraphItem F)

theorem held_pushFront (ha : s.addr.lookup key = some a) :
    held (s.pushFront a item) = held s + Pi.single key {item} := by
  funext k
  unfold held
  rw [ListHeap.cached_pushFront, Pi.add_apply]
  by_cases hk : k = key
  · subst hk
    rw [if_pos ha, Pi.single_eq_same, ← Multiset.cons_coe, ← Multiset.singleton_add, add_comm]
  · rw [if_neg fun h => hk (s.addr_inj k key a h ha), Pi.single_eq_of_ne hk, add_zero]

theorem held_pushFront_of_forall (ha : ∀ key, s.addr.lookup key ≠ some a) :
    held (s.pushFront a item) = held s := by
  funext k
  unfold held
  rw [ListHeap.cached_pushFront, if_neg (ha k)]

variable (sl : SafeLinkedList F)

theorem held_set (hkey : s.cached key = []) :
    held (s.set key sl) = held s + Pi.single key ↑sl.l := by
  funext k
  unfold held
  rw [ListHeap.cached_set, Pi.add_apply]
  by_cases hk : k = key
  · subst hk
    rw [if_pos rfl, hkey, Pi.single_eq_same, Multiset.coe_nil, zero_add]
  · rw [if_neg hk, Pi.single_eq_of_ne hk, add_zero]

theorem held_set_lt (hkey : s.cached key ≠ []) :
    held (s.set key sl) < held s + Pi.single key ↑sl.l := by
  refine Pi.lt_def.mpr ⟨fun k => ?_, key, ?_⟩
  · unfold held
    rw [ListHeap.cached_set, Pi.add_apply]
    by_cases hk : k = key
    · subst hk
      rw [if_pos rfl, Pi.single_eq_same]
      exact Multiset.le_add_left _ _
    · rw [if_neg hk, Pi.single_eq_of_ne hk, add_zero]
  · unfold held
    rw [ListHeap.cached_set, Pi.add_apply, if_pos rfl, Pi.single_eq_same]
    refine lt_add_of_pos_left _ (pos_iff_ne_zero.mpr ?_)
    simpa using hkey

theorem pending_returned (h : call.point = .returned) : pending call = 0 :=
  if_pos h

theorem pending_of_ne (h : call.point ≠ .returned) :
    pending call = Pi.single call.key {call.item} :=
  if_neg h

variable {migrateEnabled fileExists : Bool} {s s' : ListHeap F} {call call' : PushCall F}

theorem Move.held_eq (hmove : Move migrateEnabled fileExists s call s' call')
    (hkeeps : Keeps fileExists s call) : held s' + pending call' = held s + pending call := by
  unfold Keeps at hkeeps
  cases hmove with
  | found hpoint a _ => rw [pending_of_ne (by simp), pending_of_ne (by simp [hpoint])]
  | absent hpoint _ => rw [pending_of_ne (by simp), pending_of_ne (by simp [hpoint])]
  | push a hpoint =>
    rw [hpoint] at hkeeps
    rw [pending_returned rfl, add_zero, pending_of_ne (by simp [hpoint]),
      held_pushFront call.item hkeeps]
  | set hpoint =>
    rw [hpoint] at hkeeps
    have hcached : s.cached call.key = [] := by
      unfold ListHeap.cached ListHeap.list
      rw [hkeeps]
      rfl
    rw [pending_returned rfl, add_zero, pending_of_ne (by simp [hpoint]), held_set _ hcached]
    rfl
  | ended _ => rfl

theorem Move.held_lt (hmove : Move migrateEnabled fileExists s call s' call') (h : Fits s call)
    (hkeeps : ¬ Keeps fileExists s call) : held s' + pending call' < held s + pending call := by
  unfold Keeps at hkeeps
  cases hmove with
  | found hpoint _ _ => exact absurd (by rw [hpoint]; trivial) hkeeps
  | absent hpoint _ => exact absurd (by rw [hpoint]; trivial) hkeeps
  | ended hpoint => exact absurd (by rw [hpoint]; trivial) hkeeps
  | push a hpoint =>
    -- The list that was found is no longer in the map.
    rw [hpoint] at hkeeps
    have hlost : ∀ key, s.addr.lookup key ≠ some a := by
      intro key hkey
      rw [(h.push a hpoint).2 key hkey] at hkey
      exact hkeeps hkey
    rw [pending_returned rfl, add_zero, pending_of_ne (by simp [hpoint]),
      held_pushFront_of_forall call.item hlost]
    exact lt_add_of_pos_right _ (single_pos call.key call.item)
  | set hpoint =>
    -- The list in the map has points, and another list takes its place.
    rw [hpoint] at hkeeps
    obtain ⟨a, ha⟩ := Option.ne_none_iff_exists'.mp hkeeps
    rw [pending_returned rfl, add_zero, pending_of_ne (by simp [hpoint])]
    exact held_set_lt _ (h.set hpoint a ha)

/-- The list a call has found is the list of its key. -/
def Current (s : ListHeap F) (call : PushCall F) : Prop :=
  ∀ a, call.point = .push a → s.addr.lookup call.key = some a

theorem Move.current (hmove : Move migrateEnabled fileExists s call s' call')
    (h : Current s call) : Current s' call' := by
  intro b hb
  cases hmove with
  | found _ a ha =>
    cases hb
    exact ha
  | ended _ => exact h b hb
  | _ => cases hb

theorem Move.current_other (hmove : Move migrateEnabled fileExists s call s' call')
    (habsent : StoresWhenAbsent fileExists s call) (h : Current s other) : Current s' other := by
  intro b hb
  have hold := h b hb
  cases hmove with
  | set hset =>
    have hne : other.key ≠ call.key := by
      intro heq
      rw [heq, habsent hset] at hold
      cases hold
    exact (AList.lookup_insert_ne hne).trans hold
  | _ => exact hold

/-- As long as lists are stored only for absent keys, the list that a call has found stays
the list of its key. -/
theorem keeps_of_storesWhenAbsent {ι : Type} [DecidableEq ι]
    {c : Config ι (ListHeap F) (PushCall F)} (hget : ∀ i, (c.agent i).point = .get)
    {ms : List (ι × Bool)} (h : Along (step migrateEnabled) StoresWhenAbsent c ms) :
    Along (step migrateEnabled) Keeps c ms := by
  have hstart : Everywhere (fun _ => True) Current c := by
    refine ⟨trivial, fun i a ha => ?_⟩
    rw [hget i] at ha
    cases ha
  have hstable : Stable (step migrateEnabled) StoresWhenAbsent (fun _ : ListHeap F => True)
      Current :=
    ⟨fun _ _ _ _ _ _ => trivial, fun _ _ _ _ _ h => (move_step _ _ _ _).current h,
      fun _ _ _ _ habsent _ _ h => (move_step _ _ _ _).current_other habsent h⟩
  refine hstart.along_of_along hstable h fun fileExists s call _ hcall habsent => ?_
  unfold Keeps
  split
  · exact hcall _ ‹_›
  · exact habsent ‹_›
  · trivial

end PushCall

open PushCall

/-- **Every point is cached at the end exactly if every list was stored while its key was
absent.**  The calls have all returned; then the cached points of every key are those it
had before and those of the calls with that key, each as often as it was pushed, if and
only if no call stored a list over another one. -/
theorem cached_iff_stores_when_absent {ι : Type} [Fintype ι] [DecidableEq ι]
    (migrateEnabled : Bool) {c : Config ι (ListHeap F) (PushCall F)}
    (hget : ∀ i, (c.agent i).point = .get) (ms : List (ι × Bool))
    (hreturned : ∀ i, ((run (step migrateEnabled) c ms).agent i).point = .returned) :
    (∀ key, ((run (step migrateEnabled) c ms).shared.cached key : Multiset (GraphItem F)) =
        c.shared.cached key + ∑ i with (c.agent i).key = key, {(c.agent i).item}) ↔
      Along (step migrateEnabled) StoresWhenAbsent c ms := by
  have hstart : Everywhere (fun _ => True) Fits c :=
    ⟨trivial, fun i => fits_of_ne (fun a => by rw [hget i]; simp) (by rw [hget i]; simp)⟩
  have hstable : Stable (step migrateEnabled) (fun _ _ _ => True) (fun _ : ListHeap F => True)
      Fits :=
    ⟨fun _ _ _ _ _ _ => trivial, fun _ _ _ _ _ h => (move_step _ _ _ _).fits h,
      fun _ _ _ _ _ _ _ h => (move_step _ _ _ _).fits_other h⟩
  have hcount : total held pending (run (step migrateEnabled) c ms) = total held pending c ↔
      Along (step migrateEnabled) Keeps c ms :=
    (hstart.total_run_eq_iff_along hstable
      (fun _ _ _ _ _ hkeeps => (move_step _ _ _ _).held_eq hkeeps)
      (fun _ _ _ _ h hkeeps => (move_step _ _ _ _).held_lt h hkeeps) ms).2
  have hend : total held pending (run (step migrateEnabled) c ms) =
      held (run (step migrateEnabled) c ms).shared := by
    unfold total
    rw [Finset.sum_eq_zero fun i _ => pending_returned (hreturned i), add_zero]
  have hbegin : ∀ key, total held pending c key =
      c.shared.cached key + ∑ i with (c.agent i).key = key, {(c.agent i).item} := by
    intro key
    unfold total
    rw [Pi.add_apply, Finset.sum_apply, Finset.sum_filter]
    refine congrArg _ (Finset.sum_congr rfl fun i _ => ?_)
    rw [pending_of_ne (by rw [hget i]; exact fun h => by cases h)]
    split
    · rename_i hkey
      rw [← hkey, Pi.single_eq_same]
    · rename_i hkey
      exact Pi.single_eq_of_ne (fun h => hkey h.symm) _
  rw [hend, funext_iff] at hcount
  constructor
  · intro h
    refine (hcount.mp fun key => ?_).mono fun _ s call hkeeps hset => ?_
    · rw [hbegin]
      exact h key
    · unfold Keeps at hkeeps
      rw [hset] at hkeeps
      exact hkeeps
  · intro h key
    rw [← hbegin]
    exact hcount.mpr (keeps_of_storesWhenAbsent hget h) key

/-- A map without lists. -/
def noLists : ListHeap Unit where
  lists := []
  addr := ∅
  addr_lt := fun _ _ h => by cases h
  addr_inj := fun _ _ _ h => by cases h

theorem represents_pushFronts_one :
    Represents (GraphItemMap.pushFront ∅ "ab_GAUGE_60" (gaugeItem 60) true true)
      (alone (step true) (noLists, ⟨"ab_GAUGE_60", gaugeItem 60, .get⟩) [true, true]).1 :=
  represents_pushFronts (m := ∅) (s := noLists) (fun _ => rfl) true
    [("ab_GAUGE_60", gaugeItem 60, true, true)]

/-- Two calls with points of the same new series. -/
def twoPushes : Config Bool (ListHeap Unit) (PushCall Unit) where
  shared := noLists
  agent := fun i => { key := "ab_GAUGE_60", item := gaugeItem (if i then 120 else 60) }

/-- The first call returns before the second begins. -/
def inTurn : List (Bool × Bool) :=
  [(false, true), (false, true), (true, true), (true, true)]

/-- Both calls find the key absent. -/
def atOnce : List (Bool × Bool) :=
  [(false, true), (true, true), (false, true), (true, true)]

theorem cached_in_turn :
    (∀ i, ((run (step true) twoPushes inTurn).agent i).point = .returned) ∧
      ∀ key, ((run (step true) twoPushes inTurn).shared.cached key : Multiset (GraphItem Unit)) =
        twoPushes.shared.cached key +
          ∑ i with (twoPushes.agent i).key = key, {(twoPushes.agent i).item} := by
  have hreturned : ∀ i, ((run (step true) twoPushes inTurn).agent i).point = .returned := by
    decide
  refine ⟨hreturned,
    (cached_iff_stores_when_absent true (fun _ => rfl) inTurn hreturned).mpr ?_⟩
  exact ⟨fun _ => rfl, fun _ => rfl, fun h => (by cases h), fun h => (by cases h), trivial⟩

/-- The point of the call that stored first is lost. -/
theorem cached_at_once :
    (∀ i, ((run (step true) twoPushes atOnce).agent i).point = .returned) ∧
      (run (step true) twoPushes atOnce).shared.cached "ab_GAUGE_60" = [gaugeItem 120] :=
  ⟨by decide, rfl⟩

end OpenFalcon.Graph
