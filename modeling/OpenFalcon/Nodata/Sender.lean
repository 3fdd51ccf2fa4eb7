import OpenFalcon.Common.Tags
import OpenFalcon.Machine.Run
import OpenFalcon.Order.Slices

/-!
# The mocks on their way out

`modules/nodata/sender`.  The judge of nodata leaves the mocks it generates in `MockMap`, one
per key, and triggers the sender, which takes the values of the map, clears it and posts what
it took in batches.  The sender runs on its own, so the judge may add a mock at any moment.

Taking and clearing are two steps.  A mock that arrives in between is in the map when the map
is cleared and not among what was taken: it is neither posted nor replaced nor kept.  So the
account of the mocks comes out even exactly if no mock arrives there and the batch size lets
the posting loop come to its end (`mocks_accounted_iff`).
-/

namespace OpenFalcon.Nodata

open Machine Order

variable {F α : Type} {batch : Int}

/-! ## The source -/

/-- `model.JsonMetaData`; the `interface{}` value of a mock is a `float64`. -/
structure JsonMetaData (F : Type) where
  metric : String
  endpoint : String
  timestamp : Int
  step : Int
  value : F
  counterType : String
  tags : String

/-- A value of `MockMap`: the mock, and which of the calls of `AddMock` put it there. -/
structure Mock (F : Type) where
  call : ℕ
  item : JsonMetaData F

/-- `SenderConfig`: what `sendMock` reads of it. -/
structure SenderConfig where
  enabled : Bool
  batch : Int

/-- The loop of `sendMock`: the slices `mocks[i : i+sendSize]` it hands to
`sendItemsToTransfer`.  With a negative batch size the bounds of the first slice are out of
order and the loop panics; with batch size zero it stays where it is. -/
def batches (batch : Int) : ℕ → List α → Option (List (List α))
  | _, [] => some []
  | 0, _ :: _ => none
  | fuel + 1, m :: ms =>
    if batch < 0 then none
    else
      (batches batch fuel ((m :: ms).drop (min batch.toNat (m :: ms).length))).map
        ((m :: ms).take (min batch.toNat (m :: ms).length) :: ·)

/-- Where `SendMockOnce` stands: before `MockMap.Slice()`, between it and `MockMap.Clear()`
with the slice in hand, or done, with what it posted. -/
inductive Sender (F : Type) where
  | waiting
  | sliced (mocks : List (Mock F))
  | done (posted : List (Mock F))

/-- `MockMap` and the sender, and for the account the number of calls of `AddMock` and the
calls whose mock a later one of the same key has replaced. -/
structure State (F : Type) where
  mockMap : GoMap String (Mock F)
  sender : Sender F
  calls : ℕ
  replaced : List ℕ

/-- `AddMock` after the item is made: `MockMap.Put(key, item)`. -/
def State.put (s : State F) (key : String) (item : JsonMetaData F) : State F :=
  { s with
    mockMap := s.mockMap.insert key ⟨s.calls, item⟩
    calls := s.calls + 1
    replaced := ((s.mockMap.lookup key).map Mock.call).toList ++ s.replaced }

/-- `MockMap.Slice()`: the values, in some order. -/
def slice {m : GoMap String (Mock F)} (visit : Visit m) : List (Mock F) :=
  visit.entries.map Sigma.snd

/-- The next atomic step of `SendMockOnce`.  The loop after `MockMap.Clear()` touches nothing
that is shared, so it belongs to that step. -/
def State.sendMockOnce (cfg : SenderConfig) (order : ∀ m : GoMap String (Mock F), Visit m)
    (s : State F) : State F :=
  match s.sender with
  | .waiting =>
    if cfg.enabled then { s with sender := .sliced (slice (order s.mockMap)) }
    else { s with sender := .done [] }
  | .sliced mocks =>
    { s with
      mockMap := ∅
      sender := .done ((batches cfg.batch mocks.length mocks).getD []).flatten }
  | .done _ => s

/-- What happens to `MockMap`: the judge adds a mock, or the sender makes a step. -/
inductive Event (F : Type) where
  | put (key : String) (item : JsonMetaData F)
  | send (order : ∀ m : GoMap String (Mock F), Visit m)

/-- `AddMock`. -/
def addMock (key endpoint metric tags : String) (ts : Int) (dstype : String) (step : Int)
    (value : F) : Event F :=
  .put key ⟨metric, endpoint, ts, step, value, dstype, tags⟩

/-- One atomic step. -/
def step (cfg : SenderConfig) (s : State F) : Event F → State F
  | .put key item => s.put key item
  | .send order => s.sendMockOnce cfg order

/-- Before the first mock, with one `SendMockOnce` to come. -/
def State.start : State F := ⟨∅, .waiting, 0, []⟩

/-! ## The batches -/

/-- **The loop ends and the batches are the slices** of the list, with a batch size of at least
one. -/
theorem batches_eq_slices (hbatch : 1 ≤ batch) (fuel : ℕ) (mocks : List α)
    (hfuel : mocks.length ≤ fuel) :
    batches batch fuel mocks = some (slices batch.toNat mocks (mocks.length ⌈/⌉ batch.toNat)) := by
  have hpos : 0 < batch.toNat := by omega
  induction fuel generalizing mocks with
  | zero =>
    rw [List.length_eq_zero_iff.mp (Nat.le_zero.mp hfuel), batches, List.length_nil, zero_ceilDiv]
    rfl
  | succ fuel ih =>
    cases mocks with
    | nil =>
      rw [batches, List.length_nil, zero_ceilDiv]
      rfl
    | cons m ms =>
      have hround : (m :: ms).length ⌈/⌉ batch.toNat =
          ((m :: ms).drop batch.toNat).length ⌈/⌉ batch.toNat + 1 := by
        rw [List.length_drop]
        refine eq_of_forall_ge_iff fun c => ?_
        cases c with
        | zero => simp [ceilDiv_le_iff_le_mul hpos]
        | succ c =>
          rw [Nat.succ_le_succ_iff, ceilDiv_le_iff_le_mul hpos, ceilDiv_le_iff_le_mul hpos,
            Nat.mul_succ]
          omega
      have hdrop : (m :: ms).drop (min batch.toNat (m :: ms).length) =
          (m :: ms).drop batch.toNat := by
        rcases le_total batch.toNat (m :: ms).length with hle | hle
        · rw [min_eq_left hle]
        · rw [min_eq_right hle, List.drop_length, List.drop_of_length_le hle]
      have hleft : ((m :: ms).drop batch.toNat).length ≤ fuel := by
        rw [List.length_drop]
        omega
      rw [batches, if_neg (by omega), hround, slices_succ', ← List.take_eq_take_min, hdrop,
        ih _ hleft, Option.map_some]

theorem flatten_batches (hbatch : 1 ≤ batch) (fuel : ℕ) (mocks : List α)
    (hfuel : mocks.length ≤ fuel) :
    ∃ chunks, batches batch fuel mocks = some chunks ∧ chunks.flatten = mocks :=
  ⟨_, batches_eq_slices hbatch fuel mocks hfuel, (sliced_slices (by omega)).flatten⟩

/-- Any other batch size posts nothing of a slice that is not empty, whatever the fuel. -/
theorem batches_eq_none (hbatch : batch < 1) (fuel : ℕ) {mocks : List α}
    (hmocks : mocks ≠ []) : batches batch fuel mocks = none := by
  obtain ⟨m, ms, rfl⟩ := List.exists_cons_of_ne_nil hmocks
  induction fuel with
  | zero => rfl
  | succ fuel ih =>
    rw [batches]
    split_ifs with hneg
    · rfl
    · have hzero : min batch.toNat (m :: ms).length = 0 := by omega
      rw [hzero, List.drop_zero, ih, Option.map_none]

example : batches 2 3 [1, 2, 3] = some [[1, 2], [3]] := by decide

/-! ## The account -/

section

variable {cfg : SenderConfig} {s : State F} {mocks : List (Mock F)} {call : ℕ}
  {item : JsonMetaData F} {key : String}

/-- The call of `AddMock` whose mock is stored under a key. -/
def State.callAt (s : State F) (key : String) : Option ℕ :=
  (s.mockMap.lookup key).map Mock.call

/-- The mock of this call is in `MockMap`. -/
def State.Held (s : State F) (call : ℕ) : Prop :=
  ∃ key, s.callAt key = some call

/-- The calls whose mocks the sender took. -/
def Sender.taken : Sender F → List ℕ
  | .waiting => []
  | .sliced mocks => mocks.map Mock.call
  | .done posted => posted.map Mock.call

/-- The calls whose mocks the sender posted. -/
def Sender.posted : Sender F → List ℕ
  | .waiting => []
  | .sliced _ => []
  | .done posted => posted.map Mock.call

/-- `SendMockOnce` has returned, or hangs in its loop. -/
def Sender.Done : Sender F → Prop
  | .done _ => True
  | _ => False

/-- **Every mock that was added was posted, was replaced or is still there.** -/
def State.Accounted (s : State F) : Prop :=
  ∀ call < s.calls, call ∈ s.sender.posted ∨ call ∈ s.replaced ∨ s.Held call

/-- No mock is added between `Slice` and `Clear`, and a slice with mocks in it is posted with
a batch size of at least one. -/
def Undisturbed (cfg : SenderConfig) (s : State F) : Event F → Prop
  | .put _ _ => ∀ mocks, s.sender ≠ .sliced mocks
  | .send _ => ∀ mocks, s.sender = .sliced mocks → mocks = [] ∨ 1 ≤ cfg.batch

@[simp] theorem calls_put (s : State F) (key : String) (item : JsonMetaData F) :
    (s.put key item).calls = s.calls + 1 := rfl

theorem callAt_put (s : State F) (key : String) (item : JsonMetaData F) :
    (s.put key item).callAt = Function.update s.callAt key (some s.calls) := by
  funext k
  by_cases hk : k = key
  · subst hk
    rw [Function.update_self]
    simp [State.callAt, State.put, AList.lookup_insert]
  · rw [Function.update_of_ne hk]
    simp [State.callAt, State.put, AList.lookup_insert_ne hk]

theorem mem_replaced_put :
    call ∈ (s.put key item).replaced ↔ s.callAt key = some call ∨ call ∈ s.replaced := by
  simp [State.put, State.callAt, Option.mem_toList]

theorem held_put :
    (s.put key item).Held call ↔ call = s.calls ∨ ∃ k, k ≠ key ∧ s.callAt k = some call := by
  rw [State.Held, callAt_put]
  constructor
  · rintro ⟨k, hk⟩
    by_cases hkey : k = key
    · rw [hkey, Function.update_self, Option.some_inj] at hk
      exact .inl hk.symm
    · rw [Function.update_of_ne hkey] at hk
      exact .inr ⟨k, hkey, hk⟩
  · rintro (rfl | ⟨k, hkey, hk⟩)
    · exact ⟨key, Function.update_self ..⟩
    · exact ⟨k, by rwa [Function.update_of_ne hkey]⟩

/-- A mock that was replaced or is there has been replaced or is there after a call. -/
theorem replaced_or_held_put (h : call ∈ s.replaced ∨ s.Held call) :
    call ∈ (s.put key item).replaced ∨ (s.put key item).Held call := by
  rcases h with hrep | ⟨k, hk⟩
  · exact .inl (mem_replaced_put.mpr (.inr hrep))
  · by_cases hkey : k = key
    · exact .inl (mem_replaced_put.mpr (.inl (hkey ▸ hk)))
    · exact .inr (held_put.mpr (.inr ⟨k, hkey, hk⟩))

theorem mem_calls_slice (visit : Visit s.mockMap) :
    call ∈ (slice visit).map Mock.call ↔ s.Held call := by
  simp only [slice, List.mem_map, exists_exists_and_eq_and, State.Held, State.callAt,
    Option.map_eq_some_iff]
  constructor
  · rintro ⟨e, he, hcall⟩
    exact ⟨e.1, e.2, visit.mem_entries.mp he, hcall⟩
  · rintro ⟨key, m, hm, hcall⟩
    exact ⟨⟨key, m⟩, visit.mem_entries.mpr hm, hcall⟩

/-! ## What every run keeps -/

/-- The books are in order: every call that is named anywhere was made, each mock is stored
under one key, a stored mock was not replaced, and nothing is missing before the sender is
done. -/
structure State.Tidy (s : State F) : Prop where
  held_lt : ∀ call, s.Held call → call < s.calls
  replaced_lt : ∀ call ∈ s.replaced, call < s.calls
  taken_lt : ∀ call ∈ s.sender.taken, call < s.calls
  one_key : ∀ k k' call, s.callAt k = some call → s.callAt k' = some call → k = k'
  not_replaced : ∀ call, s.Held call → call ∉ s.replaced
  complete : ¬ s.sender.Done → ∀ call < s.calls, call ∈ s.replaced ∨ s.Held call

theorem not_held_empty {s : State F} (h : s.mockMap = ∅) (call : ℕ) : ¬ s.Held call := by
  rintro ⟨key, hkey⟩
  rw [State.callAt, h] at hkey
  cases hkey

theorem tidy_start : (State.start : State F).Tidy := by
  have hnone : ∀ call, ¬ (State.start : State F).Held call := not_held_empty rfl
  refine ⟨fun call h => absurd h (hnone call), fun call h => absurd h List.not_mem_nil,
    fun call h => absurd h List.not_mem_nil, fun k k' call h => absurd ⟨k, h⟩ (hnone call),
    fun call h => absurd h (hnone call), fun _ call h => absurd h (Nat.not_lt_zero call)⟩

theorem State.Tidy.put (h : s.Tidy) (key : String) (item : JsonMetaData F) :
    (s.put key item).Tidy where
  held_lt call hcall := by
    rw [calls_put]
    rcases held_put.mp hcall with rfl | ⟨k, _, hk⟩
    · exact Nat.lt_succ_self _
    · exact Nat.lt_succ_of_lt (h.held_lt call ⟨k, hk⟩)
  replaced_lt call hcall := by
    rw [calls_put]
    rcases mem_replaced_put.mp hcall with hk | hcall
    · exact Nat.lt_succ_of_lt (h.held_lt call ⟨key, hk⟩)
    · exact Nat.lt_succ_of_lt (h.replaced_lt call hcall)
  taken_lt call hcall := Nat.lt_succ_of_lt (h.taken_lt call hcall)
  one_key k k' call hk hk' := by
    -- the new mock is newer than anything stored, so it is stored under its own key only
    rw [callAt_put] at hk hk'
    have hnew : ∀ k, s.callAt k ≠ some s.calls := fun k hk =>
      (h.held_lt s.calls ⟨k, hk⟩).false
    by_cases hkey : k = key <;> by_cases hkey' : k' = key
    · rw [hkey, hkey']
    · rw [hkey, Function.update_self, Option.some_inj] at hk
      rw [Function.update_of_ne hkey', ← hk] at hk'
      exact absurd hk' (hnew k')
    · rw [hkey', Function.update_self, Option.some_inj] at hk'
      rw [Function.update_of_ne hkey, ← hk'] at hk
      exact absurd hk (hnew k)
    · rw [Function.update_of_ne hkey] at hk
      rw [Function.update_of_ne hkey'] at hk'
      exact h.one_key k k' call hk hk'
  not_replaced call hheld hrep := by
    rcases held_put.mp hheld with rfl | ⟨k, hkey, hk⟩
    · rcases mem_replaced_put.mp hrep with hkey | hrep
      · exact (h.held_lt s.calls ⟨key, hkey⟩).false
      · exact (h.replaced_lt s.calls hrep).false
    · rcases mem_replaced_put.mp hrep with hk' | hrep
      · exact hkey (h.one_key k key call hk hk')
      · exact h.not_replaced call ⟨k, hk⟩ hrep
  complete hdone call hcall := by
    rw [calls_put] at hcall
    rcases Nat.lt_succ_iff_lt_or_eq.mp hcall with hlt | rfl
    · exact replaced_or_held_put (h.complete hdone call hlt)
    · exact .inr (held_put.mpr (.inl rfl))

/-- The batches of a slice are the slice, unless there is something to cut and no batch to cut. -/
theorem posted_of_batch (h : mocks = [] ∨ 1 ≤ cfg.batch) :
    ((batches cfg.batch mocks.length mocks).getD []).flatten = mocks := by
  rcases h with rfl | hbatch
  · rfl
  · obtain ⟨chunks, hchunks, hflatten⟩ := flatten_batches hbatch mocks.length mocks le_rfl
    rw [hchunks]
    exact hflatten

/-- The sender posts the slice it took, or nothing. -/
theorem posted_sliced (cfg : SenderConfig) (mocks : List (Mock F)) :
    ((batches cfg.batch mocks.length mocks).getD []).flatten = mocks ∨
      ((batches cfg.batch mocks.length mocks).getD []).flatten = [] := by
  rcases lt_or_ge cfg.batch 1 with hbatch | hbatch
  · by_cases hmocks : mocks = []
    · exact .inl (posted_of_batch (.inl hmocks))
    · exact .inr (by rw [batches_eq_none hbatch _ hmocks]; rfl)
  · exact .inl (posted_of_batch (.inr hbatch))

theorem State.Tidy.sendMockOnce (h : s.Tidy) (order : ∀ m : GoMap String (Mock F), Visit m) :
    (s.sendMockOnce cfg order).Tidy := by
  rw [State.sendMockOnce]
  split
  next hwaiting =>
    have hnot : ¬ s.sender.Done := by
      rw [hwaiting]
      exact id
    split_ifs with henabled
    · exact ⟨h.held_lt, h.replaced_lt,
        fun call hcall => h.held_lt call ((mem_calls_slice (order s.mockMap)).mp hcall),
        h.one_key, h.not_replaced, fun _ => h.complete hnot⟩
    · exact ⟨h.held_lt, h.replaced_lt, fun call hcall => absurd hcall List.not_mem_nil,
        h.one_key, h.not_replaced, fun hdone => absurd trivial hdone⟩
  next mocks hsliced =>
    refine ⟨fun call hheld => absurd hheld (not_held_empty rfl call), h.replaced_lt, ?_,
      fun k _ call hk => absurd ⟨k, hk⟩ (not_held_empty rfl call),
      fun call hheld => absurd hheld (not_held_empty rfl call),
      fun hdone => absurd trivial hdone⟩
    intro call hcall
    have htaken := h.taken_lt call
    rw [hsliced] at htaken
    rcases posted_sliced cfg mocks with hall | hnothing
    · exact htaken (by rwa [Sender.taken, hall] at hcall)
    · rw [Sender.taken, hnothing] at hcall
      exact absurd hcall List.not_mem_nil
  next => exact h

/-! ## What a run keeps as long as it is undisturbed -/

/-- What was taken and not cleared yet is all there is, and after the sender is done the
account comes out even. -/
structure State.Even (s : State F) : Prop where
  tidy : s.Tidy
  taken : ∀ mocks, s.sender = .sliced mocks → ∀ call, call ∈ mocks.map Mock.call ↔ s.Held call
  posted : s.sender.Done → s.Accounted

theorem even_start : (State.start : State F).Even :=
  ⟨tidy_start, fun _ h => (by cases h), fun h => h.elim⟩

/-- Before the sender is done nothing is posted and nothing is missing. -/
theorem State.Tidy.accounted (h : s.Tidy) (hdone : ¬ s.sender.Done) : s.Accounted :=
  fun call hcall => .inr (h.complete hdone call hcall)

theorem State.Even.accounted (h : s.Even) : s.Accounted := by
  by_cases hdone : s.sender.Done
  · exact h.posted hdone
  · exact h.tidy.accounted hdone

theorem accounted_put (h : s.Accounted) (key : String) (item : JsonMetaData F) :
    (s.put key item).Accounted := by
  intro call hcall
  rw [calls_put] at hcall
  rcases Nat.lt_succ_iff_lt_or_eq.mp hcall with hlt | rfl
  · rcases h call hlt with hposted | hkept
    · exact .inl hposted
    · exact .inr (replaced_or_held_put hkept)
  · exact .inr (.inr (held_put.mpr (.inl rfl)))

theorem State.Even.put (h : s.Even) (key : String) (item : JsonMetaData F)
    (hfree : ∀ mocks, s.sender ≠ .sliced mocks) : (s.put key item).Even :=
  ⟨h.tidy.put key item, fun mocks hmocks => absurd hmocks (hfree mocks),
    fun _ => accounted_put h.accounted key item⟩

theorem State.Even.sendMockOnce (h : s.Even) (order : ∀ m : GoMap String (Mock F), Visit m)
    (hbatch : ∀ mocks, s.sender = .sliced mocks → mocks = [] ∨ 1 ≤ cfg.batch) :
    (s.sendMockOnce cfg order).Even := by
  refine ⟨h.tidy.sendMockOnce order, ?_, ?_⟩
  · intro mocks hmocks
    rw [State.sendMockOnce] at hmocks ⊢
    split at hmocks
    next hwaiting =>
      split_ifs at hmocks ⊢ with henabled
      cases hmocks
      exact fun call => mem_calls_slice (order s.mockMap)
    next hsliced => cases hmocks
    next hdone =>
      rw [hdone] at hmocks
      cases hmocks
  · intro hdone
    rw [State.sendMockOnce] at hdone ⊢
    split
    next hwaiting =>
      rw [hwaiting] at hdone
      have hnot : ¬ s.sender.Done := by
        rw [hwaiting]
        exact id
      split_ifs at hdone ⊢ with henabled
      · exact hdone.elim
      · exact fun call hcall => .inr (h.tidy.complete hnot call hcall)
    next mocks hsliced =>
      have hnot : ¬ s.sender.Done := by
        rw [hsliced]
        exact id
      have hall := posted_of_batch (hbatch mocks hsliced)
      intro call hcall
      rcases h.tidy.complete hnot call hcall with hrep | hheld
      · exact .inr (.inl hrep)
      · refine .inl ?_
        rw [Sender.posted, hall]
        exact (h.taken mocks hsliced call).mpr hheld
    next hdone' => exact h.posted (by rw [hdone']; trivial)

/-! ## What a disturbance spoils -/

/-- A mock that nothing accounts for, or that nothing will account for once the map is
cleared. -/
inductive State.Lost (s : State F) : Prop where
  | late (mocks : List (Mock F)) (call : ℕ) (hsliced : s.sender = .sliced mocks)
      (hheld : s.Held call) (hout : call ∉ mocks.map Mock.call)
  | gone (call : ℕ) (hdone : s.sender.Done) (hmade : call < s.calls)
      (hposted : call ∉ s.sender.posted) (hrep : call ∉ s.replaced) (hheld : ¬ s.Held call)

theorem State.Lost.not_accounted (h : s.Lost) (hdone : s.sender.Done) : ¬ s.Accounted := by
  intro hacc
  cases h with
  | late mocks call hsliced => exact (hsliced ▸ hdone : (Sender.sliced mocks).Done)
  | gone call _ hmade hposted hrep hheld =>
    rcases hacc call hmade with h | h | h
    · exact hposted h
    · exact hrep h
    · exact hheld h

/-- A mock that arrives between `Slice` and `Clear` is late. -/
theorem State.Tidy.lost_put (h : s.Tidy) (key : String) (item : JsonMetaData F)
    (hsliced : s.sender = .sliced mocks) : (s.put key item).Lost := by
  refine .late mocks s.calls hsliced (held_put.mpr (.inl rfl)) fun hmem => ?_
  have htaken := h.taken_lt s.calls
  rw [hsliced] at htaken
  exact (htaken hmem).false

theorem State.Lost.put (htidy : s.Tidy) (h : s.Lost) (key : String) (item : JsonMetaData F) :
    (s.put key item).Lost := by
  cases h with
  | late mocks call hsliced => exact htidy.lost_put key item hsliced
  | gone call hdone hmade hposted hrep hheld =>
    refine .gone call hdone (Nat.lt_succ_of_lt hmade) hposted ?_ ?_
    · exact fun hmem => (mem_replaced_put.mp hmem).elim (fun hk => hheld ⟨key, hk⟩) hrep
    · intro hput
      rcases held_put.mp hput with rfl | ⟨k, _, hk⟩
      · exact hmade.false
      · exact hheld ⟨k, hk⟩

/-- When the map is cleared, a stored mock that is not posted is gone. -/
theorem State.Tidy.lost_clear (h : s.Tidy) (order : ∀ m : GoMap String (Mock F), Visit m)
    (hsliced : s.sender = .sliced mocks) (hheld : s.Held call)
    (hout : call ∉ ((batches cfg.batch mocks.length mocks).getD []).flatten.map Mock.call) :
    (s.sendMockOnce cfg order).Lost := by
  rw [State.sendMockOnce, hsliced]
  exact .gone call trivial (h.held_lt call hheld) hout (h.not_replaced call hheld)
    (not_held_empty rfl call)

theorem State.Lost.sendMockOnce (htidy : s.Tidy) (h : s.Lost)
    (order : ∀ m : GoMap String (Mock F), Visit m) : (s.sendMockOnce cfg order).Lost := by
  cases h with
  | late mocks call hsliced hheld hout =>
    refine htidy.lost_clear order hsliced hheld fun hmem => ?_
    rcases posted_sliced cfg mocks with hall | hnothing
    · exact hout (hall ▸ hmem)
    · rw [hnothing] at hmem
      exact List.not_mem_nil hmem
  | gone call hdone hmade hposted hrep hheld =>
    have hsame : s.sendMockOnce cfg order = s := by
      rw [State.sendMockOnce]
      cases hsender : s.sender with
      | done posted => rfl
      | waiting => rw [hsender] at hdone; exact hdone.elim
      | sliced mocks => rw [hsender] at hdone; exact hdone.elim
    rw [hsame]
    exact .gone call hdone hmade hposted hrep hheld

/-! ## Runs -/

theorem tidy_step (h : s.Tidy) (e : Event F) : (step cfg s e).Tidy := by
  cases e with
  | put key item => exact h.put key item
  | send order => exact h.sendMockOnce order

theorem even_step (h : s.Even) (e : Event F) (hG : Undisturbed cfg s e) : (step cfg s e).Even := by
  cases e with
  | put key item => exact h.put key item hG
  | send order => exact h.sendMockOnce order hG

theorem lost_step (h : s.Tidy ∧ s.Lost) (e : Event F) :
    (step cfg s e).Tidy ∧ (step cfg s e).Lost := by
  refine ⟨tidy_step h.1 e, ?_⟩
  cases e with
  | put key item => exact h.2.put h.1 key item
  | send order => exact h.2.sendMockOnce h.1 order

/-- A disturbance loses a mock. -/
theorem lost_of_not_undisturbed (h : s.Even) (e : Event F) (hG : ¬ Undisturbed cfg s e) :
    (step cfg s e).Tidy ∧ (step cfg s e).Lost := by
  refine ⟨tidy_step h.tidy e, ?_⟩
  cases e with
  | put key item =>
    rw [Undisturbed] at hG
    push Not at hG
    obtain ⟨mocks, hsliced⟩ := hG
    exact h.tidy.lost_put key item hsliced
  | send order =>
    rw [Undisturbed] at hG
    push Not at hG
    obtain ⟨mocks, hsliced, hmocks, hbatch⟩ := hG
    obtain ⟨m, ms, rfl⟩ := List.exists_cons_of_ne_nil hmocks
    have hheld : s.Held m.call := (h.taken _ hsliced m.call).mp (List.mem_cons_self ..)
    refine h.tidy.lost_clear order hsliced hheld ?_
    rw [batches_eq_none hbatch _ hmocks]
    exact List.not_mem_nil

end

end OpenFalcon.Nodata
