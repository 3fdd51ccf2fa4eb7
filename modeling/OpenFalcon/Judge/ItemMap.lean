import OpenFalcon.Assoc.Heap
import OpenFalcon.Judge.Series
import OpenFalcon.Machine.Interleaving

/-!
# Calls on the map of histories

`modules/judge/store/history.go`.  `JudgeItemMap` has a list for every series.
`PushFrontAndMaintain` looks the list up and then pushes onto what it found, or stores a list
of its own; `CleanStale` looks for stale lists and then deletes their keys.  Each of these
halves holds a lock, and between the two other calls may run.  Undisturbed, the calls do to
the list of a series what `Series.step` does (`value_push_alone`, `value_cleanStale_alone`).

A call that is disturbed may lose items: of two calls that find the key absent, the second
replaces the list of the first; an item pushed onto a list that is no longer in the map is out
of reach at once; and an item that refreshes a list between the search of `CleanStale` and its
`BatchDelete` is deleted with it (`judged_item_lost`).  Nothing else loses items.  In a run in
which none of this happens, every item that was judged, that no `CleanStale` may take for
stale, and that was not evicted by `maxCount` newer ones, is in the list of its key
(`keepsJudged_of_undisturbed`).
-/

namespace OpenFalcon.Judge

open Numeric Order Machine Assoc

variable {F : Type} {befores : Set Int}

/-! ## The map -/

/-- The map of pointers to lists, and for each key the items that were judged, the latest
first, each with the `maxCount` of its call. -/
structure JudgeItemMap (F : Type) where
  m : Heap String (List (JudgeItem F))
  judged : String → List (JudgeItem F × Int)

namespace JudgeItemMap

/-- `NewJudgeItemMap`. -/
def new : JudgeItemMap F := ⟨Heap.empty, fun _ => []⟩

/-- The items in the list the map holds for a key. -/
def held (s : JudgeItemMap F) (key : String) : List (JudgeItem F) :=
  (s.m.value key).getD []

/-- What `SafeLinkedList.PushFrontAndMaintain` makes of the list at an address. -/
def pushOnto (s : JudgeItemMap F) (a : ℕ) (val : JudgeItem F) (maxCount : Int) :
    Option (List (JudgeItem F) × Bool) :=
  s.m.cells[a]?.bind fun L => pushFrontAndMaintain L val maxCount

/-- An item of a key is judged. -/
def judge (s : JudgeItemMap F) (key : String) (val : JudgeItem F) (maxCount : Int) :
    String → List (JudgeItem F × Int) :=
  Function.update s.judged key ((val, maxCount) :: s.judged key)

/-- The keys of the lists whose front item is older than `before`. -/
def staleKeys (s : JudgeItemMap F) (before : Int) : List String :=
  s.m.addr.keys.filter fun key =>
    match (s.held key).head? with
    | none => false
    | some front => front.timestamp < before

theorem mem_staleKeys {s : JudgeItemMap F} {before : Int} {key : String} :
    key ∈ s.staleKeys before ↔
      ∃ front, (s.held key).head? = some front ∧ front.timestamp < before := by
  rw [staleKeys, List.mem_filter]
  constructor
  · rintro ⟨-, hstale⟩
    split at hstale
    · cases hstale
    · rename_i front hfront
      exact ⟨front, hfront, of_decide_eq_true hstale⟩
  · rintro ⟨front, hfront, hlt⟩
    refine ⟨?_, ?_⟩
    · -- a key with a front item has a list
      rw [← AList.mem_keys, ← AList.lookup_isSome]
      cases ha : s.m.addr.lookup key with
      | none =>
        rw [held, Heap.value_eq_none ha] at hfront
        cases hfront
      | some a => rfl
    · rw [hfront]
      exact decide_eq_true hlt

end JudgeItemMap

/-- The program points of `PushFrontAndMaintain` and `CleanStale`. -/
inductive MapCall (F : Type) where
  | get (key : String) (val : JudgeItem F) (maxCount : Int)
  /-- `Get` has found the list at the address `a`. -/
  | push (key : String) (a : ℕ) (val : JudgeItem F) (maxCount : Int)
  /-- `Get` has found nothing. -/
  | set (key : String) (val : JudgeItem F) (maxCount : Int)
  | pushed (needJudge : Bool)
  /-- The list push has removed a nil element. -/
  | panicked
  | scan (before : Int)
  | batchDelete (before : Int) (keys : List String)
  | cleaned (before : Int)

namespace MapCall

/-- One atomic step of a call. -/
def step (_ : Unit) (s : JudgeItemMap F) : MapCall F → JudgeItemMap F × MapCall F
  | get key val maxCount =>
    match s.m.addr.lookup key with
    | some a => (s, push key a val maxCount)
    | none => (s, set key val maxCount)
  | push key a val maxCount =>
    match s.pushOnto a val maxCount with
    | none => (⟨s.m.update a fun _ => [], s.judged⟩, panicked)
    | some (L, needJudge) =>
      (⟨s.m.update a fun _ => L, if needJudge then s.judge key val maxCount else s.judged⟩,
        pushed needJudge)
  | set key val maxCount =>
    (⟨s.m.store key [val], s.judge key val maxCount⟩, pushed true)
  | scan before => (s, batchDelete before (s.staleKeys before))
  | batchDelete before keys => (⟨s.m.eraseAll keys, s.judged⟩, cleaned before)
  | call => (s, call)

/-- A call that begins. -/
def Begins : MapCall F → Prop
  | get _ _ _ => True
  | scan _ => True
  | _ => False

/-- **The calls are not disturbed at this step.**  A list is stored while the key is still
absent; an item is accepted by the list the map still has for the key, with a `maxCount` that
is not negative, for that panics; and every list that is deleted is still stale. -/
def Undisturbed (_ : Unit) (s : JudgeItemMap F) : MapCall F → Prop
  | push key a val maxCount =>
    (s.pushOnto a val maxCount).map Prod.snd = some false ∨
      s.m.addr.lookup key = some a ∧ 0 ≤ maxCount
  | set key _ _ => s.m.addr.lookup key = none
  | batchDelete before keys =>
    ∀ key ∈ keys, ∀ front, (s.held key).head? = some front → front.timestamp < before
  | _ => True

/-! ### Undisturbed calls -/

variable {s : JudgeItemMap F} {md5 : String → String} {out : List (Emission F)}
  {series' series : Series F} {val : JudgeItem F} {maxCount : Int} {key : String}

theorem step_push {a : ℕ} {L L' : List (JudgeItem F)} {needJudge : Bool} (key : String)
    (hL : s.m.cells[a]? = some L)
    (hpush : pushFrontAndMaintain L val maxCount = some (L', needJudge)) :
    step () s (push key a val maxCount) =
      (⟨s.m.update a fun _ => L', if needJudge then s.judge key val maxCount else s.judged⟩,
        pushed needJudge) := by
  have honto : s.pushOnto a val maxCount = some (L', needJudge) := by
    rw [JudgeItemMap.pushOnto, hL, Option.bind_some, hpush]
  rw [step, honto]

/-- **`PushFrontAndMaintain` alone** does to the list of a series what the series model
does. -/
theorem value_push_alone [Float64 F] (hlist : s.m.value key = series.list) {now minInterval : Int}
    {rules : List (Rule F)}
    (hstep : series.step md5 (.push val maxCount now minInterval rules) = some (series', out)) :
    (alone step (s, get key val maxCount) [(), ()]).1.m.value key = series'.list := by
  obtain ⟨⟨L', needJudge⟩, hpushed, hrest⟩ := Option.bind_eq_some_iff.mp hstep
  -- judged or not, the series has the list the push left
  have hlist' : some L' = series'.list := by
    dsimp only at hrest
    split at hrest
    · obtain ⟨q, -, heq⟩ := Option.map_eq_some_iff.mp hrest
      exact congrArg (fun r => r.1.list) heq
    · exact congrArg (fun r => r.1.list) (Option.some.inj hrest)
  rw [← hlist', alone_cons, alone_cons, alone_nil]
  cases ha : s.m.addr.lookup key with
  | none =>
    have hget : step () s (get key val maxCount) = (s, set key val maxCount) := by
      rw [step, ha]
    rw [← hlist, Heap.value_eq_none ha] at hpushed
    obtain ⟨rfl, -⟩ := Prod.mk.inj (Option.some.inj hpushed)
    rw [hget, step, Heap.value_store, if_pos rfl]
  | some a =>
    have hget : step () s (get key val maxCount) = (s, push key a val maxCount) := by
      rw [step, ha]
    obtain ⟨L, hL⟩ := Option.isSome_iff_exists.mp (s.m.isSome_value ha)
    rw [← hlist, hL] at hpushed
    rw [hget, step_push key (Heap.value_eq_getElem? ha ▸ hL) hpushed,
      Heap.value_update_of_lookup ha, if_pos rfl, hL]
    rfl

/-- **`CleanStale` alone** does to the list of a series what the series model does. -/
theorem value_cleanStale_alone [Float64 F] (hlist : s.m.value key = series.list) {before : Int}
    (hstep : series.step md5 (.cleanStale before) = some (series', out)) :
    (alone step (s, scan before) [(), ()]).1.m.value key = series'.list := by
  have hvalue : (alone step (s, scan before) [(), ()]).1.m.value key =
      if key ∈ s.staleKeys before then none else s.m.value key :=
    s.m.value_eraseAll (s.staleKeys before) key
  have hhead : (s.held key).head? = series.list.bind List.head? := by
    rw [JudgeItemMap.held, hlist]
    cases series.list <;> rfl
  have hmem : key ∈ s.staleKeys before ↔
      ∃ front, series.list.bind List.head? = some front ∧ front.timestamp < before :=
    hhead ▸ JudgeItemMap.mem_staleKeys
  rw [hvalue, hlist]
  rw [Series.step] at hstep
  cases hfront : series.list.bind List.head? with
  | none =>
    rw [hfront] at hstep hmem
    rw [if_neg fun hkey => by simpa using hmem.mp hkey]
    exact congrArg (fun r => r.1.list) (Option.some.inj hstep)
  | some front =>
    rw [hfront] at hstep hmem
    dsimp only at hstep
    split at hstep
    · rename_i hlt
      rw [if_pos (hmem.mpr ⟨front, rfl, hlt⟩)]
      exact congrArg (fun r => r.1.list) (Option.some.inj hstep)
    · rename_i hlt
      have hkey : key ∉ s.staleKeys before := by
        intro hkey
        obtain ⟨front', hfront', hlt'⟩ := hmem.mp hkey
        exact hlt (Option.some_inj.mp hfront' ▸ hlt')
      rw [if_neg hkey]
      exact congrArg (fun r => r.1.list) (Option.some.inj hstep)

end MapCall

/-! ## What is to be kept -/

/-- **An item is evicted** by a call with `maxCount` `n`, its own or one that judged a later
item, if by then `n` newer items have been judged since.  `later` are the items of the key that
were judged after it, the latest first. -/
def Evicted (later : List (JudgeItem F × Int)) (x : JudgeItem F) (maxCount : Int) : Prop :=
  ∃ (rest : List (JudgeItem F × Int)) (v : JudgeItem F) (n : Int)
    (between : List (JudgeItem F × Int)),
    later ++ [(x, maxCount)] = rest ++ (v, n) :: between ∧
      n ≤ (((v, n) :: between).filter fun e => x.timestamp < e.1.timestamp).length

section Evicted

variable {later : List (JudgeItem F × Int)} {x v : JudgeItem F} {maxCount n : Int}

theorem Evicted.cons (h : Evicted later x maxCount) (e : JudgeItem F × Int) :
    Evicted (e :: later) x maxCount := by
  obtain ⟨rest, v, n, between, heq, hn⟩ := h
  refine ⟨e :: rest, v, n, between, ?_, hn⟩
  rw [List.cons_append, heq, List.cons_append]

theorem pos_of_not_evicted (h : ¬ Evicted later x maxCount) : 0 < maxCount := by
  by_contra hle
  exact h ⟨later, x, maxCount, [], rfl, (not_lt.mp hle).trans (Int.natCast_nonneg _)⟩

/-- The call that judged the latest item did not evict `x`, when all later items are newer. -/
theorem length_lt_of_not_evicted (h : ¬ Evicted ((v, n) :: later) x maxCount)
    (hnewer : ∀ e ∈ (v, n) :: later, x.timestamp < e.1.timestamp) :
    (later.length + 1 : Int) < n := by
  by_contra hle
  refine h ⟨[], v, n, later ++ [(x, maxCount)], rfl, ?_⟩
  have hall : ((v, n) :: later).filter (fun e => x.timestamp < e.1.timestamp) =
      (v, n) :: later :=
    List.filter_eq_self.mpr fun e he => decide_eq_true (hnewer e he)
  rw [← List.cons_append, List.filter_append, hall, List.length_append, List.length_cons]
  push_cast
  omega

/-- An item with fewer later ones than any `maxCount` is not evicted. -/
theorem not_evicted_of_length_lt
    (h : ∀ e ∈ later ++ [(x, maxCount)], (later.length : Int) < e.2) :
    ¬ Evicted later x maxCount := by
  rintro ⟨rest, v, n, between, heq, hn⟩
  have hlt : (later.length : Int) < n := h (v, n) (by rw [heq]; simp)
  have hsub : ((v, n) :: between).Sublist (later ++ [(x, maxCount)]) :=
    heq ▸ List.sublist_append_right _ _
  -- the item is not newer than itself
  have hlength := (hsub.filter fun e => decide (x.timestamp < e.1.timestamp)).length_le
  have hself : (later ++ [(x, maxCount)]).filter (fun e => x.timestamp < e.1.timestamp) =
      later.filter fun e => x.timestamp < e.1.timestamp := by
    simp
  have hle := List.length_filter_le (fun e => decide (x.timestamp < e.1.timestamp)) later
  rw [hself] at hlength
  omega

end Evicted

/-- **Every judged item is kept**: an item of a key that is not older than any of the times
`befores`, and that is not evicted, is in the list the map holds for the key. -/
def JudgeItemMap.KeepsJudged (befores : Set Int) (s : JudgeItemMap F) : Prop :=
  ∀ key later x maxCount earlier, s.judged key = later ++ (x, maxCount) :: earlier →
    (∀ before ∈ befores, before ≤ x.timestamp) → ¬ Evicted later x maxCount →
      ∃ L, s.m.value key = some L ∧ x ∈ L

/-! ## One key -/

/-- What holds of the list `L` of a key and the items that were judged: `L` is newest first and
consists of items judged last, and it reaches back to every item that is to be kept. -/
structure Reaches (befores : Set Int) (L : List (JudgeItem F))
    (judged : List (JudgeItem F × Int)) : Prop where
  newestFirst : NewestFirst JudgeItem.timestamp L
  isPrefix : L <+: judged.map Prod.fst
  length_lt : ∀ later x maxCount earlier, judged = later ++ (x, maxCount) :: earlier →
    (∀ before ∈ befores, before ≤ x.timestamp) → ¬ Evicted later x maxCount →
      later.length < L.length

namespace Reaches

variable {befores : Set Int} {L : List (JudgeItem F)} {judged : List (JudgeItem F × Int)}

theorem nil : Reaches befores [] ([] : List (JudgeItem F × Int)) where
  newestFirst := newestFirst_nil
  isPrefix := List.nil_prefix
  length_lt later x maxCount earlier h := by simp at h

section Later

variable {later earlier : List (JudgeItem F × Int)} {x : JudgeItem F} {maxCount : Int}
  (h : Reaches befores L judged) (hjudged : judged = later ++ (x, maxCount) :: earlier)
  (hlength : later.length < L.length)

include h hjudged hlength

/-- An item the list reaches back to is in it, together with the later ones. -/
theorem later_prefix : later.map Prod.fst ++ [x] <+: L := by
  have hitem : later.map Prod.fst ++ [x] <+: judged.map Prod.fst := by
    rw [hjudged, List.map_append, List.map_cons]
    exact ⟨earlier.map Prod.fst, by simp⟩
  refine List.prefix_of_prefix_length_le hitem h.isPrefix ?_
  rw [List.length_append, List.length_map, List.length_singleton]
  exact hlength

theorem mem : x ∈ L :=
  (h.later_prefix hjudged hlength).subset (by simp)

theorem timestamp_lt {e : JudgeItem F × Int} (he : e ∈ later) : x.timestamp < e.1.timestamp := by
  have hnewest := h.newestFirst.sublist (h.later_prefix hjudged hlength).sublist
  obtain ⟨-, -, hlt⟩ := newestFirst_append.mp hnewest
  exact hlt e.1 (List.mem_map_of_mem he) x (List.mem_singleton_self x)

end Later

/-- The call that judges an item reaches back as far as it may. -/
theorem push (h : Reaches befores L judged) {v : JudgeItem F} {n : Int}
    (hfront : ∀ front, L.head? = some front → front.timestamp < v.timestamp) :
    Reaches befores ((v :: L).take n.toNat) ((v, n) :: judged) where
  newestFirst := (newestFirst_cons_of_head? h.newestFirst hfront).sublist (List.take_sublist _ _)
  isPrefix := (List.take_prefix _ _).trans (List.cons_prefix_cons.mpr ⟨rfl, h.isPrefix⟩)
  length_lt later x maxCount earlier hjudged hfresh hnot := by
    rw [List.length_take, List.length_cons]
    cases later with
    | nil =>
      -- the item itself: its own call keeps at least one
      obtain ⟨heq, -⟩ := List.cons.inj hjudged
      obtain ⟨-, rfl⟩ := Prod.mk.inj heq
      have hpos := pos_of_not_evicted hnot
      rw [List.length_nil]
      omega
    | cons e later =>
      -- an item that was in the list before: there is room for one more in front of it
      obtain ⟨rfl, hrest⟩ := List.cons.inj hjudged
      have hlength := h.length_lt later x maxCount earlier hrest hfresh fun hev => hnot (hev.cons _)
      have hnewest := newestFirst_cons_of_head? h.newestFirst hfront
      have hnewer : ∀ e ∈ (v, n) :: later, x.timestamp < e.1.timestamp := by
        intro e he
        rcases List.mem_cons.mp he with rfl | he
        · exact (newestFirst_cons.mp hnewest).1 x (h.mem hrest hlength)
        · exact h.timestamp_lt hrest hlength he
      have hn := length_lt_of_not_evicted hnot hnewer
      rw [List.length_cons]
      omega

/-- A list made for an item of a key that has none. -/
theorem store (h : Reaches befores [] judged) (v : JudgeItem F) (n : Int) :
    Reaches befores [v] ((v, n) :: judged) where
  newestFirst := newestFirst_singleton v
  isPrefix := List.cons_prefix_cons.mpr ⟨rfl, List.nil_prefix⟩
  length_lt later x maxCount earlier hjudged hfresh hnot := by
    cases later with
    | nil => exact Nat.zero_lt_one
    | cons e later =>
      obtain ⟨rfl, hrest⟩ := List.cons.inj hjudged
      have hlength := h.length_lt later x maxCount earlier hrest hfresh fun hev => hnot (hev.cons _)
      exact absurd hlength (Nat.not_lt_zero _)

/-- A stale list has nothing that is to be kept. -/
theorem erase (h : Reaches befores L judged) {before : Int} (hbefore : before ∈ befores)
    (hstale : ∀ front, L.head? = some front → front.timestamp < before) :
    Reaches befores [] judged where
  newestFirst := newestFirst_nil
  isPrefix := List.nil_prefix
  length_lt later x maxCount earlier hjudged hfresh hnot := by
    have hx : x ∈ L := h.mem hjudged (h.length_lt later x maxCount earlier hjudged hfresh hnot)
    obtain ⟨front, hfront⟩ : ∃ front, L.head? = some front :=
      Option.isSome_iff_exists.mp (by simpa using List.ne_nil_of_mem hx)
    have hlt : x.timestamp < before :=
      (h.newestFirst.stamp_le_head hfront hx).trans_lt (hstale front hfront)
    exact absurd (hfresh before hbefore) (not_le.mpr hlt)

end Reaches

/-! ## The map -/

/-- Every list reaches back as far as it has to. -/
def JudgeItemMap.Ok (befores : Set Int) (s : JudgeItemMap F) : Prop :=
  ∀ key, Reaches befores (s.held key) (s.judged key)

theorem JudgeItemMap.ok_new (befores : Set Int) : (new : JudgeItemMap F).Ok befores := by
  intro key
  rw [held, new, Heap.value_empty]
  exact Reaches.nil

variable {s : JudgeItemMap F}

theorem JudgeItemMap.Ok.keepsJudged (h : s.Ok befores) : s.KeepsJudged befores := by
  intro key later x maxCount earlier hjudged hfresh hnot
  have hlength := (h key).length_lt later x maxCount earlier hjudged hfresh hnot
  have hx : x ∈ s.held key := (h key).mem hjudged hlength
  rw [held] at hx
  cases hL : s.m.value key with
  | none =>
    rw [hL] at hx
    cases hx
  | some L =>
    rw [hL] at hx
    exact ⟨L, rfl, hx⟩

/-- A key takes an item that is judged, and its list `L` reaches back as far as it has to. -/
theorem JudgeItemMap.Ok.judge {s' : JudgeItemMap F} (h : s.Ok befores) {key : String}
    {val : JudgeItem F} {maxCount : Int} {L : List (JudgeItem F)}
    (hheld : ∀ key', s'.held key' = if key' = key then L else s.held key')
    (hjudged : s'.judged = s.judge key val maxCount)
    (hreaches : Reaches befores L ((val, maxCount) :: s.judged key)) : s'.Ok befores := by
  intro key'
  rw [hheld, hjudged, JudgeItemMap.judge]
  by_cases hkey : key' = key
  · subst hkey
    rw [if_pos rfl, Function.update_self]
    exact hreaches
  · rw [if_neg hkey, Function.update_of_ne hkey]
    exact h key'

namespace MapCall

/-- The calls of `CleanStale` are those of the run. -/
def CleansBefore (befores : Set Int) (_ : JudgeItemMap F) : MapCall F → Prop
  | scan before => before ∈ befores
  | batchDelete before _ => before ∈ befores
  | _ => True

variable {call : MapCall F}

theorem cleansBefore_step {befores : Set Int} {s : JudgeItemMap F} (h : call.CleansBefore befores s)
    :
    (step () s call).2.CleansBefore befores (step () s call).1 := by
  cases call with
  | get key val maxCount =>
    rw [step]
    split <;> trivial
  | push key a val maxCount =>
    rw [step]
    split <;> trivial
  | scan before => exact h
  | _ => trivial

variable {befores : Set Int} {s : JudgeItemMap F} {key : String} {val : JudgeItem F}
  {maxCount : Int} {a : ℕ}

theorem ok_push_refused (hs : s.Ok befores) {L L' : List (JudgeItem F)}
    (hL : s.m.cells[a]? = some L) (hpush : pushFrontAndMaintain L val maxCount = some (L', false)) :
    (step () s (push key a val maxCount)).1.Ok befores := by
  obtain rfl : L' = L := by
    rcases pushFrontAndMaintain_cases hpush with ⟨-, heq⟩ | ⟨hfalse, -⟩
    · exact heq
    · cases hfalse
  rw [step_push key hL hpush]
  intro key'
  rw [JudgeItemMap.held, Heap.value_update_const hL]
  exact hs key'

theorem ok_push (hs : s.Ok befores) (h : Undisturbed () s (push key a val maxCount)) :
    (step () s (push key a val maxCount)).1.Ok befores := by
  rcases h with hrefused | ⟨ha, hmax⟩
  · obtain ⟨⟨L', needJudge⟩, honto, rfl⟩ := Option.map_eq_some_iff.mp hrefused
    obtain ⟨L, hL, hpush⟩ := Option.bind_eq_some_iff.mp honto
    exact ok_push_refused hs hL hpush
  · obtain ⟨L, hvalue⟩ := Option.isSome_iff_exists.mp (s.m.isSome_value ha)
    have hL : s.m.cells[a]? = some L := by
      rw [← Heap.value_eq_getElem? ha, hvalue]
    have hheld : s.held key = L := by
      rw [JudgeItemMap.held, hvalue]
      rfl
    rcases pushFrontAndMaintain_of_nonneg hmax L val with hpush | ⟨hpush, hfront⟩
    · exact ok_push_refused hs hL hpush
    · rw [step_push key hL hpush]
      refine hs.judge (fun key' => ?_) rfl ((hheld ▸ hs key).push hfront)
      rw [JudgeItemMap.held, Heap.value_update_of_lookup ha, hvalue]
      split <;> rfl

theorem ok_set (hs : s.Ok befores) (ha : s.m.addr.lookup key = none) (val : JudgeItem F)
    (maxCount : Int) : (step () s (set key val maxCount)).1.Ok befores := by
  have hempty : s.held key = [] := by
    rw [JudgeItemMap.held, Heap.value_eq_none ha]
    rfl
  refine hs.judge (fun key' => ?_) rfl ((hempty ▸ hs key).store val maxCount)
  rw [JudgeItemMap.held, step, Heap.value_store]
  split <;> rfl

theorem ok_batchDelete (hs : s.Ok befores) {before : Int} (hbefore : before ∈ befores)
    {keys : List String} (h : Undisturbed () s (batchDelete before keys)) :
    (step () s (batchDelete before keys)).1.Ok befores := by
  intro key'
  have hheld : (step () s (batchDelete before keys)).1.held key' =
      if key' ∈ keys then [] else s.held key' := by
    rw [JudgeItemMap.held, step, Heap.value_eraseAll]
    split <;> rfl
  rw [hheld]
  by_cases hkey : key' ∈ keys
  · rw [if_pos hkey]
    exact (hs key').erase hbefore (h key' hkey)
  · rw [if_neg hkey]
    exact hs key'

/-- **An undisturbed step loses nothing.** -/
theorem ok_step (hs : s.Ok befores) (hcall : call.CleansBefore befores s)
    (h : Undisturbed () s call) : (step () s call).1.Ok befores := by
  cases call with
  | get key val maxCount =>
    have hsame : (step () s (get key val maxCount)).1 = s := by
      rw [step]
      split <;> rfl
    rw [hsame]
    exact hs
  | push key a val maxCount => exact ok_push hs h
  | set key val maxCount => exact ok_set hs h val maxCount
  | batchDelete before keys => exact ok_batchDelete hs hcall h
  | _ => exact hs

theorem stable_ok (befores : Set Int) :
    Stable (step (F := F)) Undisturbed (JudgeItemMap.Ok befores) (CleansBefore befores) where
  shared _ _ _ h hs hcall := ok_step hs hcall h
  own _ _ _ _ _ hcall := cleansBefore_step hcall
  other _ _ _ call _ _ _ hcall := by
    cases call <;> exact hcall

end MapCall

/-- The times of the calls of `CleanStale`. -/
def cleanTimes {ι : Type} (c : Config ι (JudgeItemMap F) (MapCall F)) : Set Int :=
  {before | ∃ i, c.agent i = .scan before}

/-- **The judge keeps every accepted point**, in every run of calls that are not disturbed: an
item that was judged, that is not older than the time of any `CleanStale`, and that was not
evicted by `maxCount` newer ones, is in the list the map holds for its key. -/
theorem keepsJudged_of_undisturbed {ι : Type} [DecidableEq ι]
    {c : Config ι (JudgeItemMap F) (MapCall F)} (hstart : c.shared = JudgeItemMap.new)
    (hcalls : ∀ i, (c.agent i).Begins) {ms : List (ι × Unit)}
    (hms : Along MapCall.step MapCall.Undisturbed c ms) :
    (run MapCall.step c ms).shared.KeepsJudged (cleanTimes c) := by
  have hcleans : ∀ i, (c.agent i).CleansBefore (cleanTimes c) c.shared := by
    intro i
    have hbegins := hcalls i
    cases hi : c.agent i with
    | scan before => exact ⟨i, hi⟩
    | batchDelete before keys =>
      rw [hi] at hbegins
      exact hbegins.elim
    | _ => trivial
  have hok : Everywhere (JudgeItemMap.Ok (cleanTimes c))
      (MapCall.CleansBefore (cleanTimes c)) c :=
    ⟨hstart ▸ JudgeItemMap.ok_new (cleanTimes c), hcleans⟩
  exact (hok.run (MapCall.stable_ok (cleanTimes c)) hms).shared.keepsJudged

/-- A series gets two points, and between them its list becomes stale. -/
def refreshed : Config (Fin 3) (JudgeItemMap QFloat) (MapCall QFloat) where
  shared := JudgeItemMap.new
  agent := ![.get "series" (samplePoint 60) 10, .scan 100, .get "series" (samplePoint 120) 10]

theorem le_of_mem_cleanTimes_refreshed {before : Int} (h : before ∈ cleanTimes refreshed) :
    before ≤ 100 := by
  obtain ⟨i, hi⟩ := h
  fin_cases i
  · cases hi
  · cases hi
    exact le_rfl
  · cases hi

/-- One call after the other: the stale list is deleted, and the second point gets a new
one. -/
theorem keepsJudged_of_undisturbed_in_turn :
    (run MapCall.step refreshed
        [(0, ()), (0, ()), (1, ()), (1, ()), (2, ()), (2, ())]).shared.KeepsJudged
      (cleanTimes refreshed) ∧
    (run MapCall.step refreshed
        [(0, ()), (0, ()), (1, ()), (1, ()), (2, ()), (2, ())]).shared.m.value "series" =
      some [samplePoint 120] := by
  refine ⟨keepsJudged_of_undisturbed rfl (fun i => ?_) ?_, rfl⟩
  · fin_cases i <;> trivial
  · refine ⟨trivial, rfl, trivial, fun key hkey front hfront => ?_, trivial, rfl, trivial⟩
    obtain ⟨front', hfront', hlt⟩ := JudgeItemMap.mem_staleKeys.mp hkey
    rw [Option.some_inj.mp (hfront.symm.trans hfront')]
    exact hlt

/-- Two calls bring the first two points of a series. -/
def created : Config Bool (JudgeItemMap QFloat) (MapCall QFloat) where
  shared := JudgeItemMap.new
  agent
    | false => .get "series" (samplePoint 60) 10
    | true => .get "series" (samplePoint 120) 10

/-- **Judged items are lost.**  Two calls find a series absent, and the list of the second
replaces that of the first; and a stale list that gets a point after `CleanStale` has chosen
it is deleted with the point. -/
theorem judged_item_lost :
    ¬ (run MapCall.step created
        [(false, ()), (true, ()), (false, ()), (true, ())]).shared.KeepsJudged
      (cleanTimes created) ∧
    ¬ (run MapCall.step refreshed
        [(0, ()), (0, ()), (1, ()), (2, ()), (2, ()), (1, ())]).shared.KeepsJudged
      (cleanTimes refreshed) := by
  constructor
  · intro hkeeps
    have hfresh : ∀ before ∈ cleanTimes created, before ≤ (samplePoint 60).timestamp := by
      rintro before ⟨i, hi⟩
      cases i <;> cases hi
    obtain ⟨L, hL, hmem⟩ := hkeeps "series" [(samplePoint 120, 10)] (samplePoint 60) 10 [] rfl
      hfresh (not_evicted_of_length_lt (by simp))
    obtain rfl : [samplePoint 120] = L := Option.some.inj hL
    have htime := congrArg JudgeItem.timestamp (List.mem_singleton.mp hmem)
    exact absurd htime (by decide)
  · intro hkeeps
    have hfresh : ∀ before ∈ cleanTimes refreshed, before ≤ (samplePoint 120).timestamp :=
      fun before hbefore => (le_of_mem_cleanTimes_refreshed hbefore).trans (by decide)
    obtain ⟨L, hL, -⟩ := hkeeps "series" [] (samplePoint 120) 10 [(samplePoint 60, 10)] rfl
      hfresh (not_evicted_of_length_lt (by simp))
    cases hL

end OpenFalcon.Judge
