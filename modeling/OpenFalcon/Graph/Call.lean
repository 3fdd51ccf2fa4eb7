import OpenFalcon.Graph.Receive

/-!
# Whole calls of a graph node

`handleItems`, `CommitByKey` and `GetRrd` as functions of the state of the node.  What
`Handler.step` and `Worker.step` do in steps, these do at once, and a call that nobody
disturbs does the same (`alone_handleItems`, `alone_commitByKey`).  To the cache a `GetRrd`
is a `CommitByKey` (`getRrd_snd`).

`Node.cached` is what the cache holds of a key, the oldest point first.  What each operation
does to it is said once here, for all results about the cached points.
-/

namespace OpenFalcon.Graph

open Machine Common

variable {F : Type}

/-- The endpoint and the counter of an item pass `IsValidString`. -/
def isValidItem (env : NodeEnv) (item : GraphItem F) : Bool :=
  isValidString env.isPrint item.endpoint &&
    isValidString env.isPrint (counter item.metric item.tags)

/-- `CommitByKey` and `GetRrd` go on with the key: it splits, and its file has a name. -/
def Flushable (key : String) : Prop :=
  (splitRrdCacheKey key).2.2.2 = none ∧ rrdFileNamePanics (splitRrdCacheKey key).1 = false

instance (key : String) : Decidable (Flushable key) :=
  inferInstanceAs (Decidable (_ ∧ _))

namespace Node

/-! ## The calls -/

/-- One round of the loop of `handleItems`. -/
def handleItem (env : NodeEnv) (s : Node F) : Option (GraphItem F) → Node F
  | none => s
  | some item =>
    if !isValidString env.isPrint item.endpoint then s
    else if !isValidString env.isPrint (counter item.metric item.tags) then s
    else
      match s.first (itemKey env item) with
      | some first => if item.timestamp ≤ first.timestamp then s else s.pushFront env item
      | none => s.pushFront env item

/-- `handleItems`. -/
def handleItems (env : NodeEnv) (s : Node F) (items : List (Option (GraphItem F))) : Node F :=
  items.foldl (handleItem env) s

/-- `CommitByKey`. -/
def commitByKey (cfg : GlobalConfig) (s : Node F) (key : String) (fault : FlushFault) : Node F :=
  let split := splitRrdCacheKey key
  if split.2.2.2.isSome then s
  else if rrdFileNamePanics split.1 then { s with running := false }
  else
    let popped := s.popAll key
    if popped.1.isEmpty then popped.2
    else popped.2.flushFile ⟨key, keyFileName cfg.storage key, popped.1⟩ fault

/-- `handleItems` pushes the item: it is valid, and newer than the newest cached point. -/
def takes (env : NodeEnv) (s : Node F) (item : GraphItem F) : Bool :=
  isValidItem env item &&
    (s.first (itemKey env item)).all fun first => first.timestamp < item.timestamp

variable (env : NodeEnv)

/-- The checks of the loop, around anything it does for an item that passes (`y`) or does
not (`x`). -/
theorem checks_eq {α : Type} (s : Node F) (item : GraphItem F) (x y : α) :
    (if !isValidString env.isPrint item.endpoint then x
      else if !isValidString env.isPrint (counter item.metric item.tags) then x
      else
        match s.first (itemKey env item) with
        | some first => if item.timestamp ≤ first.timestamp then x else y
        | none => y) =
      if s.takes env item then y else x := by
  unfold takes isValidItem
  cases isValidString env.isPrint item.endpoint with
  | false => rfl
  | true =>
    cases isValidString env.isPrint (counter item.metric item.tags) with
    | false => rfl
    | true =>
      cases s.first (itemKey env item) with
      | none => rfl
      | some first =>
        by_cases hnew : first.timestamp < item.timestamp
        · simp [hnew]
        · simp [hnew, not_lt.mp hnew]

theorem handleItem_some (s : Node F) (item : GraphItem F) :
    s.handleItem env (some item) = if s.takes env item then s.pushFront env item else s :=
  checks_eq env s item s (s.pushFront env item)

theorem step_next (o : Input F) (s : Node F) (item : GraphItem F)
    (rest : List (Option (GraphItem F))) :
    Handler.step env o s (.next (some item :: rest)) =
      if s.takes env item then (s, .push item rest) else (s, .next rest) :=
  checks_eq env s item (s, Handler.next rest) (s, Handler.push item rest)

/-- **To the cache a `GetRrd` is a `CommitByKey`.** -/
theorem getRrd_snd (cfg : GlobalConfig) (s : Node F) (key : String) (fault : FlushFault) :
    (s.getRrd cfg key fault).2 = s.commitByKey cfg key fault := by
  unfold getRrd commitByKey
  dsimp only
  cases hsplit : (splitRrdCacheKey key).2.2.2 with
  | some err => rfl
  | none =>
    dsimp only
    rw [Option.isSome_none, if_neg Bool.false_ne_true]
    split
    · rfl
    · rfl

variable {key : String}

theorem commitByKey_of_flushable (h : Flushable key) (cfg : GlobalConfig) (s : Node F)
    (fault : FlushFault) :
    s.commitByKey cfg key fault =
      if (s.popAll key).1.isEmpty then (s.popAll key).2
      else (s.popAll key).2.flushFile ⟨key, keyFileName cfg.storage key, (s.popAll key).1⟩
        fault := by
  unfold commitByKey
  dsimp only
  rw [h.1, h.2, Option.isSome_none, if_neg Bool.false_ne_true, if_neg Bool.false_ne_true]

/-- A call with another key does nothing, or ends the process. -/
theorem commitByKey_of_not_flushable (h : ¬ Flushable key) (cfg : GlobalConfig) (s : Node F)
    (fault : FlushFault) :
    s.commitByKey cfg key fault = s ∨
      s.commitByKey cfg key fault = { s with running := false } := by
  unfold commitByKey
  dsimp only
  cases hsplit : (splitRrdCacheKey key).2.2.2 with
  | some err => exact Or.inl (if_pos rfl)
  | none =>
    cases hpanics : rrdFileNamePanics (splitRrdCacheKey key).1 with
    | true => exact Or.inr (by rw [Option.isSome_none, if_neg Bool.false_ne_true, if_pos rfl])
    | false => exact absurd ⟨hsplit, hpanics⟩ h

/-! ## The calls in steps -/

theorem alone_handleItem (s : Node F) (item : Option (GraphItem F))
    (rest : List (Option (GraphItem F))) (es : List (Input F)) :
    ∃ n, alone (Handler.step env) (s, .next (item :: rest))
        (List.replicate n ({} : Input F) ++ es) =
      alone (Handler.step env) (s.handleItem env item, .next rest) es := by
  cases item with
  | none => exact ⟨1, rfl⟩
  | some item =>
    -- One step for an item that is skipped, two for one that is pushed.
    cases htakes : s.takes env item with
    | true =>
      refine ⟨2, ?_⟩
      rw [handleItem_some, htakes, List.replicate_succ, List.cons_append, alone_cons, step_next,
        htakes]
      rfl
    | false =>
      refine ⟨1, ?_⟩
      rw [handleItem_some, htakes, List.replicate_succ, List.cons_append, alone_cons, step_next,
        htakes]
      rfl

/-- **A call of `handleItems` that is not disturbed.** -/
theorem alone_handleItems (s : Node F) (items : List (Option (GraphItem F))) :
    ∃ n, alone (Handler.step env) (s, .next items) (List.replicate n {}) =
      (s.handleItems env items, .idle) := by
  induction items generalizing s with
  | nil => exact ⟨1, rfl⟩
  | cons item items ih =>
    obtain ⟨n, hn⟩ := ih (s.handleItem env item)
    obtain ⟨m, hm⟩ := alone_handleItem env s item items (List.replicate n {})
    refine ⟨m + n, ?_⟩
    rw [← List.replicate_append_replicate, hm, hn]
    rfl

variable {s : Node F} {cfg : GlobalConfig}

theorem step_commitPop (hrunning : s.running = true) (hkey : Flushable key) (o : Outside F) :
    Worker.step cfg o s (.commitPop key) =
      ((s.popAll key).2, if (s.popAll key).1.isEmpty then .idle
        else .commitFlush ⟨key, keyFileName cfg.storage key, (s.popAll key).1⟩) := by
  unfold Worker.step
  rw [if_pos hrunning]
  dsimp only
  rw [hkey.1, hkey.2, Option.isSome_none, if_neg Bool.false_ne_true, if_neg Bool.false_ne_true]

theorem step_commitPop_of_not_flushable (hrunning : s.running = true) (hkey : ¬ Flushable key)
    (o : Outside F) (fault : FlushFault) :
    Worker.step cfg o s (.commitPop key) = (s.commitByKey cfg key fault, .idle) := by
  unfold Worker.step commitByKey
  rw [if_pos hrunning]
  dsimp only
  split
  · rfl
  · split
    · rfl
    · rename_i hsplit hpanics
      exact absurd ⟨Option.not_isSome_iff_eq_none.mp hsplit, Bool.eq_false_iff.mpr hpanics⟩ hkey

/-- **A call of `CommitByKey` that is not disturbed.** -/
theorem alone_commitByKey (cfg : GlobalConfig) (hrunning : s.running = true) (key : String)
    (o o' : Outside F) (htask : o'.task = none) :
    alone (Worker.step cfg) (s, .commitPop key) [o, o'] =
      (s.commitByKey cfg key o'.flush, .idle) := by
  have hidle : ∀ s' : Node F, Worker.step cfg o' s' .idle = (s', .idle) := by
    intro s'
    unfold Worker.step
    dsimp only
    rw [htask]
    split <;> rfl
  rw [alone_cons, alone_cons, alone_nil]
  by_cases hkey : Flushable key
  · rw [commitByKey_of_flushable hkey, step_commitPop hrunning hkey]
    dsimp only
    split
    · exact hidle _
    · unfold Worker.step
      rw [if_pos (show (s.popAll key).2.running = true from hrunning)]
  · rw [step_commitPop_of_not_flushable hrunning hkey o o'.flush]
    exact hidle _

/-! ## The cached points -/

/-- What the cache holds of a key, the oldest point first. -/
def cached (s : Node F) (key : String) : List (GraphItem F) :=
  GraphItemMap.items s.graphItems key

theorem cached_eq (s : Node F) (key : String) :
    s.cached key = ((s.graphItems.lookup key).map fun sl => sl.l.reverse).getD [] := by
  unfold cached GraphItemMap.items
  cases s.graphItems.lookup key <;> rfl

theorem cached_modify (s : Node F) (k key : String) (f : SafeLinkedList F → SafeLinkedList F) :
    cached { s with graphItems := GraphItemMap.modify s.graphItems k f } key =
      if key = k then ((s.graphItems.lookup key).map fun sl => (f sl).l.reverse).getD []
      else s.cached key := by
  rw [cached_eq, cached_eq, GraphItemMap.lookup_modify]
  split
  · rw [Option.map_map]
    rfl
  · rfl

@[simp] theorem cached_setFlag (s : Node F) (k key : String) (f : Flag) :
    (s.setFlag k f).cached key = s.cached key := by
  refine (cached_modify s k key _).trans ?_
  rw [cached_eq]
  split <;> rfl

theorem fst_popAll (s : Node F) (key : String) : (s.popAll key).1 = s.cached key := rfl

theorem cached_popAll (s : Node F) (k key : String) :
    (s.popAll k).2.cached key = if key = k then [] else s.cached key := by
  refine (cached_modify s k key _).trans ?_
  split
  · cases s.graphItems.lookup key <;> rfl
  · rfl

theorem cached_pushAll (s : Node F) (k key : String) (items : List (GraphItem F)) :
    (s.pushAll k items).cached key =
      if key = k ∧ key ∈ s.graphItems then items ++ s.cached key else s.cached key := by
  refine (cached_modify s k key _).trans ?_
  by_cases hk : key = k
  · rw [if_pos hk, cached_eq]
    cases hsl : s.graphItems.lookup key with
    | none =>
      have hmem : key ∉ s.graphItems := AList.lookup_eq_none.mp hsl
      rw [if_neg fun h => hmem h.2]
      rfl
    | some sl =>
      have hmem : key ∈ s.graphItems := AList.lookup_isSome.mp (by rw [hsl]; rfl)
      rw [if_pos ⟨hk, hmem⟩, Option.map_some, Option.getD_some, SafeLinkedList.l_pushAll,
        List.reverse_append, List.reverse_reverse]
      rfl
  · rw [if_neg hk, if_neg fun h => hk h.1]

theorem cached_pushFront (s : Node F) (item : GraphItem F) (key : String) :
    (s.pushFront env item).cached key =
      if key = itemKey env item then s.cached key ++ [item] else s.cached key := by
  rw [cached_eq, cached_eq]
  unfold pushFront
  dsimp only
  rw [GraphItemMap.lookup_pushFront]
  split
  · cases s.graphItems.lookup key with
    | none => rfl
    | some sl => exact List.reverse_cons
  · rfl

theorem first_eq (s : Node F) (key : String) : s.first key = (s.cached key).getLast? := by
  unfold first GraphItemMap.first
  rw [cached_eq]
  cases s.graphItems.lookup key with
  | none => rfl
  | some sl => exact List.getLast?_reverse.symm

end Node

/-! ## Data for examples -/

/-- The checksum of `host/load`. -/
def loadMd5 : String := "e3efc5e22132580e119294fb225c584d"

/-- The node of `dataConfig`, for the series `host/load`. -/
def loadEnv : NodeEnv where
  cfg := dataConfig
  md5 := fun _ => loadMd5
  isPrint := fun _ => true

/-- The cache key of the points `gaugeItem`. -/
def loadKey : String := itemKey loadEnv (gaugeItem 0)

end OpenFalcon.Graph
