import OpenFalcon.Assoc.Buckets
import OpenFalcon.Graph.CacheKey
import OpenFalcon.Graph.Conserve

/-!
# The flush at shutdown

`FlushRRD` and `FlushAll` of `rrdtool/rrdtool.go`.  While a node runs, `syncDisk` calls
`FlushRRD` for one bucket of the cache after another, and each call flushes the keys that
are due and pulls the ones whose file is missing.  When the node stops, `FlushAll(true)` goes
through all buckets and flushes every key.

Here the cache is what the source has, an array of maps (`ArrayNode`), with any function as
the hash of a key.  It stands for a `Node`, where the array is one map (`Represents`), and a
`CommitByKey` on either does the same (`Represents.commitByKey`).  So `FlushAll(true)` is a
`CommitByKey` of every key, each once (`flushAll_force`), and what it hands to `FlushFile` is
known completely (`flushed_commits`).

The keys of a running node are keys of items (`Reachable.hasItemKeys`), so that no call of
`CommitByKey` panics and no two keys share a file (`eq_of_keyFileName_eq`).
-/

namespace OpenFalcon.Graph

open Assoc Common

variable {F : Type} {env : NodeEnv}

/-! ## Constants -/

/-- `g.CACHE_TIME`, in milliseconds. -/
def CACHE_TIME : ℕ := 1800000

/-- `g.FLUSH_DISK_STEP`, in milliseconds. -/
def FLUSH_DISK_STEP : ℕ := 1000

/-- `g.FLUSH_MIN_COUNT`. -/
def FLUSH_MIN_COUNT : ℕ := 6

/-- `g.FLUSH_MAX_WAIT`, in seconds. -/
def FLUSH_MAX_WAIT : Int := 86400

/-- `GraphItems.Size`. -/
def size : ℕ := CACHE_TIME / FLUSH_DISK_STEP

/-- The place of a key in the array. -/
def index (hashKey : String → BitVec 32) (key : String) : Fin size :=
  ⟨(hashKey key).toNat % size, Nat.mod_lt _ (by decide)⟩

/-! ## A node with its array -/

/-- The state of a node, its cache an array of maps. -/
structure ArrayNode (F : Type) (hashKey : String → BitVec 32) where
  graphItems : Buckets String (SafeLinkedList F) (index hashKey)
  files : Files
  /-- The calls of `FlushFile` so far, the latest first. -/
  flushed : List (FlushCall F) := []
  /-- The pull tasks handed to the workers so far, node and key, the latest first. -/
  pulls : List (String × String) := []
  running : Bool := true

/-- What a flush does not decide itself. -/
structure FlushOutside where
  /-- `Consistent.Get`, `none` on an error. -/
  ring : String → Option String
  /-- `time.Now` when a key is looked at. -/
  now : String → Int
  /-- The failure `FlushFile` meets with a key. -/
  fault : String → FlushFault

namespace ArrayNode

variable {hashKey : String → BitVec 32}

/-- The flag `GetFlag` returns, with its error dropped. -/
def getFlag (t : ArrayNode F hashKey) (key : String) : Flag :=
  match t.graphItems.lookup key with
  | some sl => sl.flag
  | none => 0

/-- `First`. -/
def first (t : ArrayNode F hashKey) (key : String) : Option (GraphItem F) :=
  (t.graphItems.lookup key).bind SafeLinkedList.front

/-- `Back`. -/
def back (t : ArrayNode F hashKey) (key : String) : Option (GraphItem F) :=
  (t.graphItems.lookup key).bind fun sl => sl.l.getLast?

/-- `ItemCnt`. -/
def itemCnt (t : ArrayNode F hashKey) (key : String) : ℕ :=
  match t.graphItems.lookup key with
  | some sl => sl.l.length
  | none => 0

/-- `KeysByIndex`. -/
def keysByIndex (t : ArrayNode F hashKey) (idx : Fin size) : List String :=
  t.graphItems.keys idx

/-- What `FetchAll` returns. -/
def cached (t : ArrayNode F hashKey) (key : String) : List (GraphItem F) :=
  match t.graphItems.lookup key with
  | some sl => sl.fetchAll
  | none => []

/-- `PopAll`. -/
def popAll (t : ArrayNode F hashKey) (key : String) : List (GraphItem F) × ArrayNode F hashKey :=
  (t.cached key, { t with graphItems := t.graphItems.modify key SafeLinkedList.emptied })

/-- `FlushFile`, called with the points of a key. -/
def flushFile (t : ArrayNode F hashKey) (call : FlushCall F) (fault : FlushFault) :
    ArrayNode F hashKey :=
  { t with
    files := (flushrrd call.filename call.items fault t.files).2
    flushed := call :: t.flushed }

/-- `CommitByKey`. -/
def commitByKey (cfg : GlobalConfig) (t : ArrayNode F hashKey) (key : String)
    (fault : FlushFault) : ArrayNode F hashKey :=
  let split := splitRrdCacheKey key
  if split.2.2.2.isSome then t
  else if rrdFileNamePanics split.1 then { t with running := false }
  else
    let popped := t.popAll key
    if popped.1.isEmpty then popped.2
    else popped.2.flushFile ⟨key, keyFileName cfg.storage key, popped.1⟩ fault

/-- `PullByKey`. -/
def pullByKey (ring : String → Option String) (t : ArrayNode F hashKey) (key : String) :
    ArrayNode F hashKey :=
  match t.first key with
  | none => t
  | some item =>
    match ring (pk item.endpoint item.metric item.tags) with
    | none => t
    | some node => { t with pulls := (node, key) :: t.pulls }

/-- `shouldFlush`. -/
def shouldFlush (now : Int) (t : ArrayNode F hashKey) (key : String) : Bool :=
  if FLUSH_MIN_COUNT ≤ t.itemCnt key then true
  else (t.back key).any fun back => back.timestamp ≤ now - FLUSH_MAX_WAIT

/-- One round of the loop of `FlushRRD`.  After a panic there is none. -/
def flushKey (cfg : GlobalConfig) (o : FlushOutside) (force : Bool) (t : ArrayNode F hashKey)
    (key : String) : ArrayNode F hashKey :=
  if t.running then
    if force = false ∧ cfg.migrateEnabled = true ∧ isMiss (t.getFlag key) = true then
      t.pullByKey o.ring key
    else if force = true ∨ t.shouldFlush (o.now key) key = true then
      t.commitByKey cfg key (o.fault key)
    else t
  else t

/-- `FlushRRD`. -/
def flushRRD (cfg : GlobalConfig) (o : FlushOutside) (t : ArrayNode F hashKey) (idx : Fin size)
    (force : Bool) : ArrayNode F hashKey :=
  (t.keysByIndex idx).foldl (flushKey cfg o force) t

/-- `FlushAll`. -/
def flushAll (cfg : GlobalConfig) (o : FlushOutside) (t : ArrayNode F hashKey) (force : Bool) :
    ArrayNode F hashKey :=
  (List.finRange size).foldl (fun t idx => t.flushRRD cfg o idx force) t

/-! ### All keys, one after another -/

variable (cfg : GlobalConfig)

@[simp] theorem keysByIndex_commitByKey (t : ArrayNode F hashKey) (key : String)
    (fault : FlushFault) (idx : Fin size) :
    (t.commitByKey cfg key fault).keysByIndex idx = t.keysByIndex idx := by
  have hpopped : (t.popAll key).2.keysByIndex idx = t.keysByIndex idx :=
    Buckets.keys_modify _ _ _ _
  unfold commitByKey
  dsimp only
  split
  · rfl
  · split
    · rfl
    · split
      · exact hpopped
      · exact hpopped

theorem flushKey_force (o : FlushOutside) (t : ArrayNode F hashKey) (key : String) :
    t.flushKey cfg o true key =
      if t.running then t.commitByKey cfg key (o.fault key) else t := by
  unfold flushKey
  split
  · rw [if_neg fun h => Bool.false_ne_true h.1.symm, if_pos (Or.inl rfl)]
  · rfl

theorem keysByIndex_foldl_flushKey (o : FlushOutside) (t : ArrayNode F hashKey) (keys : List String)
    (idx : Fin size) :
    (keys.foldl (flushKey cfg o true) t).keysByIndex idx = t.keysByIndex idx := by
  induction keys generalizing t with
  | nil => rfl
  | cons key keys ih =>
    rw [List.foldl_cons, ih, flushKey_force]
    split
    · exact keysByIndex_commitByKey ..
    · rfl

/-- **`FlushAll(true)` goes through all keys.**  The keys of a bucket are read when the loop
comes to it, but no flush has changed them by then. -/
theorem flushAll_force (o : FlushOutside) (t : ArrayNode F hashKey) :
    t.flushAll cfg o true = t.graphItems.walk.foldl (flushKey cfg o true) t := by
  have hloop : ∀ (idxs : List (Fin size)) (t : ArrayNode F hashKey),
      idxs.foldl (fun t idx => t.flushRRD cfg o idx true) t =
        (idxs.flatMap t.keysByIndex).foldl (flushKey cfg o true) t := by
    intro idxs
    induction idxs with
    | nil => exact fun _ => rfl
    | cons idx idxs ih =>
      intro t
      have hkeys : (t.flushRRD cfg o idx true).keysByIndex = t.keysByIndex :=
        funext fun i => keysByIndex_foldl_flushKey cfg o t _ i
      rw [List.foldl_cons, ih, hkeys, List.flatMap_cons, List.foldl_append]
      rfl
  exact hloop (List.finRange size) t

end ArrayNode

/-! ## The array stands for the map -/

/-- The array and the map hold the same lists, and the rest of the state is the same. -/
structure Represents {hashKey : String → BitVec 32} (s : Node F) (t : ArrayNode F hashKey) :
    Prop where
  lookup : ∀ key, t.graphItems.lookup key = s.graphItems.lookup key
  files : t.files = s.files
  flushed : t.flushed = s.flushed
  running : t.running = s.running

namespace Represents

variable {hashKey : String → BitVec 32} {s : Node F} {t : ArrayNode F hashKey}

theorem cached (h : Represents s t) (key : String) : t.cached key = s.cached key := by
  have hlookup := h.lookup key
  unfold ArrayNode.cached Node.cached GraphItemMap.items
  generalize t.graphItems.lookup key = l at hlookup ⊢
  subst hlookup
  cases s.graphItems.lookup key <;> rfl

theorem popAll (h : Represents s t) (key : String) :
    Represents (s.popAll key).2 (t.popAll key).2 where
  lookup k := by
    refine (Buckets.lookup_modify t.graphItems key k _).trans ?_
    rw [h.lookup k]
    exact (GraphItemMap.lookup_modify s.graphItems key k _).symm
  files := h.files
  flushed := h.flushed
  running := h.running

theorem flushFile (h : Represents s t) (call : FlushCall F) (fault : FlushFault) :
    Represents (s.flushFile call fault) (t.flushFile call fault) where
  lookup := h.lookup
  files := by
    unfold Node.flushFile ArrayNode.flushFile
    rw [h.files]
  flushed := congrArg (call :: ·) h.flushed
  running := h.running

/-- **A `CommitByKey` on the array is one on the map.** -/
theorem commitByKey (h : Represents s t) (cfg : GlobalConfig) (key : String) (fault : FlushFault) :
    Represents (s.commitByKey cfg key fault) (t.commitByKey cfg key fault) := by
  have hpopped : (t.popAll key).1 = (s.popAll key).1 := h.cached key
  unfold Node.commitByKey ArrayNode.commitByKey
  dsimp only
  rw [hpopped]
  split
  · exact h
  · split
    · exact ⟨h.lookup, h.files, h.flushed, rfl⟩
    · split
      · exact h.popAll key
      · exact (h.popAll key).flushFile _ _

end Represents

/-- Every node is represented by an array, whatever the hash is. -/
def Node.spread (hashKey : String → BitVec 32) (s : Node F) : ArrayNode F hashKey where
  graphItems := Buckets.ofMap (index hashKey) s.graphItems
  files := s.files
  flushed := s.flushed
  running := s.running

theorem represents_spread (hashKey : String → BitVec 32) (s : Node F) :
    Represents s (s.spread hashKey) :=
  ⟨Buckets.lookup_ofMap (index hashKey) s.graphItems, rfl, rfl, rfl⟩

/-! ## Flushing a list of keys -/

namespace Node

/-- `CommitByKey` for one key after another.  After a panic there is none. -/
def commits (cfg : GlobalConfig) (fault : String → FlushFault) (s : Node F)
    (keys : List String) : Node F :=
  keys.foldl (fun s key => if s.running then s.commitByKey cfg key (fault key) else s) s

/-- The keys of which something is handed to `FlushFile`. -/
def due (s : Node F) (key : String) : Bool :=
  decide (Flushable key) && !(s.cached key).isEmpty

/-- The call of `FlushFile` for a key. -/
def flushCall (cfg : GlobalConfig) (s : Node F) (key : String) : FlushCall F :=
  ⟨key, keyFileName cfg.storage key, s.cached key⟩

variable {s : Node F}

theorem represents_commits {hashKey : String → BitVec 32} {t : ArrayNode F hashKey}
    (h : Represents s t) (cfg : GlobalConfig) (o : FlushOutside) (keys : List String) :
    Represents (s.commits cfg o.fault keys)
      (keys.foldl (ArrayNode.flushKey cfg o true) t) := by
  induction keys generalizing s t with
  | nil => exact h
  | cons key keys ih =>
    rw [commits, List.foldl_cons, List.foldl_cons, ArrayNode.flushKey_force, h.running]
    refine ih ?_
    split
    · exact h.commitByKey cfg key (o.fault key)
    · exact h

/-- `CommitByKey` does not panic with the key. -/
def Safe (key : String) : Prop :=
  Flushable key ∨ (splitRrdCacheKey key).2.2.2.isSome = true

variable {key : String} {keys : List String}

theorem commitByKey_of_not_flushable_of_safe (hsafe : Safe key) (h : ¬ Flushable key)
    (cfg : GlobalConfig) (s : Node F) (fault : FlushFault) : s.commitByKey cfg key fault = s := by
  unfold commitByKey
  exact if_pos (hsafe.resolve_left h)

theorem running_commitByKey (hsafe : Safe key) (cfg : GlobalConfig) (s : Node F)
    (fault : FlushFault) : (s.commitByKey cfg key fault).running = s.running := by
  by_cases h : Flushable key
  · rw [commitByKey_of_flushable h]
    split <;> rfl
  · rw [commitByKey_of_not_flushable_of_safe hsafe h]

theorem flushed_commitByKey (hsafe : Safe key) (cfg : GlobalConfig) (s : Node F)
    (fault : FlushFault) :
    (s.commitByKey cfg key fault).flushed =
      if s.due key then s.flushCall cfg key :: s.flushed else s.flushed := by
  unfold due
  by_cases h : Flushable key
  · rw [commitByKey_of_flushable h, fst_popAll, decide_eq_true h, Bool.true_and]
    cases (s.cached key).isEmpty <;> rfl
  · rw [commitByKey_of_not_flushable_of_safe hsafe h, decide_eq_false h]
    rfl

theorem cached_commitByKey_other {k : String} (hne : k ≠ key) (cfg : GlobalConfig) (s : Node F)
    (fault : FlushFault) : (s.commitByKey cfg k fault).cached key = s.cached key :=
  cached_commitByKey_of_ne cfg s (fun _ => hne) fault

variable (cfg : GlobalConfig)

/-- **What is handed to `FlushFile`.**  Every key that can be flushed and has points gives
one call with all of them, and there are no other calls. -/
theorem flushed_commits (fault : String → FlushFault) (hrunning : s.running = true)
    (hnodup : keys.Nodup) (hsafe : ∀ key ∈ keys, Safe key) :
    (s.commits cfg fault keys).running = true ∧
      (s.commits cfg fault keys).flushed =
        ((keys.filter s.due).map (s.flushCall cfg)).reverse ++ s.flushed := by
  induction keys generalizing s with
  | nil => exact ⟨hrunning, rfl⟩
  | cons k keys ih =>
    obtain ⟨hk, hkeys⟩ := List.nodup_cons.mp hnodup
    have hsafek : Safe k := hsafe k List.mem_cons_self
    have hrest : ∀ key ∈ keys, key ≠ k := fun key hkey h => hk (h ▸ hkey)
    -- What is due of the other keys is so still after this one.
    have hdue : keys.filter (s.commitByKey cfg k (fault k)).due = keys.filter s.due := by
      refine List.filter_congr fun key hkey => ?_
      unfold due
      rw [cached_commitByKey_other (hrest key hkey).symm]
    have hcalls : (keys.filter s.due).map ((s.commitByKey cfg k (fault k)).flushCall cfg) =
        (keys.filter s.due).map (s.flushCall cfg) := by
      refine List.map_congr_left fun key hkey => ?_
      unfold flushCall
      rw [cached_commitByKey_other (hrest key (List.mem_filter.mp hkey).1).symm]
    obtain ⟨hrunning', hflushed⟩ := ih (s := s.commitByKey cfg k (fault k))
      ((running_commitByKey hsafek cfg s (fault k)).trans hrunning) hkeys
      fun key hkey => hsafe key (List.mem_cons_of_mem _ hkey)
    have hcons : s.commits cfg fault (k :: keys) =
        (s.commitByKey cfg k (fault k)).commits cfg fault keys := by
      rw [commits, List.foldl_cons, if_pos hrunning]
      rfl
    refine ⟨hcons ▸ hrunning', ?_⟩
    rw [hcons, hflushed, hdue, hcalls, flushed_commitByKey hsafek, List.filter_cons]
    split
    · rw [List.map_cons, List.reverse_cons, List.append_assoc]
      rfl
    · rfl

theorem cached_commits (fault : String → FlushFault) (hrunning : s.running = true)
    (hsafe : ∀ key ∈ keys, Safe key) (hflushable : Flushable key)
    (hkey : key ∈ keys ∨ s.cached key = []) : (s.commits cfg fault keys).cached key = [] := by
  induction keys generalizing s with
  | nil => exact hkey.resolve_left List.not_mem_nil
  | cons k keys ih =>
    have hcons : s.commits cfg fault (k :: keys) =
        (s.commitByKey cfg k (fault k)).commits cfg fault keys := by
      rw [commits, List.foldl_cons, if_pos hrunning]
      rfl
    rw [hcons]
    refine ih ((running_commitByKey (hsafe k List.mem_cons_self) cfg s _).trans hrunning)
      (fun key hkey => hsafe key (List.mem_cons_of_mem _ hkey)) ?_
    by_cases hk : k = key
    · subst hk
      exact Or.inr (cached_commitByKey hflushable cfg s _)
    · rw [cached_commitByKey_other hk]
      exact hkey.imp_left fun hmem => (List.mem_cons.mp hmem).resolve_left fun h => hk h.symm

end Node

/-! ## The keys of a running node -/

/-- The states of a node: whatever its goroutines do, at whatever points they stand, and
whatever the flag words are.  `set` is the second half of a `PushFront` that found no list
for its key, however late it comes; `remove` is `GraphItems.Remove`. -/
inductive Reachable (env : NodeEnv) : Node F → Prop
  | started (files : Files) : Reachable env (Node.started files)
  | step {s : Node F} (o : Traffic F) (p : Party F) (h : Reachable env s) :
    Reachable env (p.step env o s).1
  | set {s : Node F} (item : GraphItem F) (fileExists : Bool) (h : Reachable env s) :
    Reachable env
      { s with
        graphItems := s.graphItems.insert (itemKey env item)
          (GraphItemMap.newList env.cfg.migrateEnabled fileExists item) }
  | setFlag {s : Node F} (key : String) (flag : Flag) (h : Reachable env s) :
    Reachable env (s.setFlag key flag)
  | remove {s : Node F} (key : String) (h : Reachable env s) :
    Reachable env { s with graphItems := s.graphItems.erase key }

namespace Node

/-- Every key is the key of an item. -/
def HasItemKeys (env : NodeEnv) (s : Node F) : Prop :=
  ∀ key, key ∈ s.graphItems → ∃ item : GraphItem F, itemKey env item = key

variable {env : NodeEnv} {s : Node F}

theorem HasItemKeys.pushFront (h : s.HasItemKeys env) (item : GraphItem F) :
    (s.pushFront env item).HasItemKeys env := by
  intro key hkey
  rcases (mem_pushFront_iff env s item key).mp hkey with hkey | rfl
  · exact h key hkey
  · exact ⟨item, rfl⟩

theorem HasItemKeys.move {o : Outside F} {w w' : Worker F} {s' : Node F}
    (h : s.HasItemKeys env) (hmove : Worker.Move env.cfg o s w s' w') : s'.HasItemKeys env := by
  intro key hkey
  rw [Worker.mem_graphItems_iff, hmove.isSome_flag key, ← Worker.mem_graphItems_iff] at hkey
  exact h key hkey

theorem HasItemKeys.step (h : s.HasItemKeys env) (o : Traffic F) (p : Party F) :
    (p.step env o s).1.HasItemKeys env :=
  Party.step_keeps o p h (fun _ _ _ _ => h.move) h.pushFront

end Node

/-- **The keys of a running node are keys of items.** -/
theorem Reachable.hasItemKeys {s : Node F} (h : Reachable env s) : s.HasItemKeys env := by
  induction h with
  | started files => exact fun key hkey => absurd hkey (AList.notMem_empty key)
  | step o p _ ih => exact ih.step o p
  | set item fileExists _ ih =>
    intro key hkey
    rcases (AList.mem_insert _).mp hkey with rfl | hkey
    · exact ⟨item, rfl⟩
    · exact ih key hkey
  | setFlag key flag _ ih =>
    intro k hk
    rw [Worker.mem_graphItems_iff, Node.flag_setFlag] at hk
    refine ih k (Worker.mem_graphItems_iff.mpr ?_)
    split at hk
    · rwa [Option.isSome_map] at hk
    · exact hk
  | remove key _ ih => exact fun k hk => ih k (AList.mem_erase.mp hk).2

/-! ### Whole calls -/

section

variable {env : NodeEnv} {s : Node F}

theorem Reachable.alone (h : Reachable env s) (w : Worker F) (os : List (Outside F)) :
    Reachable env (Machine.alone (Worker.step env.cfg) (s, w) os).1 := by
  induction os generalizing s w with
  | nil => exact h
  | cons o os ih =>
    rw [Machine.alone_cons]
    exact ih (h.step { toOutside := o } (.agent (.worker w))) _

theorem Reachable.commitByKey (h : Reachable env s) (hrunning : s.running = true)
    (key : String) (fault : FlushFault) : Reachable env (s.commitByKey env.cfg key fault) := by
  have halone := h.alone (.commitPop key) [{}, { flush := fault }]
  rw [Node.alone_commitByKey env.cfg hrunning key _ _ rfl] at halone
  exact halone

theorem Reachable.pushFront (h : Reachable env s) (hrunning : s.running = true)
    (item : GraphItem F) : Reachable env (s.pushFront env item) := by
  have hstep := h.step {} (.agent (.handler (.push item [])))
  unfold Party.step Agent.step at hstep
  dsimp only at hstep
  rw [if_pos hrunning] at hstep
  exact hstep

theorem Reachable.handleItems (h : Reachable env s) (hrunning : s.running = true)
    (items : List (Option (GraphItem F))) : Reachable env (s.handleItems env items) := by
  refine (List.foldlRecOn (motive := fun s => Reachable env s ∧ s.running = true) items
    (Node.handleItem env) ⟨h, hrunning⟩ ?_).1
  rintro s ⟨h, hrunning⟩ item -
  cases item with
  | none => exact ⟨h, hrunning⟩
  | some item =>
    rw [Node.handleItem_some]
    split
    · exact ⟨h.pushFront hrunning item, hrunning⟩
    · exact ⟨h, hrunning⟩

/-- **What whole calls lead to is reachable.** -/
theorem reachable_calls (env : NodeEnv) (files : Files) (cs : List (Call F)) :
    Reachable env ((Node.started files).calls env cs) := by
  refine List.foldlRecOn (motive := Reachable env) cs (Node.call env) (Reachable.started files) ?_
  intro s h c _
  unfold Node.call
  split
  · rename_i hrunning
    cases c with
    | handleItems items => exact h.handleItems hrunning items
    | commitByKey key fault => exact h.commitByKey hrunning key fault
    | getRrd key fault =>
      show Reachable env (s.getRrd env.cfg key fault).2
      rw [Node.getRrd_snd]
      exact h.commitByKey hrunning key fault
  · exact h

end

theorem safe_itemKey (hmd5 : IsMd5 env.md5) (item : GraphItem F) :
    Node.Safe (itemKey env item) := by
  by_cases h : Splittable item.dsType item.step
  · exact Or.inl ((flushable_itemKey_iff hmd5 item).mpr h)
  · exact Or.inr (isSome_split_itemKey hmd5 h)

/-! ## Files of keys -/

theorem keyFileName_itemKey (hmd5 : IsMd5 env.md5) (item : GraphItem F)
    (h : Splittable item.dsType item.step) (storage : String) :
    keyFileName storage (itemKey env item) =
      rrdFileName storage (checksum env item) item.dsType item.step := by
  have hno : '_' ∉ (checksum env item).toList := hmd5.underscore_notMem _
  unfold keyFileName itemKey
  rw [splitRrdCacheKey_of_splittable hno h]

/-- The name of a file is a directory of two letters and the key. -/
theorem toList_rrdFileName (storage md5 dsType : String) (step : Int) :
    (rrdFileName storage md5 dsType step).toList =
      (storage.toList ++ ['/']) ++ ((md5.toList.take 2 ++ ['/']) ++
        ((formRrdCacheKey md5 dsType step).toList ++ ".rrd".toList)) := by
  unfold rrdFileName formRrdCacheKey
  simp only [String.toList_append, String.toList_ofList, List.append_assoc]
  rfl

/-- A file is named by its key, as checksums are of one length. -/
theorem formRrdCacheKey_eq_of_rrdFileName_eq {md5 : String → String} (hmd5 : IsMd5 md5)
    {storage name name' dsType dsType' : String} {step step' : Int}
    (h : rrdFileName storage (md5 name) dsType step =
      rrdFileName storage (md5 name') dsType' step') :
    formRrdCacheKey (md5 name) dsType step = formRrdCacheKey (md5 name') dsType' step' := by
  have htake : ∀ s, ((md5 s).toList.take 2 ++ ['/']).length = 3 := by
    intro s
    rw [List.length_append, List.length_take, hmd5.length s]
    rfl
  rw [← String.toList_inj, toList_rrdFileName, toList_rrdFileName] at h
  have htail :=
    (List.append_inj (List.append_cancel_left h) ((htake name).trans (htake name').symm)).2
  exact String.toList_inj.mp (List.append_cancel_right htail)

/-- **No two keys of items share a file.** -/
theorem eq_of_keyFileName_eq (hmd5 : IsMd5 env.md5) {storage : String} {a b : GraphItem F}
    (ha : Flushable (itemKey env a)) (hb : Flushable (itemKey env b))
    (h : keyFileName storage (itemKey env a) = keyFileName storage (itemKey env b)) :
    itemKey env a = itemKey env b := by
  rw [keyFileName_itemKey hmd5 a ((flushable_itemKey_iff hmd5 a).mp ha),
    keyFileName_itemKey hmd5 b ((flushable_itemKey_iff hmd5 b).mp hb)] at h
  exact formRrdCacheKey_eq_of_rrdFileName_eq hmd5 h

/-! ## The cached points are in the order of time -/

namespace Node

variable {env : NodeEnv} {key : String} {s : Node F}

theorem increasing_cached_handleItem (h : Increasing (s.cached key)) (item : Option (GraphItem F)) :
    Increasing ((s.handleItem env item).cached key) := by
  cases item with
  | none => exact h
  | some item =>
    rw [cached_handleItem_some]
    split
    · rename_i htakes
      obtain ⟨htakes, rfl⟩ := htakes
      have hfirst := (Bool.and_eq_true_iff.mp htakes).2
      refine (increasing_append_singleton h item).mpr fun b hb => ?_
      rw [first_eq] at hfirst
      cases hlast : (s.cached (itemKey env item)).getLast? with
      | none =>
        rw [List.getLast?_eq_none_iff.mp hlast] at hb
        exact absurd hb List.not_mem_nil
      | some last =>
        rw [hlast] at hfirst
        exact (h.le_getLast? hlast hb).trans_lt (by simpa using hfirst)
    · exact h

theorem increasing_cached_call (h : Increasing (s.cached key)) (c : Call F) :
    Increasing ((s.call env c).cached key) := by
  have hcommit : ∀ k fault, Increasing ((s.commitByKey env.cfg k fault).cached key) := by
    intro k fault
    by_cases hk : Flushable k ∧ k = key
    · obtain ⟨hflushable, rfl⟩ := hk
      rw [cached_commitByKey hflushable]
      exact List.Pairwise.nil
    · rw [cached_commitByKey_of_ne env.cfg s fun hflushable heq => hk ⟨hflushable, heq⟩]
      exact h
  unfold call
  split
  · cases c with
    | handleItems items =>
      exact List.foldlRecOn (motive := fun s => Increasing (s.cached key)) items (handleItem env) h
        fun s hs item _ => increasing_cached_handleItem hs item
    | commitByKey k fault => exact hcommit k fault
    | getRrd k fault =>
      show Increasing ((s.getRrd env.cfg k fault).2.cached key)
      rw [getRrd_snd]
      exact hcommit k fault
  · exact h

/-- **Whole calls keep the cached points in the order of time.** -/
theorem increasing_cached_calls (env : NodeEnv) (files : Files) (cs : List (Call F))
    (key : String) : Increasing (((started files).calls env cs).cached key) := by
  refine List.foldlRecOn (motive := fun s => Increasing (s.cached key)) cs (call env) ?_
    fun s hs c _ => increasing_cached_call hs c
  exact List.Pairwise.nil

end Node

/-! ## The shutdown -/

/-- If no other key has the file of the key, the calls with that file are those of the
key. -/
theorem Node.filter_flushCall (cfg : GlobalConfig) (s : Node F) {keys : List String}
    (hnodup : keys.Nodup) {key : String} (hkey : key ∈ keys) (hflushable : Flushable key)
    (hfile : ∀ k ∈ keys, Flushable k →
      keyFileName cfg.storage k = keyFileName cfg.storage key → k = key) :
    ((keys.filter s.due).map (s.flushCall cfg)).filter
        (fun call => call.filename = keyFileName cfg.storage key) =
      if s.cached key = [] then [] else [s.flushCall cfg key] := by
  have hfilter : (keys.filter s.due).filter
      (fun k => keyFileName cfg.storage k = keyFileName cfg.storage key) =
      (keys.filter (· = key)).filter s.due := by
    rw [List.filter_filter, List.filter_filter]
    refine List.filter_congr fun k hk => ?_
    cases hdue : s.due k with
    | false => rw [Bool.and_false, Bool.false_and]
    | true =>
      have hk' : Flushable k := of_decide_eq_true (Bool.and_eq_true_iff.mp hdue).1
      rw [Bool.and_true, Bool.true_and]
      exact decide_eq_decide.mpr ⟨hfile k hk hk', fun h => h ▸ rfl⟩
  have hone : keys.filter (· = key) = [key] := by
    rw [List.filter_eq, List.count_eq_one_of_mem hnodup hkey]
    rfl
  rw [List.filter_map]
  refine (congrArg (List.map (s.flushCall cfg)) (hfilter.trans (by rw [hone]))).trans ?_
  cases hcached : s.cached key with
  | nil => simp [due, hcached]
  | cons item items => simp [due, hcached, hflushable]

/-- **The flush at shutdown is complete.**  For every key that splits, `FlushAll(true)` calls
`FlushFile` with the file of that key once, if it has points, with all of them from the back
of its list to the front, and never if it has none; nothing of the key is left in the cache.
The points go out in the order of time if they came by whole calls. -/
theorem flushAll_complete {env : NodeEnv} (hmd5 : IsMd5 env.md5) {s : Node F}
    (hs : Reachable env s) (hrunning : s.running = true) {hashKey : String → BitVec 32}
    {t : ArrayNode F hashKey} (ht : Represents s t) (o : FlushOutside) {key : String}
    (hkey : key ∈ s.graphItems) (hsplit : (splitRrdCacheKey key).2.2.2 = none) :
    (∃ item : GraphItem F, itemKey env item = key ∧
        keyFileName env.cfg.storage key =
          rrdFileName env.cfg.storage (checksum env item) item.dsType item.step) ∧
      (∃ calls, (t.flushAll env.cfg o true).flushed = calls ++ t.flushed ∧
        calls.filter (fun call => call.filename = keyFileName env.cfg.storage key) =
          if s.cached key = [] then []
          else [⟨key, keyFileName env.cfg.storage key, s.cached key⟩]) ∧
      (t.flushAll env.cfg o true).cached key = [] ∧
      (t.flushAll env.cfg o true).running = true ∧
      ((∃ files cs, s = (Node.started files).calls env cs) → Increasing (s.cached key)) := by
  have hwalk : ∀ k, k ∈ t.graphItems.walk ↔ k ∈ s.graphItems := by
    intro k
    rw [Buckets.mem_walk, ht.lookup, AList.lookup_isSome]
  have hsafe : ∀ k ∈ t.graphItems.walk, Node.Safe k := by
    intro k hk
    obtain ⟨it, rfl⟩ := hs.hasItemKeys k ((hwalk k).mp hk)
    exact safe_itemKey hmd5 it
  obtain ⟨item, rfl⟩ := hs.hasItemKeys key hkey
  have hmem := (hwalk _).mpr hkey
  have hflushable : Flushable (itemKey env item) := by
    refine (hsafe _ hmem).resolve_right fun herr => ?_
    rw [hsplit] at herr
    cases herr
  have hfile : ∀ k ∈ t.graphItems.walk, Flushable k →
      keyFileName env.cfg.storage k = keyFileName env.cfg.storage (itemKey env item) →
        k = itemKey env item := by
    intro k hk hk' heq
    obtain ⟨it, rfl⟩ := hs.hasItemKeys k ((hwalk k).mp hk)
    exact eq_of_keyFileName_eq hmd5 hk' hflushable heq
  have hrep := Node.represents_commits ht env.cfg o t.graphItems.walk
  rw [← ArrayNode.flushAll_force] at hrep
  obtain ⟨hrun, hflushed⟩ := Node.flushed_commits env.cfg o.fault hrunning
    t.graphItems.nodup_walk hsafe
  refine ⟨⟨item, rfl, ?_⟩,
    ⟨((t.graphItems.walk.filter s.due).map (s.flushCall env.cfg)).reverse, ?_, ?_⟩, ?_, ?_, ?_⟩
  · exact keyFileName_itemKey hmd5 item ((flushable_itemKey_iff hmd5 item).mp hflushable) _
  · rw [hrep.flushed, hflushed, ht.flushed]
  · rw [List.filter_reverse,
      Node.filter_flushCall env.cfg s t.graphItems.nodup_walk hmem hflushable hfile]
    split <;> rfl
  · rw [hrep.cached]
    exact Node.cached_commits env.cfg o.fault hrunning hsafe hflushable (Or.inl hmem)
  · rw [hrep.running]
    exact hrun
  · rintro ⟨files, cs, rfl⟩
    exact Node.increasing_cached_calls env files cs _

/-- Two points of the series `host/load`, and one that cannot be flushed. -/
def threePoints : Node Unit :=
  (Node.started []).calls loadEnv
    [.handleItems [some (gaugeItem 60), some (typedItem "GAUGE_1M" 60), some (gaugeItem 120)]]

theorem cached_threePoints : threePoints.cached loadKey = [gaugeItem 60, gaugeItem 120] := rfl

/-- The points in an array, and a ring without nodes. -/
def threeSpread : ArrayNode Unit fun key => BitVec.ofNat 32 key.length :=
  threePoints.spread _

def atNoon : FlushOutside where
  ring := fun _ => none
  now := fun _ => 43200
  fault := fun _ => .none

theorem flushAll_complete_load :
    loadKey ∈ threePoints.graphItems ∧ (splitRrdCacheKey loadKey).2.2.2 = none ∧
      (∃ calls, (threeSpread.flushAll dataConfig atNoon true).flushed = calls ++ [] ∧
        calls.filter (fun call => call.filename = keyFileName "data" loadKey) =
          [⟨loadKey, keyFileName "data" loadKey, [gaugeItem 60, gaugeItem 120]⟩]) ∧
      (threeSpread.flushAll dataConfig atNoon true).cached loadKey = [] := by
  have hkey : loadKey ∈ threePoints.graphItems := AList.lookup_isSome.mp rfl
  have hsplit : (splitRrdCacheKey loadKey).2.2.2 = none := by decide
  have hs : Reachable loadEnv threePoints := reachable_calls loadEnv [] _
  obtain ⟨-, ⟨calls, hflushed, hcalls⟩, hcached, -⟩ :=
    flushAll_complete isMd5_loadEnv hs rfl
      (represents_spread (fun key => BitVec.ofNat 32 key.length) threePoints) atNoon hkey hsplit
  rw [cached_threePoints, if_neg (List.cons_ne_nil _ _)] at hcalls
  exact ⟨hkey, hsplit, ⟨calls, hflushed, hcalls⟩, hcached⟩

end OpenFalcon.Graph
