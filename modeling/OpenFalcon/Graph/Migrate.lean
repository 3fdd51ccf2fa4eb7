import OpenFalcon.Graph.Store
import OpenFalcon.Machine.Interleaving

/-!
# Moving a series to its new node

`rrdtool/migrate.go`: when a series has moved to this node its RRD file is still on the
node that had it before.  `GRAPH_F_MISS` marks such a series, and the workers
`net_task_worker` bring it over: `fetch_rrd` fetches the file, and `send_data` hands the
cached points to the other node when there is no time for that.

A worker stands at one of the program points `Worker`, and `Worker.step` is its next
atomic step: one operation of the cache, one remote call or one task of the disk.  What
it cannot know, the task it is given, the answer of the remote node and the failures of
the network and the disk, comes in as an `Outside`.  The remote node is a node as well,
and what it answers is what its own `GetRrd` computes.

The flag word of a key is read at the beginning of a task and written back, changed, at
the end.  `Worker.copy` is the word a worker still has to write back.

`Worker.Move` lists what a step can do, and `move_step` says that this is all; what the
steps do to the flag words is read off that list.
-/

namespace OpenFalcon.Graph

variable {F : Type} {g : Flag}

/-! ## The flag word -/

/-- The test `flag&g.GRAPH_F_MISS != 0`. -/
def isMiss (flag : Flag) : Bool :=
  flag &&& GRAPH_F_MISS != 0

theorem isMiss_or_of (hg : g &&& GRAPH_F_MISS = 0) (flag : Flag) :
    isMiss (flag ||| g) = isMiss flag := by
  have hdistrib : (flag ||| g) &&& GRAPH_F_MISS =
      (flag &&& GRAPH_F_MISS) ||| (g &&& GRAPH_F_MISS) := by
    ext i hi
    simp [Bool.and_or_distrib_right]
  unfold isMiss
  rw [hdistrib, hg, BitVec.ofNat_eq_ofNat, BitVec.or_zero]

theorem isMiss_and_not_of (hg : ~~~g &&& GRAPH_F_MISS = GRAPH_F_MISS) (flag : Flag) :
    isMiss (flag &&& ~~~g) = isMiss flag := by
  unfold isMiss
  rw [BitVec.and_assoc, hg]

@[simp] theorem isMiss_or_sending (flag : Flag) : isMiss (flag ||| GRAPH_F_SENDING) = isMiss flag :=
  isMiss_or_of (by decide) flag

@[simp] theorem isMiss_or_fetching (flag : Flag) :
    isMiss (flag ||| GRAPH_F_FETCHING) = isMiss flag :=
  isMiss_or_of (by decide) flag

@[simp] theorem isMiss_and_not_sending (flag : Flag) :
    isMiss (flag &&& ~~~GRAPH_F_SENDING) = isMiss flag :=
  isMiss_and_not_of (by decide) flag

@[simp] theorem isMiss_and_not_fetching (flag : Flag) :
    isMiss (flag &&& ~~~GRAPH_F_FETCHING) = isMiss flag :=
  isMiss_and_not_of (by decide) flag

@[simp] theorem isMiss_and_not_miss (flag : Flag) : isMiss (flag &&& ~~~GRAPH_F_MISS) = false := by
  unfold isMiss
  rw [BitVec.and_assoc, show ~~~GRAPH_F_MISS &&& GRAPH_F_MISS = 0#32 by decide, BitVec.and_zero]
  rfl

@[simp] theorem isMiss_zero : isMiss 0 = false := by decide

/-! ## A node -/

/-- The settings the node reads: `cfg.RRD.Storage` and `cfg.Migrate.Enabled`. -/
structure GlobalConfig where
  storage : String
  migrateEnabled : Bool

/-- A call of `FlushFile`, with the key its caller had. -/
structure FlushCall (F : Type) where
  key : String
  filename : String
  items : List (GraphItem F)

/-- The state of a node. -/
structure Node (F : Type) where
  graphItems : GraphItemMap F
  files : Files
  /-- The calls of `FlushFile` so far, the latest first. -/
  flushed : List (FlushCall F) := []
  /-- The points sent to the remote node so far, with their keys, the latest first. -/
  sent : List (String × List (GraphItem F)) := []
  /-- A panic ends the process. -/
  running : Bool := true

namespace Node

/-- The flag word of a key. -/
def flag (s : Node F) (key : String) : Option Flag :=
  (s.graphItems.lookup key).map SafeLinkedList.flag

/-- Whether `GRAPH_F_MISS` is set for a key. -/
def missing (s : Node F) (key : String) : Bool :=
  (s.flag key).any isMiss

/-- `SetFlag` on the cache of the node. -/
def setFlag (s : Node F) (key : String) (flag : Flag) : Node F :=
  { s with graphItems := (GraphItemMap.setFlag s.graphItems key flag).1 }

/-- `PopAll` on the cache of the node. -/
def popAll (s : Node F) (key : String) : List (GraphItem F) × Node F :=
  let r := GraphItemMap.popAll s.graphItems key
  (r.1, { s with graphItems := r.2 })

/-- `PushAll` on the cache of the node. -/
def pushAll (s : Node F) (key : String) (items : List (GraphItem F)) : Node F :=
  { s with graphItems := (GraphItemMap.pushAll s.graphItems key items).1 }

/-- `FlushFile`, called with the points of a key. -/
def flushFile (s : Node F) (call : FlushCall F) (fault : FlushFault) : Node F :=
  { s with
    files := (flushrrd call.filename call.items fault s.files).2
    flushed := call :: s.flushed }

/-- `Graph.GetRrd`: the error, and what it leaves; a panic leaves no answer. -/
def getRrd (cfg : GlobalConfig) (s : Node F) (key : String) (fault : FlushFault) :
    Option (Option Err) × Node F :=
  let split := splitRrdCacheKey key
  match split.2.2.2 with
  | some err => (some (some err), s)
  | none =>
    if rrdFileNamePanics split.1 then (none, { s with running := false })
    else
      let filename := keyFileName cfg.storage key
      let popped := s.popAll key
      let flushed :=
        if popped.1.isEmpty then popped.2 else popped.2.flushFile ⟨key, filename, popped.1⟩ fault
      (some (readFile filename flushed.files), flushed)

/-! ### What the operations do to the flag words -/

theorem flag_setFlag (s : Node F) (k key : String) (f : Flag) :
    (s.setFlag k f).flag key = if key = k then (s.flag key).map fun _ => f else s.flag key := by
  unfold flag setFlag GraphItemMap.setFlag
  rw [GraphItemMap.lookup_modify]
  split
  · rw [Option.map_map, Option.map_map]
    rfl
  · rfl

theorem flag_modify (s : Node F) (k key : String) {f : SafeLinkedList F → SafeLinkedList F}
    (hf : ∀ sl, (f sl).flag = sl.flag) :
    flag { s with graphItems := GraphItemMap.modify s.graphItems k f } key = s.flag key := by
  unfold flag
  rw [GraphItemMap.lookup_modify]
  split
  · rw [Option.map_map, show SafeLinkedList.flag ∘ f = SafeLinkedList.flag from funext hf]
  · rfl

@[simp] theorem flag_popAll (s : Node F) (k key : String) : (s.popAll k).2.flag key = s.flag key :=
  flag_modify s k key fun _ => rfl

@[simp] theorem flag_pushAll (s : Node F) (k key : String) (items : List (GraphItem F)) :
    (s.pushAll k items).flag key = s.flag key :=
  flag_modify s k key fun _ => rfl

variable {key : String} {s : Node F}

theorem getFlag_eq_ok {f : Flag} (h : GraphItemMap.getFlag s.graphItems key = .ok f) :
    s.flag key = some f := by
  unfold GraphItemMap.getFlag at h
  unfold flag
  cases hsl : s.graphItems.lookup key with
  | none => rw [hsl] at h; cases h
  | some sl => rw [hsl] at h; cases h; rfl

theorem getFlag_eq_error {err : Err} (h : GraphItemMap.getFlag s.graphItems key = .error err) :
    err = .plain "not exist" := by
  unfold GraphItemMap.getFlag at h
  split at h
  · cases h
  · cases h
    rfl

end Node

/-! ## A worker -/

/-- How a remote call fails without an answer. -/
inductive RpcErr where
  | errShutdown
  /-- The timeout of `rpc_call`. -/
  | timeout
  /-- An error of the connection. -/
  | conn (msg : String)

/-- The error value `rpc_call` returns then. -/
def RpcErr.err : RpcErr → Err
  | errShutdown => .errShutdown
  | timeout => .plain "i/o timeout[rpc]"
  | conn msg => .plain msg

/-- What becomes of a remote call. -/
inductive Reply (F : Type) where
  /-- The remote node was in this state, ran the call and answered. -/
  | answer (cfg : GlobalConfig) (remote : Node F) (fault : FlushFault)
  | lost (err : RpcErr)

/-- The error of `rpc_call` for `Graph.GetRrd`.  The remote error arrives as its text. -/
def Reply.getRrd (key : String) : Reply F → Option Err
  | answer cfg remote fault =>
    match (remote.getRrd cfg key fault).1 with
    | some err => err.map fun e => .serverError e.text
    | none => some (.plain "unexpected EOF")
  | lost err => some err.err

/-- The error of `rpc_call` for `Graph.Send`, which always answers `nil`. -/
def Reply.send : Reply F → Option Err
  | answer _ _ _ => none
  | lost err => some err.err

/-- The methods of a net task. -/
inductive NetTaskMethod where
  | send
  | query
  | pull

/-- What a worker does not decide itself. -/
structure Outside (F : Type) where
  /-- The task in the channel, if there is one. -/
  task : Option (NetTaskMethod × String) := none
  flushrrdTimeout : Int := 0
  reply : Reply F := .lost .timeout
  write : WriteFault := .none
  flush : FlushFault := .none

/-- The program points of `net_task_worker` and of the functions it calls. -/
inductive Worker (F : Type) where
  | idle
  /-- `send_data`: before `GetFlag`, `SetFlag`, `PopAll`, the `i`-th call, `PushAll` and the
  last `SetFlag`. -/
  | sendGet (key : String)
  | sendSet (key : String) (flag : Flag)
  | sendPop (key : String) (flag : Flag)
  | sendCall (key : String) (flag : Flag) (items : List (GraphItem F)) (i : ℕ)
  | sendRestore (key : String) (flag : Flag) (items : List (GraphItem F))
  | sendOut (key : String) (flag : Flag)
  /-- `fetch_rrd`: before `GetFlag`, `SetFlag`, the `i`-th call, the write task and the last
  `SetFlag`. -/
  | fetchGet (key : String)
  | fetchSet (key : String) (flag : Flag)
  | fetchCall (key : String) (flag : Flag) (i : ℕ)
  | fetchWrite (key : String) (flag : Flag)
  | fetchOut (key : String) (flag : Flag) (err : Option Err)
  /-- `net_task_worker`: before `SetFlag(key, 0)`. -/
  | notExist (key : String)
  /-- `CommitByKey`: before `PopAll` and `FlushFile`. -/
  | commitPop (key : String)
  | commitFlush (call : FlushCall F)

namespace Worker

/-- Where `net_task_worker` goes with a task. -/
def start (method : NetTaskMethod) (key : String) (flushrrdTimeout : Int) : Worker F :=
  match method with
  | .send => sendGet key
  | .query => idle
  | .pull => if flushrrdTimeout ≠ 0 then sendGet key else fetchGet key

/-- Where `net_task_worker` goes when `fetch_rrd` has returned. -/
def fetched (key : String) : Option Err → Worker F
  | some err => if isNotExist err then notExist key else idle
  | none => idle

/-- One atomic step of a worker. -/
def step (cfg : GlobalConfig) (o : Outside F) (s : Node F) (w : Worker F) : Node F × Worker F :=
  if s.running then
    match w with
    | idle =>
      match o.task with
      | some (method, key) => (s, start method key o.flushrrdTimeout)
      | none => (s, idle)
    | sendGet key =>
      match GraphItemMap.getFlag s.graphItems key with
      | .ok flag => (s, sendSet key flag)
      | .error _ => (s, idle)
    | sendSet key flag => (s.setFlag key (flag ||| GRAPH_F_SENDING), sendPop key flag)
    | sendPop key flag =>
      let popped := s.popAll key
      (popped.2, if popped.1.isEmpty then sendOut key flag else sendCall key flag popped.1 0)
    | sendCall key flag items i =>
      match o.reply.send with
      | none => ({ s with sent := (key, items) :: s.sent }, sendOut key flag)
      | some _ =>
        (s, if i + 1 < 3 then sendCall key flag items (i + 1) else sendRestore key flag items)
    | sendRestore key flag items => (s.pushAll key items, sendOut key flag)
    | sendOut key flag => (s.setFlag key (flag &&& ~~~GRAPH_F_SENDING), idle)
    | fetchGet key =>
      match GraphItemMap.getFlag s.graphItems key with
      | .ok flag => (s, fetchSet key flag)
      | .error err => (s, fetched key (some err))
    | fetchSet key flag =>
      let s := s.setFlag key (flag ||| GRAPH_F_FETCHING)
      -- `RrdFileName` is called on whatever `SplitRrdCacheKey` left in `md5`.
      if rrdFileNamePanics (splitRrdCacheKey key).1 then ({ s with running := false }, idle)
      else (s, fetchCall key flag 0)
    | fetchCall key flag i =>
      match o.reply.getRrd key with
      | none => (s, fetchWrite key flag)
      | some err =>
        (s, if i + 1 < 3 then fetchCall key flag (i + 1) else fetchOut key flag (some err))
    | fetchWrite key flag =>
      let r := ioWrite (keyFileName cfg.storage key) o.write s.files
      ({ s with files := r.2 },
        match r.1 with
        | some err => fetchOut key flag (some err)
        | none => fetchOut key (flag &&& ~~~GRAPH_F_MISS) none)
    | fetchOut key flag err => (s.setFlag key (flag &&& ~~~GRAPH_F_FETCHING), fetched key err)
    | notExist key => (s.setFlag key 0, commitPop key)
    | commitPop key =>
      let split := splitRrdCacheKey key
      if split.2.2.2.isSome then (s, idle)
      else if rrdFileNamePanics split.1 then ({ s with running := false }, idle)
      else
        let popped := s.popAll key
        (popped.2,
          if popped.1.isEmpty then idle
          else commitFlush ⟨key, keyFileName cfg.storage key, popped.1⟩)
    | commitFlush call => (s.flushFile call o.flush, idle)
  else (s, w)

/-- The flag word a worker has read and will write back, with its key. -/
def copy : Worker F → Option (String × Flag)
  | sendSet key flag => some (key, flag)
  | sendPop key flag => some (key, flag)
  | sendCall key flag _ _ => some (key, flag)
  | sendRestore key flag _ => some (key, flag)
  | sendOut key flag => some (key, flag)
  | fetchSet key flag => some (key, flag)
  | fetchCall key flag _ => some (key, flag)
  | fetchWrite key flag => some (key, flag)
  | fetchOut key flag _ => some (key, flag)
  | _ => none

/-! ## What a step can do -/

/-- **What a step can do**: the state it leaves and the next program point, for every
program point and every outcome.  The results below are read off these cases. -/
inductive Move (cfg : GlobalConfig) (o : Outside F) (s : Node F) :
    Worker F → Node F → Worker F → Prop
  | stopped (w : Worker F) (h : s.running = false) : Move cfg o s w s w
  | takeNothing : Move cfg o s idle s idle
  | takeSend (k : String) : Move cfg o s idle s (sendGet k)
  | takeFetch (k : String) : Move cfg o s idle s (fetchGet k)
  | sendAbsent (k : String) : Move cfg o s (sendGet k) s idle
  | sendRead (k : String) (f : Flag) (h : s.flag k = some f) :
      Move cfg o s (sendGet k) s (sendSet k f)
  | sendMark (k : String) (f : Flag) :
      Move cfg o s (sendSet k f) (s.setFlag k (f ||| GRAPH_F_SENDING)) (sendPop k f)
  | sendEmpty (k : String) (f : Flag) : Move cfg o s (sendPop k f) (s.popAll k).2 (sendOut k f)
  | sendTake (k : String) (f : Flag) :
      Move cfg o s (sendPop k f) (s.popAll k).2 (sendCall k f (s.popAll k).1 0)
  | sendOk (k : String) (f : Flag) (items : List (GraphItem F)) (i : ℕ) :
      Move cfg o s (sendCall k f items i) { s with sent := (k, items) :: s.sent } (sendOut k f)
  | sendAgain (k : String) (f : Flag) (items : List (GraphItem F)) (i : ℕ) :
      Move cfg o s (sendCall k f items i) s (sendCall k f items (i + 1))
  | sendFail (k : String) (f : Flag) (items : List (GraphItem F)) (i : ℕ) :
      Move cfg o s (sendCall k f items i) s (sendRestore k f items)
  | restore (hrunning : s.running = true) (k : String) (f : Flag) (items : List (GraphItem F)) :
      Move cfg o s (sendRestore k f items) (s.pushAll k items) (sendOut k f)
  | sendEnd (k : String) (f : Flag) :
      Move cfg o s (sendOut k f) (s.setFlag k (f &&& ~~~GRAPH_F_SENDING)) idle
  | fetchAbsent (k : String) : Move cfg o s (fetchGet k) s idle
  | fetchRead (k : String) (f : Flag) (h : s.flag k = some f) :
      Move cfg o s (fetchGet k) s (fetchSet k f)
  | fetchPanic (k : String) (f : Flag) :
      Move cfg o s (fetchSet k f)
        { s.setFlag k (f ||| GRAPH_F_FETCHING) with running := false } idle
  | fetchMark (k : String) (f : Flag) :
      Move cfg o s (fetchSet k f) (s.setFlag k (f ||| GRAPH_F_FETCHING)) (fetchCall k f 0)
  | fetchOk (k : String) (f : Flag) (i : ℕ) (h : o.reply.getRrd k = none) :
      Move cfg o s (fetchCall k f i) s (fetchWrite k f)
  | fetchAgain (k : String) (f : Flag) (i : ℕ) :
      Move cfg o s (fetchCall k f i) s (fetchCall k f (i + 1))
  | fetchFail (k : String) (f : Flag) (i : ℕ) (err : Err) (h : o.reply.getRrd k = some err) :
      Move cfg o s (fetchCall k f i) s (fetchOut k f (some err))
  | writeOk (k : String) (f : Flag)
      (h : (ioWrite (keyFileName cfg.storage k) o.write s.files).1 = none) :
      Move cfg o s (fetchWrite k f)
        { s with files := (ioWrite (keyFileName cfg.storage k) o.write s.files).2 }
        (fetchOut k (f &&& ~~~GRAPH_F_MISS) none)
  | writeFail (k : String) (f : Flag) (err : Err) :
      Move cfg o s (fetchWrite k f)
        { s with files := (ioWrite (keyFileName cfg.storage k) o.write s.files).2 }
        (fetchOut k f (some err))
  | fetchEnd (k : String) (f : Flag) (err : Option Err) :
      Move cfg o s (fetchOut k f err) (s.setFlag k (f &&& ~~~GRAPH_F_FETCHING)) idle
  | fetchNotExist (k : String) (f : Flag) (err : Err) (h : isNotExist err = true) :
      Move cfg o s (fetchOut k f (some err)) (s.setFlag k (f &&& ~~~GRAPH_F_FETCHING)) (notExist k)
  | clear (k : String) : Move cfg o s (notExist k) (s.setFlag k 0) (commitPop k)
  | commitSkip (k : String) : Move cfg o s (commitPop k) s idle
  | commitPanic (k : String) : Move cfg o s (commitPop k) { s with running := false } idle
  | commitEmpty (k : String) : Move cfg o s (commitPop k) (s.popAll k).2 idle
  | commitTake (k : String) :
      Move cfg o s (commitPop k) (s.popAll k).2
        (commitFlush ⟨k, keyFileName cfg.storage k, (s.popAll k).1⟩)
  | flush (call : FlushCall F) : Move cfg o s (commitFlush call) (s.flushFile call o.flush) idle

variable {cfg : GlobalConfig} {o : Outside F} {s s' : Node F} {w w' : Worker F} {key k : String}
  {f' f : Flag}

theorem move_start (method : NetTaskMethod) (k : String) (timeout : Int) :
    Move cfg o s idle s (start method k timeout) := by
  cases method with
  | send => exact .takeSend k
  | query => exact .takeNothing
  | pull =>
    unfold start
    dsimp only
    split
    · exact .takeSend k
    · exact .takeFetch k

theorem move_fetched (k : String) (f : Flag) (err : Option Err) :
    Move cfg o s (fetchOut k f err) (s.setFlag k (f &&& ~~~GRAPH_F_FETCHING)) (fetched k err) := by
  unfold fetched
  split
  · split
    · rename_i e he
      exact .fetchNotExist k f e he
    · exact .fetchEnd k f _
  · exact .fetchEnd k f none

/-- **Every step is one of the cases.** -/
theorem move_step (cfg : GlobalConfig) (o : Outside F) (s : Node F) (w : Worker F) :
    Move cfg o s w (step cfg o s w).1 (step cfg o s w).2 := by
  by_cases hrunning : s.running = true
  · unfold step
    rw [if_pos hrunning]
    cases w with
    | idle =>
      dsimp only
      split
      · exact move_start _ _ _
      · exact .takeNothing
    | sendGet k =>
      dsimp only
      split
      · exact .sendRead k _ (Node.getFlag_eq_ok ‹_›)
      · exact .sendAbsent k
    | sendSet k f => exact .sendMark k f
    | sendPop k f =>
      dsimp only
      split
      · exact .sendEmpty k f
      · exact .sendTake k f
    | sendCall k f items i =>
      dsimp only
      split
      · exact .sendOk k f items i
      · dsimp only
        split
        · exact .sendAgain k f items i
        · exact .sendFail k f items i
    | sendRestore k f items => exact .restore hrunning k f items
    | sendOut k f => exact .sendEnd k f
    | fetchGet k =>
      dsimp only
      split
      · exact .fetchRead k _ (Node.getFlag_eq_ok ‹_›)
      · rename_i err herr
        obtain rfl : err = .plain "not exist" := Node.getFlag_eq_error herr
        exact .fetchAbsent k
    | fetchSet k f =>
      dsimp only
      split
      · exact .fetchPanic k f
      · exact .fetchMark k f
    | fetchCall k f i =>
      dsimp only
      split
      · exact .fetchOk k f i ‹_›
      · dsimp only
        split
        · exact .fetchAgain k f i
        · exact .fetchFail k f i _ ‹_›
    | fetchWrite k f =>
      dsimp only
      split
      · exact .writeFail k f _
      · exact .writeOk k f ‹_›
    | fetchOut k f err => exact move_fetched k f err
    | notExist k => exact .clear k
    | commitPop k =>
      dsimp only
      split
      · exact .commitSkip k
      · split
        · exact .commitPanic k
        · dsimp only
          split
          · exact .commitEmpty k
          · exact .commitTake k
    | commitFlush call => exact .flush call
  · unfold step
    rw [if_neg hrunning]
    exact .stopped w (Bool.eq_false_iff.mpr hrunning)

theorem Move.subset_files (h : Move cfg o s w s' w') : s.files ⊆ s'.files := by
  cases h with
  | writeOk k f _ => exact subset_ioWrite _ _ _
  | writeFail k f err => exact subset_ioWrite _ _ _
  | flush call => exact subset_flushrrd _ _ _ _
  | _ => exact List.Subset.refl _

/-! ## What a step does to the flag words -/

/-- What a step of the worker `w` makes of the flag word of `key`. -/
inductive Sets (key : String) (w : Worker F) (old new : Option Flag) : Prop
  | same (h : new = old)
  /-- The copy of the worker, with other bits changed. -/
  | back (f f' : Flag) (hcopy : w.copy = some (key, f)) (hmiss : isMiss f' = isMiss f)
      (h : new = old.map fun _ => f')
  | zero (hw : w = notExist key) (h : new = old.map fun _ => 0)

/-- Where the copy `f'` of a worker comes from that was at `w` in the state `s`. -/
inductive Copies (key : String) (s : Node F) (w : Worker F) (f' : Flag) : Prop
  | read (h : s.flag key = some f')
  | kept (f : Flag) (hcopy : w.copy = some (key, f)) (hmiss : isMiss f' = isMiss f)
  /-- The file has been written. -/
  | cleared (f : Flag) (hw : w = fetchWrite key f) (hmiss : isMiss f' = false)

theorem sets_setFlag {key : String} {w : Worker F} (s : Node F) (hcopy : w.copy = some (k, f))
    (hmiss : isMiss f' = isMiss f) : Sets key w (s.flag key) ((s.setFlag k f').flag key) := by
  rw [Node.flag_setFlag]
  split
  · rename_i hk
    subst hk
    exact .back f f' hcopy hmiss rfl
  · exact .same rfl

/-- **A step writes a flag word back, sets it to zero, or leaves it.** -/
theorem Move.sets (h : Move cfg o s w s' w') (key : String) :
    Sets key w (s.flag key) (s'.flag key) := by
  cases h with
  | sendMark k f => exact sets_setFlag s rfl (isMiss_or_sending f)
  | sendEnd k f => exact sets_setFlag s rfl (isMiss_and_not_sending f)
  | fetchPanic k f => exact sets_setFlag s rfl (isMiss_or_fetching f)
  | fetchMark k f => exact sets_setFlag s rfl (isMiss_or_fetching f)
  | fetchEnd k f err => exact sets_setFlag s rfl (isMiss_and_not_fetching f)
  | fetchNotExist k f err _ => exact sets_setFlag s rfl (isMiss_and_not_fetching f)
  | clear k =>
    rw [Node.flag_setFlag]
    split
    · rename_i hk
      subst hk
      exact .zero rfl rfl
    · exact .same rfl
  | sendEmpty k f => exact .same (Node.flag_popAll s k key)
  | sendTake k f => exact .same (Node.flag_popAll s k key)
  | commitEmpty k => exact .same (Node.flag_popAll s k key)
  | commitTake k => exact .same (Node.flag_popAll s k key)
  | restore _ k f items => exact .same (Node.flag_pushAll s k key items)
  | _ => exact .same rfl

theorem Move.isSome_flag (h : Move cfg o s w s' w') (key : String) :
    (s'.flag key).isSome = (s.flag key).isSome := by
  cases h.sets key with
  | same h => rw [h]
  | back f f' _ _ h => rw [h, Option.isSome_map]
  | zero _ h => rw [h, Option.isSome_map]

theorem copies_of_eq (hw : w.copy = some (k, f)) (hw' : w'.copy = some (k, f))
    (h : w'.copy = some (key, f')) : Copies key s w f' := by
  rw [hw', Option.some_inj, Prod.mk.injEq] at h
  obtain ⟨rfl, rfl⟩ := h
  exact .kept _ hw rfl

/-- **A copy is the word that was read**, until the file is written. -/
theorem Move.copies (h : Move cfg o s w s' w') (hcopy : w'.copy = some (key, f')) :
    Copies key s w f' := by
  cases h with
  | stopped => exact .kept f' hcopy rfl
  | sendRead k f hf =>
    cases hcopy
    exact .read hf
  | fetchRead k f hf =>
    cases hcopy
    exact .read hf
  | writeOk k f _ =>
    cases hcopy
    exact .cleared f rfl (isMiss_and_not_miss f)
  | _ => first | exact copies_of_eq rfl rfl hcopy | cases hcopy

end Worker

/-! ## Data for examples -/

/-- A point of a gauge. -/
def gaugeItem (timestamp : Int) : GraphItem Unit where
  endpoint := "host"
  metric := "load"
  tags := ∅
  value := ()
  timestamp := timestamp
  dsType := GAUGE
  step := 60
  heartbeat := 120
  min := "U"
  max := "U"

/-- A node that takes part in a migration. -/
def dataConfig : GlobalConfig where
  storage := "data"
  migrateEnabled := true

end OpenFalcon.Graph
