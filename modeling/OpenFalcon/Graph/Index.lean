import OpenFalcon.Graph.Shutdown

/-!
# The index of a graph node

`index/index.go`, `index/cache.go` and `index/index_update_incr_task.go`, with the callers
they have in a running node: `handleItems` and `Graph.Delete` of `api/graph.go` and
`DeleteInvalidItems` of `cron/clean.go`.

The database knows which counters there are.  A counter is in `IndexedItemCache` if the
database has it; a counter that is new is put into `unIndexedItemCache`, and once a second
`updateIndexIncr` takes the entries out of there and starts a goroutine for each of them,
two at a time, which writes to the database and, if that works, puts the entry into
`IndexedItemCache`.

All of this runs at once.  A `Server` is the node with its caches and with the one goroutine
that runs `updateIndexIncr` (`Task`) and those it started (`Writer`); a `Goroutine` is
anybody else, and each operation on a cache is one step.  Go visits the keys of a map in any
order, so the outside chooses it (`ordered`).
-/

namespace OpenFalcon.Graph

open Machine Common

variable {F : Type}

/-! ## The caches -/

/-- `GraphItem.UUID`. -/
def uuid (item : GraphItem F) : String :=
  if item.tags.entries.isEmpty then
    item.endpoint ++ "/" ++ item.metric ++ "/" ++ item.dsType ++ "/" ++ toString item.step
  else
    item.endpoint ++ "/" ++ item.metric ++ "/" ++ sortedTags item.tags ++ "/" ++ item.dsType ++
      "/" ++ toString item.step

/-- `IndexCacheItem`. -/
structure IndexCacheItem (F : Type) where
  uuid : String
  item : GraphItem F

/-- `NewIndexCacheItem`, as `ReceiveItem` calls it. -/
def newIndexCacheItem (item : GraphItem F) : IndexCacheItem F :=
  ⟨uuid item, item⟩

/-- `IndexCacheBase`.  `ContainsKey` is membership, `Get` is `lookup`, `Put` is `insert` and
`Remove` is `erase`. -/
abbrev IndexCacheBase (F : Type) := GoMap String (IndexCacheItem F)

/-- `HistoryCache`: the latest items of every counter, the newest first. -/
abbrev HistoryCache (F : Type) := GoMap String (List (GraphItem F))

/-- `defaultHistorySize`. -/
def defaultHistorySize : ℕ := 3

/-- `store.AddItem`, in one step. -/
def HistoryCache.addItem (this : HistoryCache F) (key : String) (val : GraphItem F) :
    HistoryCache F :=
  let slist := (this.lookup key).getD []
  match slist.head? with
  | none => this.insert key ((val :: slist).take defaultHistorySize)
  | some first =>
    if first.timestamp < val.timestamp then
      this.insert key ((val :: slist).take defaultHistorySize)
    else this

/-- `store.GetLastItem`; the item without a time is `none`. -/
def HistoryCache.getLastItem (this : HistoryCache F) (key : String) : Option (GraphItem F) :=
  (this.lookup key).bind List.head?

/-- The keys of a map in the order the outside wants, if it is one. -/
def ordered (order keys : List String) : List String :=
  if order.isPerm keys then order else keys

theorem ordered_perm (order keys : List String) : (ordered order keys).Perm keys := by
  unfold ordered
  split
  · rename_i h
    exact List.isPerm_iff.mp h
  · exact List.Perm.refl keys

/-! ## The state -/

/-- The program points of `updateIndexIncr`: before `Size`, before `GetDbConn`, before `Keys`,
and in the loop before `Get`, before `Remove` and before `Acquire`. -/
inductive Task (F : Type) where
  | idle
  | connect
  | keys
  | get (keys : List String)
  | remove (key : String) (icitem : Option (IndexCacheItem F)) (rest : List String)
  | acquire (key : String) (icitem : IndexCacheItem F) (rest : List String)

/-- Where `updateIndexIncr` goes after `Remove`: only an entry that was there is written. -/
def Task.taken (key : String) (rest : List String) : Option (IndexCacheItem F) → Task F
  | some icitem => acquire key icitem rest
  | none => get rest

/-- A goroutine of `updateIndexIncr`: before it writes to the database, and before `Put`. -/
inductive Writer (F : Type) where
  | write (key : String) (icitem : IndexCacheItem F)
  | put (key : String) (icitem : IndexCacheItem F)

/-- The counter whose entry the goroutine has. -/
def Writer.key : Writer F → String
  | write key _ => key
  | put key _ => key

/-- The permits of `semaUpdateIndexIncr`. -/
def semaUpdateIndexIncr : ℕ := 2

/-- A node with its index. -/
structure Server (F : Type) where
  node : Node F
  /-- `IndexedItemCache`. -/
  indexed : IndexCacheBase F := ∅
  /-- `unIndexedItemCache`. -/
  unIndexed : IndexCacheBase F := ∅
  history : HistoryCache F := ∅
  task : Task F := .idle
  writers : List (Writer F) := []
  /-- The counters for which a write to the database failed. -/
  failed : List String := []
  /-- The counters `RemoveItem` took out of one of the caches. -/
  removed : List String := []
  /-- The counter without an entry to which a type assertion was applied. -/
  badAssertion : Option String := none

/-- What the goroutines do not decide themselves. -/
structure ServerInput (F : Type) extends Input F where
  /-- The goroutine of the index update whose turn it is: one of the writers, or the task. -/
  writer : Option ℕ := none
  /-- `GetDbConn` succeeds. -/
  dbConn : Bool := true
  /-- `updateIndexFromOneItem` succeeds. -/
  dbWrite : Bool := true
  /-- `file.Remove` succeeds. -/
  fileRemove : Bool := true
  /-- The order in which the keys of a map are visited. -/
  order : List String := []

namespace Server

/-- A panic. -/
def crash (s : Server F) : Server F :=
  { s with node := { s.node with running := false } }

/-! ## The index update -/

/-- One atomic step of `updateIndexIncr`. -/
def taskStep (o : ServerInput F) (s : Server F) : Server F :=
  match s.task with
  | .idle => if s.unIndexed.entries.length ≤ 0 then s else { s with task := .connect }
  | .connect => { s with task := if o.dbConn then .keys else .idle }
  | .keys => { s with task := .get (ordered o.order s.unIndexed.keys) }
  | .get [] => { s with task := .idle }
  | .get (key :: rest) => { s with task := .remove key (s.unIndexed.lookup key) rest }
  | .remove key icitem rest =>
    { s with unIndexed := s.unIndexed.erase key, task := .taken key rest icitem }
  | .acquire key icitem rest =>
    if s.writers.length < semaUpdateIndexIncr then
      { s with writers := s.writers ++ [.write key icitem], task := .get rest }
    else s

/-- One atomic step of the `i`-th goroutine of `updateIndexIncr`. -/
def writerStep (o : ServerInput F) (i : ℕ) (s : Server F) : Server F :=
  match s.writers[i]? with
  | none => s
  | some (.write key icitem) =>
    if o.dbWrite then { s with writers := s.writers.set i (.put key icitem) }
    else { s with writers := s.writers.eraseIdx i, failed := key :: s.failed }
  | some (.put key icitem) =>
    { s with indexed := s.indexed.insert key icitem, writers := s.writers.eraseIdx i }

/-- One atomic step of the index update. -/
def incrStep (o : ServerInput F) (s : Server F) : Server F :=
  match o.writer with
  | some i => s.writerStep o i
  | none => s.taskStep o

end Server

/-! ## Receiving -/

/-- The program points of `handleItems`: those before and at `PushFront`, then those of
`ReceiveItem`, before `ContainsKey`, `Get`, `IsRrdFileExist` and the two `Put`s, and the one
before `AddItem`. -/
inductive Intake (F : Type) where
  | take (h : Handler F)
  | contains (item : GraphItem F) (rest : List (Option (GraphItem F)))
  | get (item : GraphItem F) (rest : List (Option (GraphItem F)))
  | file (item : GraphItem F) (rest : List (Option (GraphItem F)))
  | putIndexed (item : GraphItem F) (rest : List (Option (GraphItem F)))
  | putUnIndexed (item : GraphItem F) (rest : List (Option (GraphItem F)))
  | history (item : GraphItem F) (rest : List (Option (GraphItem F)))

/-- One atomic step of `handleItems`. -/
def Intake.step (env : NodeEnv) (o : ServerInput F) (s : Server F) :
    Intake F → Server F × Intake F
  | take (.push item rest) => ({ s with node := s.node.pushFront env item }, contains item rest)
  | take h =>
    let r := h.step env o.toInput s.node
    ({ s with node := r.1 }, take r.2)
  | contains item rest =>
    (s, if checksum env item ∈ s.indexed then get item rest else file item rest)
  | get item rest =>
    match s.indexed.lookup (checksum env item) with
    | some old =>
      (s, if uuid item = old.uuid then putIndexed item rest else putUnIndexed item rest)
    | none => ({ s.crash with badAssertion := some (checksum env item) }, get item rest)
  | file item rest =>
    if rrdFileNamePanics (checksum env item) then (s.crash, file item rest)
    else
      let filename := rrdFileName env.cfg.storage (checksum env item) item.dsType item.step
      (s, if isRrdFileExist s.node.files filename then putIndexed item rest
        else putUnIndexed item rest)
  | putIndexed item rest =>
    ({ s with indexed := s.indexed.insert (checksum env item) (newIndexCacheItem item) },
      history item rest)
  | putUnIndexed item rest =>
    ({ s with unIndexed := s.unIndexed.insert (checksum env item) (newIndexCacheItem item) },
      history item rest)
  | history item rest =>
    ({ s with history := s.history.addItem (checksum env item) item }, take (.next rest))

/-! ## Deleting -/

/-- The program points of `RemoveItem`: before the two `Remove`s, `PopAll` and
`file.Remove`. -/
inductive Removal (F : Type) where
  | indexed (item : GraphItem F)
  | unIndexed (item : GraphItem F)
  | pop (item : GraphItem F)
  | file (item : GraphItem F)
  | done

/-- One atomic step of `RemoveItem`. -/
def Removal.step (env : NodeEnv) (o : ServerInput F) (s : Server F) :
    Removal F → Server F × Removal F
  | indexed item =>
    let md5 := checksum env item
    ({ s with indexed := s.indexed.erase md5, removed := md5 :: s.removed }, unIndexed item)
  | unIndexed item =>
    let md5 := checksum env item
    ({ s with unIndexed := s.unIndexed.erase md5, removed := md5 :: s.removed }, pop item)
  | pop item => ({ s with node := (s.node.popAll (itemKey env item)).2 }, file item)
  | file item =>
    if rrdFileNamePanics (checksum env item) then (s.crash, file item)
    else
      let filename := rrdFileName env.cfg.storage (checksum env item) item.dsType item.step
      ({ s with
          node := { s.node with
            files := if o.fileRemove then s.node.files.filter (· ≠ filename)
              else s.node.files } },
        done)
  | done => (s, done)

/-! ## Cleaning -/

/-- The program points of `DeleteInvalidItems`: before `KeysByIndex`, at the head of the inner
loop with the keys that are left, and before `Remove`. -/
inductive Cleaner where
  | idle
  | scan (idx : ℕ)
  | test (keys : List String) (idx : ℕ)
  | remove (key : String) (rest : List String) (idx : ℕ)

/-- What `DeleteInvalidItems` takes for the counter of a key, if it has three parts. -/
def counterOfKey (key : String) : Option String :=
  match key.toList.splitOn '_' with
  | [md5, _, _] => some (String.ofList md5)
  | _ => none

/-- One atomic step of `DeleteInvalidItems`. -/
def Cleaner.step (hashKey : String → BitVec 32) (o : ServerInput F) (s : Server F) :
    Cleaner → Server F × Cleaner
  | idle => (s, scan 0)
  | scan idx =>
    if idx < size then
      let keys := s.node.graphItems.keys.filter fun key => (index hashKey key).val = idx
      (s, test (ordered o.order keys) idx)
    else (s, idle)
  | test [] idx => (s, scan (idx + 1))
  | test (key :: rest) idx =>
    match counterOfKey key with
    | some md5 => (s, if md5 ∈ s.indexed then test rest idx else remove key rest idx)
    | none => (s, test rest idx)
  | remove key rest idx =>
    ({ s with node := { s.node with graphItems := s.node.graphItems.erase key } }, test rest idx)

/-! ## All together -/

namespace Worker

/-- The points of `CommitByKey`. -/
def IsCommit : Worker F → Prop
  | idle => True
  | commitPop _ => True
  | commitFlush _ => True
  | _ => False

theorem isCommit_flushStep (cfg : GlobalConfig) (o : Input F) (s : Node F) {w : Worker F}
    (hw : w.IsCommit) : (w.flushStep cfg o s).2.IsCommit := by
  unfold flushStep step
  cases w with
  | idle =>
    cases o.flushKey with
    | some key => trivial
    | none =>
      dsimp only
      split <;> trivial
  | commitPop key =>
    dsimp only
    repeat' split
    all_goals trivial
  | commitFlush call =>
    dsimp only
    split <;> trivial
  | _ => exact hw.elim

end Worker

/-- A goroutine of the node. -/
inductive Goroutine (F : Type) where
  | intake (p : Intake F)
  | flusher (w : { w : Worker F // w.IsCommit })
  | removal (p : Removal F)
  | cleaner (p : Cleaner)
  /-- Those of the index update. -/
  | incr

/-- One atomic step of a goroutine, while the node runs. -/
def Goroutine.act (env : NodeEnv) (hashKey : String → BitVec 32) (o : ServerInput F)
    (s : Server F) : Goroutine F → Server F × Goroutine F
  | intake p =>
    let r := p.step env o s
    (r.1, intake r.2)
  | flusher w =>
    ({ s with node := (w.1.flushStep env.cfg o.toInput s.node).1 },
      flusher ⟨_, Worker.isCommit_flushStep env.cfg o.toInput s.node w.2⟩)
  | removal p =>
    let r := p.step env o s
    (r.1, removal r.2)
  | cleaner p =>
    let r := p.step hashKey o s
    (r.1, cleaner r.2)
  | incr => (s.incrStep o, incr)

/-- One atomic step of a goroutine. -/
def Goroutine.step (env : NodeEnv) (hashKey : String → BitVec 32) (o : ServerInput F)
    (s : Server F) (p : Goroutine F) : Server F × Goroutine F :=
  if s.node.running then p.act env hashKey o s else (s, p)

variable {s : Server F} {env : NodeEnv}

theorem Goroutine.step_of_running {hashKey : String → BitVec 32} (h : s.node.running = true)
    (o : ServerInput F) (p : Goroutine F) : p.step env hashKey o s = p.act env hashKey o s :=
  if_pos h

theorem Goroutine.step_of_not_running {hashKey : String → BitVec 32} (h : ¬ s.node.running = true)
    (o : ServerInput F) (p : Goroutine F) : p.step env hashKey o s = (s, p) :=
  if_neg h

/-! ## What the steps do to the index -/

/-- The index of the two states is the same. -/
structure Server.SameIndex (s s' : Server F) : Prop where
  indexed : s'.indexed = s.indexed
  unIndexed : s'.unIndexed = s.unIndexed
  task : s'.task = s.task
  writers : s'.writers = s.writers
  failed : s'.failed = s.failed
  removed : s'.removed = s.removed

theorem Server.SameIndex.refl (s : Server F) : s.SameIndex s :=
  ⟨rfl, rfl, rfl, rfl, rfl, rfl⟩

namespace Goroutine

/-- What a step of a goroutine can do to the index. -/
inductive Change (env : NodeEnv) (o : ServerInput F) (s : Server F) :
    Goroutine F → Server F → Prop
  | same {p : Goroutine F} {s' : Server F} (h : s.SameIndex s') : Change env o s p s'
  | putIndexed (hrunning : s.node.running = true) (item : GraphItem F)
      (rest : List (Option (GraphItem F))) :
    Change env o s (.intake (.putIndexed item rest))
      { s with indexed := s.indexed.insert (checksum env item) (newIndexCacheItem item) }
  | putUnIndexed (hrunning : s.node.running = true) (item : GraphItem F)
      (rest : List (Option (GraphItem F))) :
    Change env o s (.intake (.putUnIndexed item rest))
      { s with unIndexed := s.unIndexed.insert (checksum env item) (newIndexCacheItem item) }
  | removeIndexed (hrunning : s.node.running = true) (item : GraphItem F) :
    Change env o s (.removal (.indexed item))
      { s with
        indexed := s.indexed.erase (checksum env item)
        removed := checksum env item :: s.removed }
  | removeUnIndexed (hrunning : s.node.running = true) (item : GraphItem F) :
    Change env o s (.removal (.unIndexed item))
      { s with
        unIndexed := s.unIndexed.erase (checksum env item)
        removed := checksum env item :: s.removed }
  | incr (hrunning : s.node.running = true) : Change env o s .incr (s.incrStep o)

/-- **A step does to the index one of these things.** -/
theorem change_step (env : NodeEnv) (hashKey : String → BitVec 32) (o : ServerInput F)
    (s : Server F) (p : Goroutine F) : p.Change env o s (p.step env hashKey o s).1 := by
  by_cases hrunning : s.node.running = true
  · rw [step_of_running hrunning]
    cases p with
    | intake p =>
      cases p with
      | take h => cases h <;> exact .same ⟨rfl, rfl, rfl, rfl, rfl, rfl⟩
      | get item rest =>
        unfold act Intake.step
        dsimp only
        split <;> exact .same ⟨rfl, rfl, rfl, rfl, rfl, rfl⟩
      | file item rest =>
        unfold act Intake.step
        dsimp only
        split <;> exact .same ⟨rfl, rfl, rfl, rfl, rfl, rfl⟩
      | putIndexed item rest => exact .putIndexed hrunning item rest
      | putUnIndexed item rest => exact .putUnIndexed hrunning item rest
      | contains item rest => exact .same (Server.SameIndex.refl s)
      | history item rest => exact .same ⟨rfl, rfl, rfl, rfl, rfl, rfl⟩
    | flusher w => exact .same ⟨rfl, rfl, rfl, rfl, rfl, rfl⟩
    | removal p =>
      cases p with
      | indexed item => exact .removeIndexed hrunning item
      | unIndexed item => exact .removeUnIndexed hrunning item
      | pop item => exact .same ⟨rfl, rfl, rfl, rfl, rfl, rfl⟩
      | file item =>
        unfold act Removal.step
        dsimp only
        split <;> exact .same ⟨rfl, rfl, rfl, rfl, rfl, rfl⟩
      | done => exact .same (Server.SameIndex.refl s)
    | cleaner p =>
      unfold act Cleaner.step
      dsimp only
      repeat' split
      all_goals exact .same ⟨rfl, rfl, rfl, rfl, rfl, rfl⟩
    | incr => exact .incr hrunning
  · rw [step_of_not_running hrunning]
    exact .same (Server.SameIndex.refl s)

end Goroutine

/-! ## The entries of `IndexedItemCache` -/

namespace Server

/-- The counter that a step of the index update puts into `IndexedItemCache`. -/
def puts (o : ServerInput F) (s : Server F) : Option String :=
  match o.writer.bind fun i => s.writers[i]? with
  | some (.put key _) => some key
  | _ => none

variable (o : ServerInput F)

theorem indexed_taskStep (s : Server F) : (s.taskStep o).indexed = s.indexed := by
  unfold taskStep
  repeat' split
  all_goals rfl

theorem mem_indexed_incrStep (s : Server F) (md5 : String) :
    md5 ∈ (s.incrStep o).indexed ↔ md5 ∈ s.indexed ∨ s.puts o = some md5 := by
  unfold incrStep puts
  cases hwriter : o.writer with
  | none =>
    rw [indexed_taskStep]
    simp
  | some i =>
    dsimp only [Option.bind_some]
    unfold writerStep
    match hw : s.writers[i]? with
    | none => simp
    | some (.write key icitem) =>
      dsimp only
      split <;> simp
    | some (.put key icitem) =>
      dsimp only
      rw [AList.mem_insert, Option.some_inj, or_comm, eq_comm]

end Server

/-- **Only `RemoveItem` takes an entry out of `IndexedItemCache`.** -/
theorem Goroutine.mem_indexed_step (env : NodeEnv) (hashKey : String → BitVec 32)
    (o : ServerInput F) {md5 : String} (h : md5 ∈ s.indexed) (p : Goroutine F) :
    md5 ∈ (p.step env hashKey o s).1.indexed ∨
      s.node.running = true ∧ ∃ item, p = .removal (.indexed item) ∧ checksum env item = md5 := by
  have hchange := change_step env hashKey o s p
  generalize (p.step env hashKey o s).1 = s' at hchange ⊢
  cases hchange with
  | same hsame => exact Or.inl (hsame.indexed.symm ▸ h)
  | putIndexed _ item rest => exact Or.inl ((AList.mem_insert _).mpr (Or.inr h))
  | putUnIndexed _ item rest => exact Or.inl h
  | removeIndexed hrunning item =>
    by_cases hmd5 : checksum env item = md5
    · exact Or.inr ⟨hrunning, item, rfl, hmd5⟩
    · exact Or.inl (AList.mem_erase.mpr ⟨fun h => hmd5 h.symm, h⟩)
  | removeUnIndexed _ item => exact Or.inl h
  | incr _ => exact Or.inl ((s.mem_indexed_incrStep o md5).mpr (Or.inl h))

end OpenFalcon.Graph
