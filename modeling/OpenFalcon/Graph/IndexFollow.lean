import OpenFalcon.Common.Name
import OpenFalcon.Graph.Index

/-!
# The index and the latest type of a series

A series may change its type or its step.  `ReceiveItem` tells a change by the UUID: an item with
the UUID of the index goes into `IndexedItemCache` at once, one with another waits in
`unIndexedItemCache` for a round of `updateIndexIncr`.  The entry that waits is not looked at when
an item goes in at once.  So a change that is taken back before its round comes is carried out
afterwards, and the index is left with the type that was given up; `Query` then looks under a key
that nothing is written to.

The index follows the items as long as nothing of another type is on its way when an item goes in at
once or an entry is handed to a goroutine (`InOrder`).  Then the newest of the entries on their way
is the one received last (`Latest`), and once all have arrived, it is the one in the index
(`index_follows_latest`).
-/

namespace OpenFalcon.Graph

open Machine Common

variable {F : Type}

/-! ## Whole calls -/

namespace Server

/-- The item goes into `IndexedItemCache` at once: the index has its UUID, or has no entry of the
series, and there is a file for the type and the step. -/
def takesAtOnce (env : NodeEnv) (s : Server F) (item : GraphItem F) : Bool :=
  match s.indexed.lookup (checksum env item) with
  | some old => uuid item = old.uuid
  | none => isRrdFileExist s.node.files
      (rrdFileName env.cfg.storage (checksum env item) item.dsType item.step)

/-- `ReceiveItem`, as one call. -/
def receiveItem (env : NodeEnv) (s : Server F) (item : GraphItem F) : Server F :=
  let md5 := checksum env item
  match s.indexed.lookup md5 with
  | some old =>
    if uuid item = old.uuid then
      { s with indexed := s.indexed.insert md5 (newIndexCacheItem item) }
    else { s with unIndexed := s.unIndexed.insert md5 (newIndexCacheItem item) }
  | none =>
    if rrdFileNamePanics md5 then s.crash
    else
      let filename := rrdFileName env.cfg.storage md5 item.dsType item.step
      if isRrdFileExist s.node.files filename then
        { s with indexed := s.indexed.insert md5 (newIndexCacheItem item) }
      else { s with unIndexed := s.unIndexed.insert md5 (newIndexCacheItem item) }

theorem receiveItem_eq {env : NodeEnv} (hmd5 : IsMd5 env.md5) (s : Server F) (item : GraphItem F) :
    s.receiveItem env item =
      if s.takesAtOnce env item then
        { s with indexed := s.indexed.insert (checksum env item) (newIndexCacheItem item) }
      else
        { s with
          unIndexed := s.unIndexed.insert (checksum env item) (newIndexCacheItem item) } := by
  have hpanics : rrdFileNamePanics (checksum env item) = false := hmd5.not_panics _
  cases hlookup : s.indexed.lookup (checksum env item) with
  | some old =>
    have htakes : s.takesAtOnce env item = decide (uuid item = old.uuid) := by
      simp only [takesAtOnce, hlookup]
    simp only [receiveItem, hlookup, htakes, decide_eq_true_eq]
  | none =>
    have htakes : s.takesAtOnce env item = isRrdFileExist s.node.files
        (rrdFileName env.cfg.storage (checksum env item) item.dsType item.step) := by
      simp only [takesAtOnce, hlookup]
    simp only [receiveItem, hlookup, htakes, hpanics, Bool.false_eq_true, if_false]

/-- **A call that nobody disturbs** is the three steps of `ReceiveItem` in `handleItems`. -/
theorem alone_receiveItem {env : NodeEnv} (hmd5 : IsMd5 env.md5) (s : Server F)
    (item : GraphItem F) (rest : List (Option (GraphItem F))) (o : ServerInput F) :
    alone (Intake.step env) (s, .contains item rest) (List.replicate 3 o) =
      (s.receiveItem env item, .history item rest) := by
  have hpanics : rrdFileNamePanics (checksum env item) = false := hmd5.not_panics _
  show alone (Intake.step env) _ [o, o, o] = _
  simp only [alone_cons, alone_nil, receiveItem]
  cases hlookup : s.indexed.lookup (checksum env item) with
  | some old =>
    have hmem : checksum env item ∈ s.indexed :=
      AList.lookup_isSome.mp (by rw [hlookup]; rfl)
    simp only [Intake.step, if_pos hmem, hlookup]
    split_ifs <;> rfl
  | none =>
    have hmem : checksum env item ∉ s.indexed := AList.lookup_eq_none.mp hlookup
    simp only [Intake.step, if_neg hmem, hpanics, Bool.false_eq_true, if_false]
    split_ifs <;> rfl

/-- `GetTypeAndStep`.  `db` is what the database says of a counter that is not in the index. -/
def getTypeAndStep (env : NodeEnv) (db : String → String → Option (String × Int)) (s : Server F)
    (endpoint counter : String) : Option (String × Int) :=
  match s.indexed.lookup (env.md5 (endpoint ++ "/" ++ counter)) with
  | some icitem => some (icitem.item.dsType, icitem.item.step)
  | none => db endpoint counter

end Server

/-! ## Runs -/

/-- The index of a node, and the item that was received last. -/
structure Reports (F : Type) where
  server : Server F
  last : Option (GraphItem F) := none

/-- What happens to the index: a call of `ReceiveItem`, a step of the index update, or a change of
the files on the disk. -/
inductive IndexEvent (F : Type) where
  | receive (item : GraphItem F)
  | incr (o : ServerInput F)
  | disk (files : Files)

def Reports.step (env : NodeEnv) (s : Reports F) : IndexEvent F → Reports F
  | .receive item => ⟨s.server.receiveItem env item, some item⟩
  | .incr o => { s with server := s.server.incrStep o }
  | .disk files =>
    { s with server := { s.server with node := { s.server.node with files := files } } }

/-- The calls are for the series of the name, none of them during a round of `updateIndexIncr`, and
the writes to the database succeed. -/
def Reports.Allowed (name : String) (s : Reports F) : IndexEvent F → Prop
  | .receive item => s.server.task = .idle ∧ pk item.endpoint item.metric item.tags = name
  | .incr o => o.dbWrite = true
  | .disk _ => True

/-- Nothing waits, and all updates have finished. -/
structure Server.Quiet (s : Server F) : Prop where
  unIndexed : s.unIndexed = ∅
  task : s.task = .idle
  writers : s.writers = []

/-- The index has the UUID, the type and the step of the item, and a query for its counter looks
under the key it is written to. -/
structure Server.Follows (env : NodeEnv) (s : Server F) (item : GraphItem F) : Prop where
  entry : ∃ icitem, s.indexed.lookup (checksum env item) = some icitem ∧
    icitem.uuid = uuid item ∧ icitem.item.dsType = item.dsType ∧ icitem.item.step = item.step
  key : ∀ db, (s.getTypeAndStep env db item.endpoint (counter item.metric item.tags)).map
    (fun p => formRrdCacheKey (env.md5 (pk2 item.endpoint (counter item.metric item.tags)))
      p.1 p.2) = some (itemKey env item)

/-! ## Entries on their way -/

/-- The entry a goroutine of `updateIndexIncr` has. -/
def Writer.entry : Writer F → IndexCacheItem F
  | write _ icitem => icitem
  | put _ icitem => icitem

/-- The entry of the counter that `updateIndexIncr` has taken and not handed to a goroutine. -/
def Task.held (md5 : String) : Task F → Option (IndexCacheItem F)
  | remove key icitem _ => if key = md5 then icitem else none
  | acquire key icitem _ => if key = md5 then some icitem else none
  | _ => none

/-- The entries of the counter that goroutines of `updateIndexIncr` have. -/
def Server.writing (md5 : String) (s : Server F) : List (IndexCacheItem F) :=
  s.writers.flatMap fun w => if w.key = md5 then [w.entry] else []

variable {s : Server F}

theorem Server.writing_of_split (md5 : String) {pre post : List (Writer F)} {w : Writer F}
    (h : s.writers = pre ++ w :: post) :
    s.writing md5 = (pre.flatMap fun w => if w.key = md5 then [w.entry] else []) ++
      ((if w.key = md5 then [w.entry] else []) ++
        post.flatMap fun w => if w.key = md5 then [w.entry] else []) := by
  rw [writing, h, List.flatMap_append, List.flatMap_cons]

/-- Nothing of another UUID is on its way when an item goes into the index at once, or when an entry
is handed to a goroutine. -/
def Reports.InOrder (env : NodeEnv) (s : Reports F) : IndexEvent F → Prop
  | .receive item => s.server.takesAtOnce env item = true →
    (∀ e, s.server.unIndexed.lookup (checksum env item) = some e → e.uuid = uuid item) ∧
      ∀ e ∈ s.server.writing (checksum env item), e.uuid = uuid item
  | .incr o => o.writer = none → ∀ key icitem rest, s.server.task = .acquire key icitem rest →
    ∀ e ∈ s.server.writing key, e.uuid = icitem.uuid
  | .disk _ => True

/-- The newest of the entries of a counter has the UUID.  An entry that waits is newer than one that
was taken, this one is newer than those being written, and those are newer than the index. -/
structure Server.Latest (md5 u : String) (s : Server F) : Prop where
  waiting : ∀ e, s.unIndexed.lookup md5 = some e → e.uuid = u
  held : s.unIndexed.lookup md5 = none → ∀ e, s.task.held md5 = some e → e.uuid = u
  writing : s.unIndexed.lookup md5 = none → s.task.held md5 = none →
    ∀ e ∈ s.writing md5, e.uuid = u
  indexed : s.unIndexed.lookup md5 = none → s.task.held md5 = none → s.writing md5 = [] →
    ∃ e, s.indexed.lookup md5 = some e ∧ e.uuid = u

variable {u : String}

theorem Server.Latest.congr {md5 : String} {s' : Server F} (h : s.Latest md5 u)
    (hunIndexed : s'.unIndexed.lookup md5 = s.unIndexed.lookup md5)
    (hheld : s'.task.held md5 = s.task.held md5) (hwriting : s'.writing md5 = s.writing md5)
    (hindexed : s'.indexed.lookup md5 = s.indexed.lookup md5) : s'.Latest md5 u := by
  refine ⟨?_, ?_, ?_, ?_⟩
  · rw [hunIndexed]
    exact h.waiting
  · rw [hunIndexed, hheld]
    exact h.held
  · rw [hunIndexed, hheld, hwriting]
    exact h.writing
  · rw [hunIndexed, hheld, hwriting, hindexed]
    exact h.indexed

theorem Server.Latest.of_waiting {md5 : String} {e : IndexCacheItem F}
    (he : s.unIndexed.lookup md5 = some e) (hu : e.uuid = u) : s.Latest md5 u := by
  refine ⟨?_, ?_, ?_, ?_⟩
  · intro e' he'
    obtain rfl : e = e' := Option.some.inj (he.symm.trans he')
    exact hu
  all_goals
    intro hnone
    rw [he] at hnone
    cases hnone

variable {env : NodeEnv} {md5 name : String} {o : ServerInput F}

section

variable {rest : List String} {key : String}

/-- **A report is the newest entry afterwards**, if nothing of another UUID is on its way when it
goes in at once. -/
theorem Server.latest_receiveItem (hmd5 : IsMd5 env.md5) (item : GraphItem F)
    (htask : s.task = .idle)
    (horder : s.takesAtOnce env item = true →
      (∀ e, s.unIndexed.lookup (checksum env item) = some e → e.uuid = uuid item) ∧
        ∀ e ∈ s.writing (checksum env item), e.uuid = uuid item) :
    (s.receiveItem env item).Latest (checksum env item) (uuid item) := by
  rw [receiveItem_eq hmd5]
  split_ifs with htakes
  · obtain ⟨hwaiting, hwriting⟩ := horder htakes
    refine ⟨hwaiting, ?_, fun _ _ => hwriting, fun _ _ _ => ?_⟩
    · show _ → ∀ e, s.task.held _ = some e → _
      rw [htask]
      rintro - e ⟨⟩
    · exact ⟨_, AList.lookup_insert _, rfl⟩
  · exact .of_waiting (AList.lookup_insert _) rfl

/-- Between `Get` and `Remove` the entry that was read is the one that waits. -/
def Server.ReadsWaiting (s : Server F) : Prop :=
  ∀ key icitem rest, s.task = .remove key icitem rest → icitem = s.unIndexed.lookup key

theorem Server.readsWaiting_of_task {s' : Server F}
    (h : ∀ key icitem rest, s'.task ≠ .remove key icitem rest) : s'.ReadsWaiting :=
  fun key icitem rest htask => absurd htask (h key icitem rest)

/-- What a step of a round does: it stays, it goes on without an entry, or it reads, takes out or
hands over an entry. -/
theorem Server.taskStep_cases (s : Server F) (o : ServerInput F) :
    s.taskStep o = s ∨
      (∃ t, s.taskStep o = { s with task := t } ∧
        (∀ md5, s.task.held md5 = none ∧ t.held md5 = none) ∧
        ∀ key icitem rest, t ≠ .remove key icitem rest) ∨
      (∃ key rest, s.task = .get (key :: rest) ∧
        s.taskStep o = { s with task := .remove key (s.unIndexed.lookup key) rest }) ∨
      (∃ key icitem rest, s.task = .remove key icitem rest ∧
        s.taskStep o =
          { s with unIndexed := s.unIndexed.erase key, task := .taken key rest icitem }) ∨
      ∃ key icitem rest, s.task = .acquire key icitem rest ∧
        s.taskStep o =
          { s with writers := s.writers ++ [.write key icitem], task := .get rest } := by
  unfold taskStep
  cases htask : s.task with
  | idle =>
    dsimp only
    split_ifs
    · exact Or.inl rfl
    · exact Or.inr (Or.inl ⟨.connect, rfl, fun _ => ⟨rfl, rfl⟩, by rintro _ _ _ ⟨⟩⟩)
  | connect =>
    refine Or.inr (Or.inl ⟨_, rfl, fun _ => ⟨rfl, ?_⟩, ?_⟩)
    · split_ifs <;> rfl
    · split_ifs <;> rintro _ _ _ ⟨⟩
  | keys => exact Or.inr (Or.inl ⟨_, rfl, fun _ => ⟨rfl, rfl⟩, by rintro _ _ _ ⟨⟩⟩)
  | get keys =>
    cases keys with
    | nil => exact Or.inr (Or.inl ⟨.idle, rfl, fun _ => ⟨rfl, rfl⟩, by rintro _ _ _ ⟨⟩⟩)
    | cons key rest => exact Or.inr (Or.inr (Or.inl ⟨key, rest, rfl, rfl⟩))
  | remove key icitem rest =>
    exact Or.inr (Or.inr (Or.inr (Or.inl ⟨key, icitem, rest, rfl, rfl⟩)))
  | acquire key icitem rest =>
    dsimp only
    split_ifs
    · exact Or.inr (Or.inr (Or.inr (Or.inr ⟨key, icitem, rest, rfl, rfl⟩)))
    · exact Or.inl rfl

/-- `Get` reads the entry that waits. -/
theorem Server.Latest.read (h : s.Latest md5 u) (htask : s.task = .get (key :: rest)) :
    ({ s with task := .remove key (s.unIndexed.lookup key) rest } : Server F).Latest md5 u := by
  by_cases hkey : key = md5
  · subst hkey
    cases hlookup : s.unIndexed.lookup key with
    | some e => exact .of_waiting hlookup (h.waiting e hlookup)
    | none =>
      refine h.congr rfl ?_ rfl rfl
      rw [htask]
      exact if_pos rfl
  · refine h.congr rfl ?_ rfl rfl
    rw [htask]
    exact if_neg hkey

/-- `Remove` takes out the entry that was read, and it is held. -/
theorem Server.Latest.take (h : s.Latest md5 u) {icitem : Option (IndexCacheItem F)}
    (htask : s.task = .remove key icitem rest) (hread : icitem = s.unIndexed.lookup key) :
    ({ s with unIndexed := s.unIndexed.erase key, task := .taken key rest icitem } :
      Server F).Latest md5 u := by
  by_cases hkey : key = md5
  · subst hkey
    have herase : (s.unIndexed.erase key).lookup key = none := AList.lookup_erase _ _
    cases icitem with
    | some e =>
      have hu : e.uuid = u := h.waiting e hread.symm
      refine ⟨?_, fun _ e' he' => ?_, fun _ hnone => ?_, fun _ hnone => ?_⟩
      · show ∀ e, (s.unIndexed.erase key).lookup key = some e → _
        rw [herase]
        rintro e ⟨⟩
      · obtain rfl : e = e' := by simpa [Task.taken, Task.held] using he'
        exact hu
      all_goals exact absurd hnone (by simp [Task.taken, Task.held])
    | none =>
      refine h.congr (herase.trans hread) ?_ rfl rfl
      rw [htask]
      exact (if_pos rfl).symm
  · refine h.congr (AList.lookup_erase_ne (Ne.symm hkey)) ?_ rfl rfl
    rw [htask]
    cases icitem with
    | some e => rfl
    | none => exact (if_neg hkey).symm

theorem Server.writing_concat (s : Server F) (md5 key : String) (icitem : IndexCacheItem F)
    (t : Task F) :
    ({ s with writers := s.writers ++ [.write key icitem], task := t } : Server F).writing md5 =
      s.writing md5 ++ if key = md5 then [icitem] else [] := by
  rw [writing_of_split _ rfl, List.flatMap_nil, List.append_nil]
  rfl

/-- The entry that is held is handed over, and it is written. -/
theorem Server.Latest.handOver (h : s.Latest md5 u) {icitem : IndexCacheItem F}
    (htask : s.task = .acquire key icitem rest)
    (horder : key = md5 → ∀ e ∈ s.writing md5, e.uuid = icitem.uuid) :
    ({ s with writers := s.writers ++ [.write key icitem], task := .get rest } :
      Server F).Latest md5 u := by
  have hwriting := s.writing_concat md5 key icitem (.get rest)
  by_cases hkey : key = md5
  · have hheld : s.task.held md5 = some icitem := by
      rw [htask]
      exact if_pos hkey
    rw [if_pos hkey] at hwriting
    refine ⟨h.waiting, fun _ _ he => ?_, fun hnone _ e he => ?_, fun _ _ hfree => ?_⟩
    · cases he
    · have hu : icitem.uuid = u := h.held hnone icitem hheld
      rw [hwriting] at he
      rcases List.mem_append.mp he with he | he
      · exact (horder hkey e he).trans hu
      · rw [List.mem_singleton.mp he]
        exact hu
    · rw [hwriting] at hfree
      exact absurd hfree (List.append_ne_nil_of_right_ne_nil _ (List.cons_ne_nil _ _))
  · rw [if_neg hkey, List.append_nil] at hwriting
    refine h.congr rfl ?_ hwriting rfl
    rw [htask]
    exact (if_neg hkey).symm

/-- **A step of a round keeps the newest entry.**  The entry that waits becomes the one that is
held, and this one becomes the one that is written. -/
theorem Server.latest_taskStep (h : s.Latest md5 u) (hreads : s.ReadsWaiting)
    (horder : ∀ icitem rest, s.task = .acquire md5 icitem rest →
      ∀ e ∈ s.writing md5, e.uuid = icitem.uuid) (o : ServerInput F) :
    (s.taskStep o).Latest md5 u := by
  rcases s.taskStep_cases o with heq | ⟨t, heq, hheld, -⟩ | ⟨key, rest, htask, heq⟩ |
    ⟨key, icitem, rest, htask, heq⟩ | ⟨key, icitem, rest, htask, heq⟩
  · rwa [heq]
  · rw [heq]
    exact h.congr rfl ((hheld md5).2.trans (hheld md5).1.symm) rfl rfl
  · rw [heq]
    exact h.read htask
  · rw [heq]
    exact h.take htask (hreads key icitem rest htask)
  · rw [heq]
    refine h.handOver htask fun hkey => ?_
    subst hkey
    exact horder icitem rest htask

/-- What a step of a goroutine does, if its write succeeds: nothing, the write, or the `Put`. -/
theorem Server.writerStep_cases (ho : o.dbWrite = true) (i : ℕ) :
    s.writerStep o i = s ∨
      (∃ pre key icitem post, s.writers = pre ++ .write key icitem :: post ∧
        s.writerStep o i = { s with writers := pre ++ .put key icitem :: post }) ∨
      ∃ pre key icitem post, s.writers = pre ++ .put key icitem :: post ∧
        s.writerStep o i =
          { s with indexed := s.indexed.insert key icitem, writers := pre ++ post } := by
  unfold writerStep
  cases hw : s.writers[i]? with
  | none => exact Or.inl rfl
  | some w =>
    obtain ⟨hi, rfl⟩ := List.getElem?_eq_some_iff.mp hw
    have hsplit : s.writers = s.writers.take i ++ s.writers[i] :: s.writers.drop (i + 1) := by simp
    cases hcase : s.writers[i] with
    | write key icitem =>
      refine Or.inr (Or.inl ⟨_, key, icitem, _, hcase ▸ hsplit, ?_⟩)
      dsimp only
      rw [if_pos ho, List.set_eq_take_append_cons_drop, if_pos hi]
    | put key icitem =>
      refine Or.inr (Or.inr ⟨_, key, icitem, _, hcase ▸ hsplit, ?_⟩)
      dsimp only
      rw [List.eraseIdx_eq_take_drop_succ]

/-- **A goroutine keeps the newest entry**, if its write succeeds. -/
theorem Server.latest_writerStep (h : s.Latest md5 u) (ho : o.dbWrite = true) (i : ℕ) :
    (s.writerStep o i).Latest md5 u := by
  rcases writerStep_cases ho i with heq | ⟨pre, key, icitem, post, hsplit, heq⟩ |
    ⟨pre, key, icitem, post, hsplit, heq⟩
  · rw [heq]
    exact h
  · rw [heq]
    refine h.congr rfl rfl ?_ rfl
    rw [writing_of_split _ hsplit, writing_of_split _ rfl]
    rfl
  · rw [heq]
    have hwriting := writing_of_split md5 hsplit
    by_cases hkey : key = md5
    · have hhas : icitem ∈ s.writing md5 := by
        rw [hwriting, if_pos (show Writer.key (.put key icitem) = md5 from hkey)]
        exact List.mem_append_right _ (List.mem_append_left _ List.mem_cons_self)
      refine ⟨h.waiting, h.held, fun hnone hheld e he => ?_, fun hnone hheld _ => ?_⟩
      · refine h.writing hnone hheld e ?_
        rw [writing, List.flatMap_append, List.mem_append] at he
        rw [hwriting, List.mem_append, List.mem_append]
        exact he.imp_right Or.inr
      · subst hkey
        exact ⟨icitem, AList.lookup_insert _, h.writing hnone hheld icitem hhas⟩
    · refine h.congr rfl rfl ?_ (AList.lookup_insert_ne (Ne.symm hkey))
      rw [hwriting, if_neg (show Writer.key (.put key icitem) ≠ md5 from hkey),
        List.nil_append, writing, List.flatMap_append]

end

/-! ## Where entries come from -/

/-- The entry of the counter waits, is held, is written or is in the index. -/
def Server.Has (md5 : String) (e : IndexCacheItem F) (s : Server F) : Prop :=
  s.unIndexed.lookup md5 = some e ∨ s.task.held md5 = some e ∨ e ∈ s.writing md5 ∨
    s.indexed.lookup md5 = some e

variable {item : GraphItem F}

section Origin

variable {e : IndexCacheItem F}

theorem Server.has_receiveItem (hmd5 : IsMd5 env.md5) (h : (s.receiveItem env item).Has md5 e) :
    s.Has md5 e ∨ e = newIndexCacheItem item := by
  have hinsert : ∀ {m : IndexCacheBase F},
      (m.insert (checksum env item) (newIndexCacheItem item)).lookup md5 = some e →
        m.lookup md5 = some e ∨ e = newIndexCacheItem item := by
    intro m hlookup
    by_cases hkey : md5 = checksum env item
    · subst hkey
      rw [AList.lookup_insert, Option.some_inj] at hlookup
      exact Or.inr hlookup.symm
    · rw [AList.lookup_insert_ne hkey] at hlookup
      exact Or.inl hlookup
  rw [receiveItem_eq hmd5] at h
  split_ifs at h
  · rcases h with h | h | h | h
    · exact Or.inl (Or.inl h)
    · exact Or.inl (Or.inr (Or.inl h))
    · exact Or.inl (Or.inr (Or.inr (Or.inl h)))
    · exact (hinsert h).imp_left fun h => Or.inr (Or.inr (Or.inr h))
  · rcases h with h | h
    · exact (hinsert h).imp_left Or.inl
    · exact Or.inl (Or.inr h)

theorem Server.Has.of_task {t : Task F} (h : ({ s with task := t } : Server F).Has md5 e)
    (ht : t.held md5 = some e → s.Has md5 e) : s.Has md5 e := by
  rcases h with h | h | h
  · exact Or.inl h
  · exact ht h
  · exact Or.inr (Or.inr h)

theorem Server.has_taskStep (h : (s.taskStep o).Has md5 e) : s.Has md5 e := by
  rcases s.taskStep_cases o with heq | ⟨t, heq, hheld, -⟩ | ⟨key, rest, htask, heq⟩ |
    ⟨key, icitem, rest, htask, heq⟩ | ⟨key, icitem, rest, htask, heq⟩
  · rwa [heq] at h
  · rw [heq] at h
    refine h.of_task fun ht => ?_
    rw [(hheld md5).2] at ht
    cases ht
  · rw [heq] at h
    refine h.of_task fun hheld => ?_
    obtain ⟨rfl, hlookup⟩ : key = md5 ∧ s.unIndexed.lookup key = some e := by
      simpa [Task.held] using hheld
    exact Or.inl hlookup
  · rw [heq] at h
    rcases h with h | h | h
    · by_cases hkey : md5 = key
      · subst hkey
        rw [AList.lookup_erase] at h
        cases h
      · rw [AList.lookup_erase_ne hkey] at h
        exact Or.inl h
    · refine Or.inr (Or.inl ?_)
      rw [htask]
      cases icitem with
      | some icitem => exact h
      | none => cases h
    · exact Or.inr (Or.inr h)
  · rw [heq] at h
    rcases h with h | h | h | h
    · exact Or.inl h
    · cases h
    · rw [writing_concat] at h
      rcases List.mem_append.mp h with h | h
      · exact Or.inr (Or.inr (Or.inl h))
      · refine Or.inr (Or.inl ?_)
        split_ifs at h with hkey
        · rw [htask, List.mem_singleton.mp h]
          exact if_pos hkey
        · cases h
    · exact Or.inr (Or.inr (Or.inr h))

theorem Server.has_writerStep (ho : o.dbWrite = true) {i : ℕ} (h : (s.writerStep o i).Has md5 e) :
    s.Has md5 e := by
  rcases writerStep_cases ho i with heq | ⟨pre, key, icitem, post, hsplit, heq⟩ |
    ⟨pre, key, icitem, post, hsplit, heq⟩
  · rwa [heq] at h
  · rw [heq] at h
    rcases h with h | h | h | h
    · exact Or.inl h
    · exact Or.inr (Or.inl h)
    · refine Or.inr (Or.inr (Or.inl ?_))
      rw [writing_of_split _ rfl] at h
      rw [writing_of_split _ hsplit]
      exact h
    · exact Or.inr (Or.inr (Or.inr h))
  · rw [heq] at h
    have hwriting := writing_of_split md5 hsplit
    rcases h with h | h | h | h
    · exact Or.inl h
    · exact Or.inr (Or.inl h)
    · refine Or.inr (Or.inr (Or.inl ?_))
      rw [writing, List.flatMap_append, List.mem_append] at h
      rw [hwriting, List.mem_append, List.mem_append]
      exact h.imp_right Or.inr
    · by_cases hkey : md5 = key
      · subst hkey
        rw [AList.lookup_insert, Option.some_inj] at h
        refine Or.inr (Or.inr (Or.inl ?_))
        rw [hwriting, ← h, if_pos (show Writer.key (.put md5 icitem) = md5 from rfl)]
        exact List.mem_append_right _ (List.mem_append_left _ List.mem_cons_self)
      · rw [AList.lookup_insert_ne hkey] at h
        exact Or.inr (Or.inr (Or.inr h))

/-! ## Types and steps -/

theorem uuid_eq (item : GraphItem F) :
    uuid item = pk item.endpoint item.metric item.tags ++ "/" ++ item.dsType ++ "/" ++
      toString item.step := by
  rw [uuid, pk]
  split <;> rfl

/-- **Within a series the UUID tells the type and the step.** -/
theorem eq_of_uuid_eq {a b : GraphItem F}
    (hname : pk a.endpoint a.metric a.tags = pk b.endpoint b.metric b.tags)
    (huuid : uuid a = uuid b) : a.dsType = b.dsType ∧ a.step = b.step := by
  have hslash : ∀ n : Int, '/' ∉ (toString n).toList := fun n =>
    Text.notMem_toString n (by decide) (by decide)
  have hjoin : ∀ p t : String, (p ++ "/" ++ t).toList = p.toList ++ '/' :: t.toList := by
    intro p t
    simp [String.toList_append]
  rw [uuid_eq, uuid_eq, hname, ← String.toList_inj, hjoin _ (toString a.step),
    hjoin _ (toString b.step)] at huuid
  obtain ⟨htype, hstep⟩ := Text.eq_of_append_cons_eq_last (hslash _) (hslash _) huuid
  rw [hjoin, hjoin] at htype
  refine ⟨String.toList_inj.mp (List.cons.inj (List.append_cancel_left htype)).2, ?_⟩
  exact Text.toString_inj (String.toList_inj.mp hstep)

end Origin

/-! ## The index follows -/

/-- A run of one series: the round reads what waits, every entry is one of an item of the series,
and the newest is that of the last item. -/
structure Reports.Tracks (env : NodeEnv) (name : String) (s : Reports F) : Prop where
  reads : s.server.ReadsWaiting
  series : ∀ e, s.server.Has (env.md5 name) e →
    e.uuid = uuid e.item ∧ pk e.item.endpoint e.item.metric e.item.tags = name
  latest : ∀ item, s.last = some item → pk item.endpoint item.metric item.tags = name ∧
    s.server.Latest (env.md5 name) (uuid item)

theorem Server.readsWaiting_taskStep (h : s.ReadsWaiting) (o : ServerInput F) :
    (s.taskStep o).ReadsWaiting := by
  rcases s.taskStep_cases o with heq | ⟨t, heq, -, ht⟩ | ⟨key, rest, -, heq⟩ |
    ⟨key, icitem, rest, -, heq⟩ | ⟨key, icitem, rest, -, heq⟩
  · rwa [heq]
  · rw [heq]
    exact readsWaiting_of_task ht
  · rw [heq]
    rintro _ _ _ ⟨⟩
    rfl
  · rw [heq]
    refine readsWaiting_of_task fun key' icitem' rest' htask => ?_
    cases icitem <;> cases htask
  · rw [heq]
    exact readsWaiting_of_task fun _ _ _ htask => by cases htask

theorem Server.readsWaiting_writerStep (h : s.ReadsWaiting) (ho : o.dbWrite = true) (i : ℕ) :
    (s.writerStep o i).ReadsWaiting := by
  rcases writerStep_cases ho i with heq | ⟨pre, key, icitem, post, -, heq⟩ |
    ⟨pre, key, icitem, post, -, heq⟩
  all_goals
    rw [heq]
    exact h

/-- **A step keeps the run on its track.** -/
theorem Reports.Tracks.step {env : NodeEnv} (hmd5 : IsMd5 env.md5) {s : Reports F}
    (h : s.Tracks env name) {event : IndexEvent F} (hallowed : s.Allowed name event)
    (horder : s.InOrder env event) : (s.step env event).Tracks env name := by
  cases event with
  | receive item =>
    obtain ⟨htask, rfl⟩ := hallowed
    refine ⟨Server.readsWaiting_of_task ?_, fun e he => ?_, ?_⟩
    · intro key icitem rest
      show (s.server.receiveItem env item).task ≠ _
      rw [Server.receiveItem_eq hmd5]
      split_ifs
      all_goals
        show s.server.task ≠ _
        rw [htask]
        rintro ⟨⟩
    · rcases Server.has_receiveItem hmd5 he with he | rfl
      · exact h.series e he
      · exact ⟨rfl, rfl⟩
    · rintro _ ⟨⟩
      exact ⟨rfl, Server.latest_receiveItem hmd5 item htask horder⟩
  | incr o =>
    have ho : o.dbWrite = true := hallowed
    show Tracks env name { s with server := s.server.incrStep o }
    unfold Server.incrStep
    cases hwriter : o.writer with
    | none =>
      refine ⟨Server.readsWaiting_taskStep h.reads o, fun e he => ?_, fun item hlast => ?_⟩
      · exact h.series e (Server.has_taskStep he)
      · obtain ⟨hname, hlatest⟩ := h.latest item hlast
        exact ⟨hname, Server.latest_taskStep hlatest h.reads (horder hwriter _) o⟩
    | some i =>
      refine ⟨Server.readsWaiting_writerStep h.reads ho i, fun e he => ?_, fun item hlast => ?_⟩
      · exact h.series e (Server.has_writerStep ho he)
      · obtain ⟨hname, hlatest⟩ := h.latest item hlast
        exact ⟨hname, Server.latest_writerStep hlatest ho i⟩
  | disk files =>
    refine ⟨h.reads, h.series, fun item hlast => ?_⟩
    obtain ⟨hname, hlatest⟩ := h.latest item hlast
    exact ⟨hname, hlatest.congr rfl rfl rfl rfl⟩

/-- Once everything has arrived, the newest entry is the one of the index. -/
theorem Reports.Tracks.follows {env : NodeEnv} {s : Reports F} (h : s.Tracks env name)
    (hquiet : s.server.Quiet) (hlast : s.last = some item) : s.server.Follows env item := by
  obtain ⟨hname, hlatest⟩ := h.latest item hlast
  have hchecksum : checksum env item = env.md5 name := congrArg env.md5 hname
  obtain ⟨e, he, hu⟩ := hlatest.indexed (by rw [hquiet.unIndexed]; rfl) (by rw [hquiet.task]; rfl)
    (by rw [Server.writing, hquiet.writers]; rfl)
  obtain ⟨huuid, hpk⟩ := h.series e (Or.inr (Or.inr (Or.inr he)))
  obtain ⟨htype, hstep⟩ := eq_of_uuid_eq (hpk.trans hname.symm) (huuid.symm.trans hu)
  refine ⟨⟨e, hchecksum ▸ he, hu, htype, hstep⟩, fun db => ?_⟩
  have hkey : env.md5 (item.endpoint ++ "/" ++ counter item.metric item.tags) = env.md5 name := by
    rw [← hname, pk_eq_pk2]
    rfl
  rw [Server.getTypeAndStep, hkey, he, Option.map_some, htype, hstep, itemKey, checksum, pk_eq_pk2]

/-- **The index follows the latest type and step.**  In every run of reports of one series and
rounds of the index update in which nothing of another UUID is on its way when a report goes in at
once or an entry is handed to a goroutine, in every state in which nothing waits and all updates
have finished, the index has the UUID, the type and the step of the last report, and a query looks
under the key that is written. -/
theorem index_follows_latest {env : NodeEnv} (hmd5 : IsMd5 env.md5) (name : String)
    (node : Node F) {events : List (IndexEvent F)}
    (hallowed : Meets (Reports.step env) (Reports.Allowed name) ⟨{ node := node }, none⟩ events)
    (horder : Meets (Reports.step env) (Reports.InOrder env) ⟨{ node := node }, none⟩ events) :
    ∀ past, past <+: events → ∀ item,
      (past.foldl (Reports.step env) ⟨{ node := node }, none⟩).last = some item →
      (past.foldl (Reports.step env) ⟨{ node := node }, none⟩).server.Quiet →
      (past.foldl (Reports.step env) ⟨{ node := node }, none⟩).server.Follows env item := by
  rintro past ⟨future, rfl⟩ item hlast hquiet
  have hstart : Reports.Tracks env name (⟨{ node := node }, none⟩ : Reports F) := by
    refine ⟨fun key icitem rest htask => ?_, fun e he => ?_, fun item hlast => ?_⟩
    · cases htask
    · rcases he with he | he | he | he <;> cases he
    · cases hlast
  have htracks := ((meets_append_iff.mp hallowed).1.and (meets_append_iff.mp horder).1).foldl
    (fun s event (hs : s.Tracks env name) hevent => hs.step hmd5 hevent.1 hevent.2) hstart
  exact htracks.follows hquiet hlast

/-- A round of `updateIndexIncr` with one entry, and the goroutine it starts. -/
def oneRound : List (IndexEvent Unit) :=
  List.replicate 7 (.incr {}) ++ List.replicate 2 (.incr { writer := some 0 })

/-- A gauge becomes a counter. -/
def changedOnce : List (IndexEvent Unit) :=
  .receive (typedItem GAUGE 60) :: oneRound ++ .receive (typedItem COUNTER 60) :: oneRound

/-- A gauge becomes a counter, and a gauge again before the round comes. -/
def changedBack : List (IndexEvent Unit) :=
  .receive (typedItem GAUGE 60) :: oneRound ++
    .receive (typedItem COUNTER 60) :: .receive (typedItem GAUGE 60) :: oneRound

/-- The index of a node that was just started. -/
def startedIndex : Reports Unit := ⟨{ node := Node.started [] }, none⟩

theorem allowed_oneRound (name : String) (s : Reports Unit) :
    Meets (Reports.step loadEnv) (Reports.Allowed name) s oneRound :=
  ⟨rfl, rfl, rfl, rfl, rfl, rfl, rfl, rfl, rfl, trivial⟩

/-- A change that is taken back is carried out afterwards. -/
theorem index_keeps_given_up_type :
    Meets (Reports.step loadEnv) (Reports.Allowed "host/load") startedIndex changedBack ∧
      (changedBack.foldl (Reports.step loadEnv) startedIndex).last = some (typedItem GAUGE 60) ∧
      (changedBack.foldl (Reports.step loadEnv) startedIndex).server.Quiet ∧
      ((changedBack.foldl (Reports.step loadEnv) startedIndex).server.indexed.lookup loadMd5).map
        (fun e => (e.uuid, e.item.dsType, e.item.step)) =
        some ("host/load/COUNTER/60", "COUNTER", 60) ∧
      ¬ (changedBack.foldl (Reports.step loadEnv) startedIndex).server.Follows loadEnv
        (typedItem GAUGE 60) := by
  have hindexed : ((changedBack.foldl (Reports.step loadEnv) startedIndex).server.indexed.lookup
      loadMd5).map (fun e => (e.uuid, e.item.dsType, e.item.step)) =
        some ("host/load/COUNTER/60", "COUNTER", 60) := by
    decide +kernel
  refine ⟨?_, rfl, ⟨rfl, rfl, rfl⟩, hindexed, fun hfollows => ?_⟩
  · refine meets_append_iff.mpr ⟨⟨⟨rfl, rfl⟩, allowed_oneRound _ _⟩, ?_⟩
    exact ⟨⟨rfl, rfl⟩, ⟨rfl, rfl⟩, allowed_oneRound _ _⟩
  · obtain ⟨e, he, -, htype, -⟩ := hfollows.entry
    have hlookup : (changedBack.foldl (Reports.step loadEnv) startedIndex).server.indexed.lookup
        loadMd5 = some e := he
    rw [hlookup, Option.map_some, Option.some_inj, htype] at hindexed
    exact absurd (Prod.mk.inj (Prod.mk.inj hindexed).2).1 (by decide)

/-- The condition met, by a change that is not taken back. -/
theorem index_follows_change :
    (changedOnce.foldl (Reports.step loadEnv) startedIndex).server.Follows loadEnv
      (typedItem COUNTER 60) := by
  have hallowed : Meets (Reports.step loadEnv) (Reports.Allowed "host/load") startedIndex
      changedOnce :=
    meets_append_iff.mpr ⟨⟨⟨rfl, rfl⟩, allowed_oneRound _ _⟩, ⟨rfl, rfl⟩, allowed_oneRound _ _⟩
  have horder : Meets (Reports.step loadEnv) (Reports.InOrder loadEnv) startedIndex
      changedOnce := by
    refine meets_append_iff.mpr ⟨⟨fun h => absurd h (by decide), ?_⟩,
      ⟨fun h => absurd h (by decide), ?_⟩⟩
    all_goals
      refine ⟨?_, ?_, ?_, ?_, ?_, ?_, ?_, ?_, ?_, trivial⟩
      all_goals
        intro _ key icitem rest htask e he
        first | cases he | cases htask
  exact index_follows_latest isMd5_loadEnv "host/load" _ hallowed horder changedOnce
    (List.prefix_refl _) _ rfl ⟨rfl, rfl, rfl⟩

end OpenFalcon.Graph
