import OpenFalcon.Graph.Index

/-!
# Cleaning the cache

`DeleteInvalidItems` removes the keys of counters that are not in `IndexedItemCache`, and
with a key go the points that are cached for it.  But a counter comes into that cache only
when the database has it.  Before that it waits: its item is on the way through
`ReceiveItem`, it is in `unIndexedItemCache`, `updateIndexIncr` or one of its goroutines has
it, or the write to the database has failed and it waits for the next item.

A counter with cached points is indexed, waits or was deleted, at any moment of any run
(`Accounted`).  So `DeleteInvalidItems` discards no points of a live counter exactly if,
whenever it looks at a key with cached points, the counter does not wait any more, and no
point comes between the look and the removal (`clean_discards_nothing_iff`).
-/

namespace OpenFalcon.Graph

open Machine

variable {F ι : Type} [DecidableEq ι] {key k : String} {o : ServerInput F} {env : NodeEnv}
  {s : Server F}

/-! ## The whereabouts of a counter -/

/-- The task has taken the counter out of `unIndexedItemCache`, or is about to. -/
def Task.Holds (md5 : String) : Task F → Prop
  | remove key (some _) _ => key = md5
  | acquire key _ _ => key = md5
  | _ => False

/-- The counters the task has still to look at. -/
def Task.ahead : Task F → List String
  | get ks => ks
  | remove _ _ rest => rest
  | acquire _ _ rest => rest
  | _ => []

/-- The goroutine is on the way from `PushFront` to a `Put` of the counter. -/
def Goroutine.Receives (env : NodeEnv) (md5 : String) : Goroutine F → Prop
  | intake (.contains item _) => checksum env item = md5
  | intake (.get item _) => checksum env item = md5
  | intake (.file item _) => checksum env item = md5
  | intake (.putIndexed item _) => checksum env item = md5
  | intake (.putUnIndexed item _) => checksum env item = md5
  | _ => False

namespace Server

/-- The counter waits for its entry in the database: it is pending, in flight, or its write
has failed. -/
def Awaits (s : Server F) (md5 : String) : Prop :=
  md5 ∈ s.unIndexed ∨ s.task.Holds md5 ∨ (∃ w ∈ s.writers, w.key = md5) ∨ md5 ∈ s.failed

/-- The counter is indexed, waits for it or was deleted. -/
def Knows (s : Server F) (md5 : String) : Prop :=
  md5 ∈ s.indexed ∨ s.Awaits md5 ∨ md5 ∈ s.removed

/-- What the task has read of `unIndexedItemCache` is there still, unless `RemoveItem` has
taken it out. -/
structure TaskOk (s : Server F) : Prop where
  nodup : s.task.ahead.Nodup
  ahead : ∀ key ∈ s.task.ahead, key ∈ s.unIndexed ∨ key ∈ s.removed
  current : ∀ key icitem rest, s.task = .remove key icitem rest →
    key ∉ rest ∧ (icitem = none → key ∈ s.removed)

variable {md5 : String}

theorem knows_of_indexed (h : md5 ∈ s.indexed) : s.Knows md5 :=
  Or.inl h

theorem knows_of_unIndexed (h : md5 ∈ s.unIndexed) : s.Knows md5 :=
  Or.inr (Or.inl (Or.inl h))

theorem knows_of_writer {w : Writer F} (hw : w ∈ s.writers) (h : w.key = md5) : s.Knows md5 :=
  Or.inr (Or.inl (Or.inr (Or.inr (Or.inl ⟨w, hw, h⟩))))

theorem knows_of_failed (h : md5 ∈ s.failed) : s.Knows md5 :=
  Or.inr (Or.inl (Or.inr (Or.inr (Or.inr h))))

theorem knows_of_holds (h : s.task.Holds md5) : s.Knows md5 :=
  Or.inr (Or.inl (Or.inr (Or.inl h)))

theorem knows_of_removed (h : md5 ∈ s.removed) : s.Knows md5 :=
  Or.inr (Or.inr h)

/-! ## What the index update does to it -/

/-- The goroutines and the failures are as they were. -/
theorem Knows.mono {s' : Server F} (h : s.Knows md5) (hindexed : md5 ∈ s.indexed → s'.Knows md5)
    (hunIndexed : md5 ∈ s.unIndexed → s'.Knows md5) (htask : s.task.Holds md5 → s'.Knows md5)
    (hwriters : s'.writers = s.writers) (hfailed : s'.failed = s.failed)
    (hremoved : md5 ∈ s.removed → md5 ∈ s'.removed) : s'.Knows md5 := by
  rcases h with h | (h | h | ⟨w, hw, h⟩ | h) | h
  · exact hindexed h
  · exact hunIndexed h
  · exact htask h
  · exact knows_of_writer (hwriters.symm ▸ hw) h
  · exact knows_of_failed (hfailed.symm ▸ h)
  · exact knows_of_removed (hremoved h)

/-- At most points the task has no counter, and takes none out. -/
theorem Knows.of_not_holds (h : s.Knows md5) (hnone : ¬ s.task.Holds md5) (task : Task F) :
    Knows { s with task := task } md5 :=
  h.mono (fun hmem => knows_of_indexed hmem) (fun hmem => knows_of_unIndexed hmem)
    (fun hholds => absurd hholds hnone) rfl rfl id

variable {icitem : Option (IndexCacheItem F)} {rest : List String}

theorem Knows.taken {key : String} (h : s.Knows md5) (htask : s.task = .remove key icitem rest)
    (hremoved : icitem = none → key ∈ s.removed) :
    Knows { s with unIndexed := s.unIndexed.erase key, task := .taken key rest icitem } md5 := by
  have hkey : Knows { s with
      unIndexed := s.unIndexed.erase key, task := .taken key rest icitem } key := by
    cases icitem with
    | none => exact knows_of_removed (hremoved rfl)
    | some icitem => exact knows_of_holds rfl
  refine h.mono (fun hmem => knows_of_indexed hmem) (fun hmem => ?_) (fun hholds => ?_) rfl rfl id
  · by_cases hmd5 : md5 = key
    · rw [hmd5]
      exact hkey
    · exact knows_of_unIndexed (AList.mem_erase.mpr ⟨hmd5, hmem⟩)
  · rw [htask] at hholds
    cases icitem with
    | none => exact hholds.elim
    | some icitem =>
      obtain rfl : key = md5 := hholds
      exact hkey

/-- **The task loses no counter.**  The one it takes out of `unIndexedItemCache` it has, or
there was none, and then `RemoveItem` was there. -/
theorem Knows.taskStep (h : s.Knows md5) (hs : s.TaskOk) (o : ServerInput F) :
    (s.taskStep o).Knows md5 := by
  unfold Server.taskStep
  split
  case h_1 htask =>
    split
    · exact h
    · exact h.of_not_holds (by rw [htask]; exact id) _
  case h_2 htask => exact h.of_not_holds (by rw [htask]; exact id) _
  case h_3 htask => exact h.of_not_holds (by rw [htask]; exact id) _
  case h_4 htask => exact h.of_not_holds (by rw [htask]; exact id) _
  case h_5 htask => exact h.of_not_holds (by rw [htask]; exact id) _
  case h_6 key icitem rest htask => exact h.taken htask (hs.current key icitem rest htask).2
  case h_7 key icitem rest htask =>
    split
    · rcases h with h | (h | h | ⟨w, hw, h⟩ | h) | h
      · exact knows_of_indexed h
      · exact knows_of_unIndexed h
      · rw [htask] at h
        refine knows_of_writer (w := .write key icitem) ?_ h
        exact List.mem_append_right _ (List.mem_singleton_self _)
      · exact knows_of_writer (List.mem_append_left _ hw) h
      · exact knows_of_failed h
      · exact knows_of_removed h
    · exact h

/-- **A goroutine of the index update loses no counter**: its write fails, or it puts the
entry into `IndexedItemCache`. -/
theorem Knows.writerStep (h : s.Knows md5) (o : ServerInput F) (i : ℕ) :
    (s.writerStep o i).Knows md5 := by
  unfold Server.writerStep
  split
  case h_1 => exact h
  case h_2 key icitem hi =>
    rcases h with h | (h | h | ⟨w, hw, rfl⟩ | h) | h
    · split <;> exact knows_of_indexed h
    · split <;> exact knows_of_unIndexed h
    · split <;> exact knows_of_holds h
    · obtain ⟨j, hj⟩ := List.mem_iff_getElem?.mp hw
      by_cases hji : j = i
      · subst hji
        obtain rfl : Writer.write key icitem = w := Option.some_inj.mp (hi.symm.trans hj)
        split
        · refine knows_of_writer (w := .put key icitem) ?_ rfl
          exact List.mem_set (List.getElem?_eq_some_iff.mp hj).1 _
        · exact knows_of_failed List.mem_cons_self
      · split
        · refine knows_of_writer (List.mem_iff_getElem?.mpr ⟨j, ?_⟩) rfl
          rw [List.getElem?_set_ne fun hij => hji hij.symm]
          exact hj
        · exact knows_of_writer (List.mem_eraseIdx_iff_getElem?.mpr ⟨j, hji, hj⟩) rfl
    · split
      · exact knows_of_failed h
      · exact knows_of_failed (List.mem_cons_of_mem _ h)
    · split <;> exact knows_of_removed h
  case h_3 key icitem hi =>
    rcases h with h | (h | h | ⟨w, hw, rfl⟩ | h) | h
    · exact knows_of_indexed ((AList.mem_insert _).mpr (Or.inr h))
    · exact knows_of_unIndexed h
    · exact knows_of_holds h
    · obtain ⟨j, hj⟩ := List.mem_iff_getElem?.mp hw
      by_cases hji : j = i
      · subst hji
        obtain rfl : Writer.put key icitem = w := Option.some_inj.mp (hi.symm.trans hj)
        exact knows_of_indexed ((AList.mem_insert _).mpr (Or.inl rfl))
      · exact knows_of_writer (List.mem_eraseIdx_iff_getElem?.mpr ⟨j, hji, hj⟩) rfl
    · exact knows_of_failed h
    · exact knows_of_removed h

theorem Knows.incrStep (h : s.Knows md5) (hs : s.TaskOk) (o : ServerInput F) :
    (s.incrStep o).Knows md5 := by
  unfold Server.incrStep
  split
  · exact h.writerStep o _
  · exact h.taskStep hs o

theorem taskOk_of_ahead_eq_nil (hahead : s.task.ahead = [])
    (hcurrent : ∀ key icitem rest, s.task ≠ .remove key icitem rest) : s.TaskOk where
  nodup := hahead ▸ List.nodup_nil
  ahead key hkey := by
    rw [hahead] at hkey
    exact absurd hkey List.not_mem_nil
  current key icitem rest htask := absurd htask (hcurrent key icitem rest)

theorem TaskOk.mono {s' : Server F} (h : s.TaskOk) (htask : s'.task = s.task)
    (hunIndexed : ∀ key, key ∈ s.unIndexed → key ∈ s'.unIndexed ∨ key ∈ s'.removed)
    (hremoved : ∀ key, key ∈ s.removed → key ∈ s'.removed) : s'.TaskOk where
  nodup := htask ▸ h.nodup
  ahead key hkey := by
    rw [htask] at hkey
    exact (h.ahead key hkey).elim (hunIndexed key) fun hmem => Or.inr (hremoved key hmem)
  current key icitem rest hcurrent := by
    rw [htask] at hcurrent
    obtain ⟨hrest, hnone⟩ := h.current key icitem rest hcurrent
    exact ⟨hrest, fun heq => hremoved key (hnone heq)⟩

theorem TaskOk.taken {key : String} (h : s.TaskOk) (htask : s.task = .remove key icitem rest) :
    TaskOk { s with unIndexed := s.unIndexed.erase key, task := .taken key rest icitem } := by
  have hnodup := h.nodup
  have hahead := h.ahead
  rw [htask] at hnodup hahead
  have hkey := (h.current key icitem rest htask).1
  have htaken : (Task.taken key rest icitem).ahead = rest := by cases icitem <;> rfl
  refine ⟨htaken.symm ▸ hnodup, fun k hk => ?_, ?_⟩
  · have hk' : k ∈ rest := htaken ▸ hk
    have hne : k ≠ key := fun heq => hkey (heq ▸ hk')
    exact (hahead k hk').imp_left fun hmem => AList.mem_erase.mpr ⟨hne, hmem⟩
  · intro k icitem' rest' heq
    cases icitem <;> cases heq

theorem TaskOk.taskStep (h : s.TaskOk) (o : ServerInput F) : (s.taskStep o).TaskOk := by
  unfold Server.taskStep
  split
  case h_1 htask =>
    split
    · exact h
    · exact taskOk_of_ahead_eq_nil rfl fun _ _ _ heq => (by cases heq)
  case h_2 htask =>
    cases o.dbConn with
    | false => exact taskOk_of_ahead_eq_nil rfl fun _ _ _ heq => (by cases heq)
    | true => exact taskOk_of_ahead_eq_nil rfl fun _ _ _ heq => (by cases heq)
  case h_3 htask =>
    have hperm := ordered_perm o.order s.unIndexed.keys
    refine ⟨hperm.nodup_iff.mpr s.unIndexed.nodupKeys, fun key hkey => ?_, ?_⟩
    · exact Or.inl (AList.mem_keys.mpr (hperm.mem_iff.mp hkey))
    · intro key icitem rest heq
      cases heq
  case h_4 htask => exact taskOk_of_ahead_eq_nil rfl fun _ _ _ heq => (by cases heq)
  case h_5 key rest htask =>
    have hnodup := h.nodup
    have hahead := h.ahead
    rw [htask] at hnodup hahead
    obtain ⟨hkey, hrest⟩ := List.nodup_cons.mp hnodup
    refine ⟨hrest, fun k hk => hahead k (List.mem_cons_of_mem _ hk), ?_⟩
    intro k icitem rest' heq
    cases heq
    refine ⟨hkey, fun hnone => ?_⟩
    exact (hahead key List.mem_cons_self).resolve_left (AList.lookup_eq_none.mp hnone)
  case h_6 key icitem rest htask => exact h.taken htask
  case h_7 key icitem rest htask =>
    split
    · have hnodup := h.nodup
      have hahead := h.ahead
      rw [htask] at hnodup hahead
      refine ⟨hnodup, hahead, ?_⟩
      intro k icitem' rest' heq
      cases heq
    · exact h

theorem TaskOk.incrStep (h : s.TaskOk) (o : ServerInput F) : (s.incrStep o).TaskOk := by
  unfold Server.incrStep
  split
  · unfold Server.writerStep
    repeat' split
    all_goals exact h.mono rfl (fun _ => Or.inl) fun _ => id
  · exact h.taskStep o

end Server

/-! ## What the others do to it -/

namespace Goroutine

variable {hashKey : String → BitVec 32} {p : Goroutine F} {md5 : String}

/-- **No step loses a counter.** -/
theorem knows_step (hs : s.TaskOk) (h : s.Knows md5) (o : ServerInput F) :
    (p.step env hashKey o s).1.Knows md5 := by
  have hchange := change_step env hashKey o s p
  generalize (p.step env hashKey o s).1 = s' at hchange ⊢
  cases hchange with
  | same hsame =>
    exact h.mono (fun hmem => Server.knows_of_indexed (hsame.indexed.symm ▸ hmem))
      (fun hmem => Server.knows_of_unIndexed (hsame.unIndexed.symm ▸ hmem))
      (fun hholds => Server.knows_of_holds (hsame.task.symm ▸ hholds)) hsame.writers hsame.failed
      fun hmem => hsame.removed.symm ▸ hmem
  | putIndexed _ item rest =>
    exact h.mono (fun hmem => Server.knows_of_indexed ((AList.mem_insert _).mpr (Or.inr hmem)))
      (fun hmem => Server.knows_of_unIndexed hmem) (fun hholds => Server.knows_of_holds hholds)
      rfl rfl id
  | putUnIndexed _ item rest =>
    exact h.mono (fun hmem => Server.knows_of_indexed hmem)
      (fun hmem => Server.knows_of_unIndexed ((AList.mem_insert _).mpr (Or.inr hmem)))
      (fun hholds => Server.knows_of_holds hholds) rfl rfl id
  | removeIndexed _ item =>
    refine h.mono (fun hmem => ?_) (fun hmem => Server.knows_of_unIndexed hmem)
      (fun hholds => Server.knows_of_holds hholds) rfl rfl (List.mem_cons_of_mem _)
    by_cases hmd5 : md5 = checksum env item
    · exact Server.knows_of_removed (hmd5 ▸ List.mem_cons_self)
    · exact Server.knows_of_indexed (AList.mem_erase.mpr ⟨hmd5, hmem⟩)
  | removeUnIndexed _ item =>
    refine h.mono (fun hmem => Server.knows_of_indexed hmem) (fun hmem => ?_)
      (fun hholds => Server.knows_of_holds hholds) rfl rfl (List.mem_cons_of_mem _)
    by_cases hmd5 : md5 = checksum env item
    · exact Server.knows_of_removed (hmd5 ▸ List.mem_cons_self)
    · exact Server.knows_of_unIndexed (AList.mem_erase.mpr ⟨hmd5, hmem⟩)
  | incr _ => exact h.incrStep hs o

theorem taskOk_step (hs : s.TaskOk) (o : ServerInput F) : (p.step env hashKey o s).1.TaskOk := by
  have hchange := change_step env hashKey o s p
  generalize (p.step env hashKey o s).1 = s' at hchange ⊢
  cases hchange with
  | same hsame =>
    exact hs.mono hsame.task (fun _ hmem => Or.inl (hsame.unIndexed.symm ▸ hmem))
      fun _ hmem => hsame.removed.symm ▸ hmem
  | putIndexed _ item rest => exact hs.mono rfl (fun _ => Or.inl) fun _ => id
  | putUnIndexed _ item rest =>
    exact hs.mono rfl (fun _ hmem => Or.inl ((AList.mem_insert _).mpr (Or.inr hmem))) fun _ => id
  | removeIndexed _ item => exact hs.mono rfl (fun _ => Or.inl) fun _ => List.mem_cons_of_mem _
  | removeUnIndexed _ item =>
    refine hs.mono rfl (fun key hmem => ?_) fun _ => List.mem_cons_of_mem _
    by_cases hkey : key = checksum env item
    · exact Or.inr (hkey ▸ List.mem_cons_self)
    · exact Or.inl (AList.mem_erase.mpr ⟨hkey, hmem⟩)
  | incr _ => exact hs.incrStep o

theorem removed_subset_step (o : ServerInput F) :
    s.removed ⊆ (p.step env hashKey o s).1.removed := by
  have hchange := change_step env hashKey o s p
  generalize (p.step env hashKey o s).1 = s' at hchange ⊢
  cases hchange with
  | same hsame => exact hsame.removed.symm ▸ List.Subset.refl _
  | removeIndexed _ item => exact List.subset_cons_self _ _
  | removeUnIndexed _ item => exact List.subset_cons_self _ _
  | incr _ =>
    unfold Server.incrStep Server.writerStep Server.taskStep
    repeat' split
    all_goals exact List.Subset.refl _
  | _ => exact List.Subset.refl _

/-- **A `ReceiveItem` ends with a `Put`.** -/
theorem receives_step (h : p.Receives env md5) (o : ServerInput F) :
    (p.step env hashKey o s).1.Knows md5 ∨ (p.step env hashKey o s).2.Receives env md5 := by
  by_cases hrunning : s.node.running = true
  · rw [step_of_running hrunning]
    cases p with
    | intake p =>
      cases p with
      | take hd => exact h.elim
      | contains item rest =>
        refine Or.inr ?_
        unfold act Intake.step
        dsimp only
        split <;> exact h
      | get item rest =>
        refine Or.inr ?_
        unfold act Intake.step
        dsimp only
        split
        · dsimp only
          split <;> exact h
        · exact h
      | file item rest =>
        refine Or.inr ?_
        unfold act Intake.step
        dsimp only
        split
        · exact h
        · dsimp only
          split <;> exact h
      | putIndexed item rest =>
        exact Or.inl (Server.knows_of_indexed ((AList.mem_insert _).mpr (Or.inl h.symm)))
      | putUnIndexed item rest =>
        exact Or.inl (Server.knows_of_unIndexed ((AList.mem_insert _).mpr (Or.inl h.symm)))
      | history item rest => exact h.elim
    | _ => exact h.elim
  · rw [step_of_not_running hrunning]
    exact Or.inr h

end Goroutine

/-! ## The cached points -/

theorem Node.cached_erase (s : Node F) (k key : String) :
    cached { s with graphItems := s.graphItems.erase k } key =
      if key = k then [] else s.cached key := by
  rw [cached_eq, cached_eq]
  split
  · rename_i hk
    rw [hk, AList.lookup_erase]
    rfl
  · rename_i hk
    rw [AList.lookup_erase_ne hk]

theorem Node.cached_of_erase {s : Node F}
    (h : cached { s with graphItems := s.graphItems.erase k } key ≠ []) : s.cached key ≠ [] := by
  intro hempty
  rw [cached_erase, hempty, ite_self] at h
  exact h rfl

theorem Node.cached_of_popAll {s : Node F} (h : (s.popAll k).2.cached key ≠ []) :
    s.cached key ≠ [] := by
  intro hempty
  rw [cached_popAll, hempty, ite_self] at h
  exact h rfl

theorem Worker.cached_flushStep {w : Worker F} (hw : w.IsCommit) (cfg : GlobalConfig) (o : Input F)
    {s : Node F} (h : (w.flushStep cfg o s).1.cached key ≠ []) : s.cached key ≠ [] := by
  revert h
  unfold flushStep step
  cases w with
  | idle =>
    cases o.flushKey with
    | some k => exact id
    | none =>
      dsimp only
      split <;> exact id
  | commitPop k =>
    dsimp only
    split
    · split
      · exact id
      · split
        · exact id
        · exact Node.cached_of_popAll
    · exact id
  | commitFlush call =>
    dsimp only
    split <;> exact id
  | _ => exact hw.elim

/-- Of the steps of `handleItems`, `PushFront` brings a point to its own key. -/
theorem Intake.cached_step {p : Intake F} (h : (p.step env o s).1.node.cached key ≠ []) :
    s.node.cached key ≠ [] ∨ ∃ item rest, p = take (.push item rest) ∧ itemKey env item = key := by
  cases p with
  | take hd =>
    by_cases hpush : ∃ item rest, hd = .push item rest
    · obtain ⟨item, rest, rfl⟩ := hpush
      by_cases hkey : itemKey env item = key
      · exact Or.inr ⟨item, rest, rfl, hkey⟩
      · have hcached : (s.node.pushFront env item).cached key = s.node.cached key := by
          rw [Node.cached_pushFront, if_neg fun heq => hkey heq.symm]
        exact Or.inl (hcached ▸ h)
    · have hnode : (hd.step env o.toInput s.node).1 = s.node :=
        Agent.fst_handlerStep env o.toInput s.node fun item rest heq => hpush ⟨item, rest, heq⟩
      cases hd with
      | push item rest => exact absurd ⟨item, rest, rfl⟩ hpush
      | idle => exact Or.inl (hnode ▸ h)
      | next items => exact Or.inl (hnode ▸ h)
  | get item rest =>
    rw [step] at h
    split at h <;> exact Or.inl h
  | file item rest =>
    rw [step] at h
    split at h <;> exact Or.inl h
  | _ => exact Or.inl h

theorem Removal.cached_step {p : Removal F} (h : (p.step env o s).1.node.cached key ≠ []) :
    s.node.cached key ≠ [] := by
  cases p with
  | pop item => exact Node.cached_of_popAll h
  | file item =>
    rw [step] at h
    split at h <;> exact h
  | _ => exact h

theorem Cleaner.cached_step {hashKey : String → BitVec 32} {p : Cleaner}
    (h : (p.step hashKey o s).1.node.cached key ≠ []) : s.node.cached key ≠ [] := by
  cases p with
  | idle => exact h
  | scan idx =>
    rw [step] at h
    split at h <;> exact h
  | test keys idx =>
    cases keys with
    | nil => exact h
    | cons k keys =>
      rw [step] at h
      split at h <;> exact h
  | remove k rest idx => exact Node.cached_of_erase h

theorem Server.node_incrStep (o : ServerInput F) (s : Server F) : (s.incrStep o).node = s.node := by
  unfold incrStep writerStep taskStep
  repeat' split
  all_goals rfl

variable {p : Goroutine F}

/-- **Only `PushFront` brings points.** -/
theorem Goroutine.cached_step {hashKey : String → BitVec 32}
    (h : (p.step env hashKey o s).1.node.cached key ≠ []) :
    s.node.cached key ≠ [] ∨
      ∃ item rest, p = .intake (.take (.push item rest)) ∧ itemKey env item = key := by
  by_cases hrunning : s.node.running = true
  · rw [step_of_running hrunning] at h
    cases p with
    | intake p =>
      rcases Intake.cached_step h with hcached | ⟨item, rest, rfl, hkey⟩
      · exact Or.inl hcached
      · exact Or.inr ⟨item, rest, rfl, hkey⟩
    | flusher w => exact Or.inl (Worker.cached_flushStep w.2 env.cfg o.toInput h)
    | removal p => exact Or.inl (Removal.cached_step h)
    | cleaner p => exact Or.inl (Cleaner.cached_step h)
    | incr => exact Or.inl (Server.node_incrStep o s ▸ h)
  · rw [step_of_not_running hrunning] at h
    exact Or.inl h

/-! ## The counter of a key -/

theorem counterOfKey_itemKey (hmd5 : IsMd5 env.md5) {item : GraphItem F} {md5 : String}
    (h : counterOfKey (itemKey env item) = some md5) : checksum env item = md5 := by
  have hno : '_' ∉ (checksum env item).toList := hmd5.underscore_notMem _
  unfold counterOfKey itemKey at h
  rw [splitOn_formRrdCacheKey hno] at h
  split at h
  · rename_i part _ _ heq
    obtain rfl : (checksum env item).toList = part := (List.cons.inj heq).1
    rw [String.ofList_toList, Option.some_inj] at h
    exact h
  · cases h

/-- Where a `DeleteInvalidItems` that is about to remove a key comes from. -/
theorem Goroutine.cleaner_remove_step {hashKey : String → BitVec 32}
    (hrunning : s.node.running = true) {rest : List String} {idx : ℕ}
    (h : (p.step env hashKey o s).2 = .cleaner (.remove key rest idx)) :
    (p.step env hashKey o s).1 = s ∧ p = .cleaner (.test (key :: rest) idx) ∧
      ∃ md5, counterOfKey key = some md5 ∧ md5 ∉ s.indexed := by
  rw [step_of_running hrunning] at h ⊢
  cases p with
  | cleaner p =>
    cases p with
    | idle => cases h
    | scan i =>
      unfold act Cleaner.step at h
      dsimp only at h
      split at h <;> cases h
    | test keys i =>
      cases keys with
      | nil => cases h
      | cons k keys =>
        unfold act Cleaner.step at h ⊢
        dsimp only at h ⊢
        cases hcounter : counterOfKey k with
        | none =>
          rw [hcounter] at h
          cases h
        | some md5 =>
          rw [hcounter] at h
          dsimp only at h
          split at h
          · cases h
          · rename_i hmem
            cases h
            exact ⟨rfl, rfl, md5, hcounter, hmem⟩
    | remove k keys i => cases h
  | _ => cases h

/-! ## Runs -/

/-- The counter waits for its entry in the database, or is still on the way there. -/
def Waits (env : NodeEnv) (c : Config ι (Server F) (Goroutine F)) (md5 : String) : Prop :=
  c.shared.Awaits md5 ∨ ∃ j, (c.agent j).Receives env md5

/-- The counter is indexed, waits or was removed by `RemoveItem`. -/
def Traced (env : NodeEnv) (c : Config ι (Server F) (Goroutine F)) (md5 : String) : Prop :=
  c.shared.Knows md5 ∨ ∃ j, (c.agent j).Receives env md5

/-- **No `DeleteInvalidItems` is about to discard points**: if one is before the removal of a
key, no points are cached for that key, or its counter was removed by `RemoveItem`. -/
def Harmless (c : Config ι (Server F) (Goroutine F)) : Prop :=
  c.shared.node.running = true → ∀ j key rest idx, c.agent j = .cleaner (.remove key rest idx) →
    c.shared.node.cached key ≠ [] → ∃ md5 ∈ c.shared.removed, counterOfKey key = some md5

/-- **The counters that are looked at do not wait.** -/
structure Settled (env : NodeEnv) (c : Config ι (Server F) (Goroutine F))
    (m : ι × ServerInput F) : Prop where
  /-- When `DeleteInvalidItems` looks at a key with cached points, a counter that waits is
  indexed all the same, or was removed by `RemoveItem`. -/
  test : c.shared.node.running = true → ∀ key rest idx md5,
    c.agent m.1 = .cleaner (.test (key :: rest) idx) → counterOfKey key = some md5 →
      c.shared.node.cached key ≠ [] → Waits env c md5 →
        md5 ∈ c.shared.indexed ∨ md5 ∈ c.shared.removed
  /-- No point is pushed for a key that is about to be removed. -/
  push : c.shared.node.running = true → ∀ item rest,
    c.agent m.1 = .intake (.take (.push item rest)) →
      ∀ j rest' idx, c.agent j = .cleaner (.remove (itemKey env item) rest' idx) →
        checksum env item ∈ c.shared.removed

/-- Every counter with cached points is accounted for. -/
structure Accounted (env : NodeEnv) (c : Config ι (Server F) (Goroutine F)) : Prop where
  task : c.shared.TaskOk
  cached : ∀ key, c.shared.node.cached key ≠ [] →
    ∃ item : GraphItem F, itemKey env item = key ∧ Traced env c (checksum env item)
  counter : ∀ j key rest idx, c.agent j = .cleaner (.remove key rest idx) →
    ∃ md5, counterOfKey key = some md5
  harmless : Harmless c

section Accounted

variable {hashKey : String → BitVec 32} {c : Config ι (Server F) (Goroutine F)}
  {m : ι × ServerInput F}

/-- **A counter that is accounted for stays so.** -/
theorem Traced.move {md5 : String} (h : Traced env c md5) (hs : c.shared.TaskOk) :
    Traced env (move (Goroutine.step env hashKey) c m) md5 := by
  rcases h with h | ⟨j, hj⟩
  · exact Or.inl (Goroutine.knows_step hs h m.2)
  · by_cases hjm : j = m.1
    · subst hjm
      refine (Goroutine.receives_step hj m.2).imp_right fun h => ⟨m.1, ?_⟩
      rw [agent_move_self]
      exact h
    · exact Or.inr ⟨j, (agent_move_of_ne hjm).symm ▸ hj⟩

theorem Accounted.cached_move (h : Accounted env c) (key : String)
    (hkey : (move (Goroutine.step env hashKey) c m).shared.node.cached key ≠ []) :
    ∃ item : GraphItem F, itemKey env item = key ∧
      Traced env (move (Goroutine.step env hashKey) c m) (checksum env item) := by
  by_cases hold : c.shared.node.cached key ≠ []
  · obtain ⟨item, hitem, hknown⟩ := h.cached key hold
    exact ⟨item, hitem, hknown.move h.task⟩
  · -- The step has pushed the first point, and goes on to `ReceiveItem`.
    obtain ⟨item, rest, hagent, hitem⟩ := (Goroutine.cached_step hkey).resolve_left hold
    refine ⟨item, hitem, Or.inr ⟨m.1, ?_⟩⟩
    have hrunning : c.shared.node.running = true := by
      by_contra hrunning
      rw [shared_move, Goroutine.step_of_not_running hrunning] at hkey
      exact hold hkey
    rw [agent_move_self, hagent, Goroutine.step_of_running hrunning]
    rfl

theorem Accounted.counter_move (h : Accounted env c) (j : ι) (key : String) (rest : List String)
    (idx : ℕ)
    (hj : (move (Goroutine.step env hashKey) c m).agent j = .cleaner (.remove key rest idx)) :
    ∃ md5, counterOfKey key = some md5 := by
  by_cases hjm : j = m.1
  · subst hjm
    rw [agent_move_self] at hj
    by_cases hrunning : c.shared.node.running = true
    · obtain ⟨-, -, md5, hmd5, -⟩ := Goroutine.cleaner_remove_step hrunning hj
      exact ⟨md5, hmd5⟩
    · rw [Goroutine.step_of_not_running hrunning] at hj
      exact h.counter m.1 key rest idx hj
  · rw [agent_move_of_ne hjm] at hj
    exact h.counter j key rest idx hj

/-- A step that finds everything settled leaves nothing to be discarded. -/
theorem Accounted.harmless_move (hmd5 : IsMd5 env.md5) (h : Accounted env c)
    (hm : Settled env c m) : Harmless (move (Goroutine.step env hashKey) c m) := by
  intro hrunning' j key rest idx hj hkey
  have hrunning : c.shared.node.running = true := by
    by_contra hrunning
    rw [shared_move, Goroutine.step_of_not_running hrunning] at hrunning'
    exact hrunning hrunning'
  by_cases hjm : j = m.1
  · subst hjm
    rw [agent_move_self] at hj
    obtain ⟨hsame, htest, md5, hcounter, hnot⟩ := Goroutine.cleaner_remove_step hrunning hj
    rw [shared_move, hsame] at hkey ⊢
    obtain ⟨item, rfl, hknown⟩ := h.cached key hkey
    obtain rfl : checksum env item = md5 := counterOfKey_itemKey hmd5 hcounter
    have hsettled := hm.test hrunning _ rest idx _ htest hcounter hkey
    rcases hknown with (hindexed | hawaits | hremoved) | hreceives
    · exact absurd hindexed hnot
    · exact ⟨_, (hsettled (Or.inl hawaits)).resolve_left hnot, hcounter⟩
    · exact ⟨_, hremoved, hcounter⟩
    · exact ⟨_, (hsettled (Or.inr hreceives)).resolve_left hnot, hcounter⟩
  · rw [agent_move_of_ne hjm] at hj
    have hsubset : c.shared.removed ⊆ (move (Goroutine.step env hashKey) c m).shared.removed :=
      Goroutine.removed_subset_step m.2
    rcases Goroutine.cached_step hkey with hold | ⟨item, rest', hpush, rfl⟩
    · obtain ⟨md5, hremoved, hcounter⟩ := h.harmless hrunning j key rest idx hj hold
      exact ⟨md5, hsubset hremoved, hcounter⟩
    · obtain ⟨md5, hcounter⟩ := h.counter j _ rest idx hj
      obtain rfl : checksum env item = md5 := counterOfKey_itemKey hmd5 hcounter
      exact ⟨_, hsubset (hm.push hrunning item rest' hpush j rest idx hj), hcounter⟩

theorem Accounted.move (hmd5 : IsMd5 env.md5) (h : Accounted env c) (hm : Settled env c m) :
    Accounted env (move (Goroutine.step env hashKey) c m) :=
  ⟨Goroutine.taskOk_step h.task m.2, h.cached_move, h.counter_move, h.harmless_move hmd5 hm⟩

/-- A step that does not find everything settled leaves points to be discarded. -/
theorem settled_of_harmless_move (hmd5 : IsMd5 env.md5)
    (h : Harmless (Machine.move (Goroutine.step env hashKey) c m)) : Settled env c m where
  test hrunning key rest idx md5 hagent hcounter hcached _ := by
    by_contra hnot
    obtain ⟨hindexed, hremoved⟩ := not_or.mp hnot
    have hstep : Goroutine.step env hashKey m.2 c.shared (c.agent m.1) =
        (c.shared, .cleaner (.remove key rest idx)) := by
      rw [hagent, Goroutine.step_of_running hrunning]
      unfold Goroutine.act Cleaner.step
      dsimp only
      rw [hcounter]
      dsimp only
      rw [if_neg hindexed]
    have hshared : (Machine.move (Goroutine.step env hashKey) c m).shared = c.shared := by
      rw [shared_move, hstep]
    unfold Harmless at h
    rw [hshared] at h
    obtain ⟨md5', hremoved', hcounter'⟩ := h hrunning m.1 key rest idx
      (by rw [agent_move_self, hstep]) hcached
    rw [hcounter, Option.some_inj] at hcounter'
    exact hremoved (hcounter' ▸ hremoved')
  push hrunning item rest hagent j rest' idx hj := by
    have hjm : j ≠ m.1 := by
      rintro rfl
      rw [hagent] at hj
      cases hj
    have hstep : (Goroutine.step env hashKey m.2 c.shared (c.agent m.1)).1 =
        { c.shared with node := c.shared.node.pushFront env item } := by
      rw [hagent, Goroutine.step_of_running hrunning]
      rfl
    have hshared : (Machine.move (Goroutine.step env hashKey) c m).shared =
        { c.shared with node := c.shared.node.pushFront env item } := by
      rw [shared_move, hstep]
    unfold Harmless at h
    rw [hshared] at h
    have hcached : (c.shared.node.pushFront env item).cached (itemKey env item) ≠ [] := by
      rw [Node.cached_pushFront, if_pos rfl]
      simp
    obtain ⟨md5, hremoved, hcounter⟩ := h hrunning j _ rest' idx
      ((agent_move_of_ne hjm).trans hj) hcached
    exact (counterOfKey_itemKey hmd5 hcounter).symm ▸ hremoved

end Accounted

/-- **When cleaning discards nothing.**  A node starts without cached points.  At no moment of
a run is `DeleteInvalidItems` about to remove a key that has cached points and a counter that
was not removed by `RemoveItem`, exactly if every look it takes at a key with cached points
finds a counter that is indexed or does not wait, and no point is pushed for a key between
the look and the removal. -/
theorem clean_discards_nothing_iff {env : NodeEnv} (hmd5 : IsMd5 env.md5)
    (hashKey : String → BitVec 32) {c : Config ι (Server F) (Goroutine F)}
    (hcached : ∀ key, c.shared.node.cached key = []) (htask : c.shared.task = .idle)
    (hclean : ∀ j key rest idx, c.agent j ≠ .cleaner (.remove key rest idx))
    (ms : List (ι × ServerInput F)) :
    (∀ ms', ms' <+: ms → Harmless (run (Goroutine.step env hashKey) c ms')) ↔
      Meets (move (Goroutine.step env hashKey)) (Settled env) c ms := by
  have hstart : Accounted env c := by
    refine ⟨?_, fun key hkey => absurd (hcached key) hkey, ?_, ?_⟩
    · refine Server.taskOk_of_ahead_eq_nil ?_ fun key icitem rest heq => ?_
      · rw [htask]
        rfl
      · rw [htask] at heq
        cases heq
    · exact fun j key rest idx hj => absurd hj (hclean j key rest idx)
    · exact fun _ j key rest idx hj => absurd hj (hclean j key rest idx)
  exact forall_prefix_iff_meets (Q := Harmless) (fun _ h => h.harmless)
    (fun _ _ h => ⟨settled_of_harmless_move hmd5, fun hm => h.harmless_move hmd5 hm⟩)
    (fun _ _ h hm => h.move hmd5 hm) hstart ms

/-- A hash that puts all keys into the first bucket. -/
def oneBucket (_ : String) : BitVec 32 := 0

/-- A point of `host/load` comes while the cache is cleaned. -/
def receiveAndClean (indexed : IndexCacheBase Unit) :
    Config Bool (Server Unit) (Goroutine Unit) where
  shared := { node := Node.started [], indexed := indexed }
  agent
    | false => .intake (.take (.next [some (gaugeItem 60)]))
    | true => .cleaner .idle

/-- The counter `host/load`, indexed. -/
def loadIndexed : IndexCacheBase Unit :=
  (∅ : IndexCacheBase Unit).insert loadMd5 (newIndexCacheItem (gaugeItem 0))

theorem clean_discards_nothing_indexed :
    IsMd5 loadEnv.md5 ∧
      ∀ ms', ms' <+: [(false, {}), (false, {}), (true, {}), (true, {}), (true, {})] →
        Harmless (run (Goroutine.step loadEnv oneBucket) (receiveAndClean loadIndexed) ms') := by
  have hclean : ∀ j key rest idx,
      (receiveAndClean loadIndexed).agent j ≠ .cleaner (.remove key rest idx) := by
    intro j key rest idx hj
    cases j <;> cases hj
  refine ⟨isMd5_loadEnv, (clean_discards_nothing_iff isMd5_loadEnv oneBucket (fun _ => rfl) rfl
    hclean _).mpr ⟨⟨?_, ?_⟩, ⟨?_, ?_⟩, ⟨?_, ?_⟩, ⟨?_, ?_⟩, ⟨?_, ?_⟩, trivial⟩⟩
  · exact fun _ _ _ _ _ hagent => (by cases hagent)
  · exact fun _ _ _ hagent => (by cases hagent)
  · exact fun _ _ _ _ _ hagent => (by cases hagent)
  · -- The point is pushed while nothing is removed.
    intro _ item rest _ j rest' idx hj
    cases j <;> cases hj
  · exact fun _ _ _ _ _ hagent => (by cases hagent)
  · exact fun _ _ _ hagent => (by cases hagent)
  · exact fun _ _ _ _ _ hagent => (by cases hagent)
  · exact fun _ _ _ hagent => (by cases hagent)
  · -- The key is looked at while the point is on the way, but the counter is indexed.
    intro _ key rest idx md5 hagent hcounter _ _
    have htest : (run (Goroutine.step loadEnv oneBucket) (receiveAndClean loadIndexed)
        [(false, {}), (false, {}), (true, {}), (true, {})]).agent true =
          .cleaner (.test [itemKey loadEnv (gaugeItem 60)] 0) := rfl
    cases htest.symm.trans hagent
    obtain rfl := counterOfKey_itemKey isMd5_loadEnv hcounter
    exact Or.inl (AList.lookup_isSome.mp rfl)
  · exact fun _ _ _ hagent => (by cases hagent)

/-- A point of a new counter is cached, its counter is pending, and the key is removed:
nothing has been flushed, and the point is gone. -/
theorem clean_discards_pending :
    let c := run (Goroutine.step loadEnv oneBucket) (receiveAndClean ∅)
      [(false, {}), (false, {}), (false, {}), (false, {}), (false, {}), (false, {}),
        (true, {}), (true, {}), (true, {})]
    let d := move (Goroutine.step loadEnv oneBucket) c (true, {})
    c.agent true = .cleaner (.remove loadKey [] 0) ∧
      c.shared.node.cached loadKey = [gaugeItem 60] ∧ loadMd5 ∈ c.shared.unIndexed ∧
      c.shared.removed = [] ∧ d.shared.node.cached loadKey = [] ∧ d.shared.node.flushed = [] := by
  refine ⟨rfl, rfl, ?_, rfl, rfl, rfl⟩
  exact AList.lookup_isSome.mp rfl

end OpenFalcon.Graph
