import OpenFalcon.Graph.Migrate

/-!
# The mark of a missing file

`GRAPH_F_MISS` is set when a series arrives without an RRD file.  It should go once, when
the file has been fetched, and it should go at all.

Neither is certain.  A worker writes back the flag word it read when its task began, so a
task that began while the mark was set puts it back after another task has cleared it:
the mark stays away exactly if no such task is under way at that moment
(`miss_stays_clear_iff`).  And a series that is new on both nodes keeps its mark as long
as the remote node knows nothing of it: the error that should clear the mark crosses the
network as a text, and a text is no `os.IsNotExist` (`miss_stays_set`).
-/

namespace OpenFalcon.Graph

open Machine

variable {F ι : Type} [DecidableEq ι] {cfg : GlobalConfig} {key : String}

theorem any_map_const (old : Option Flag) (f : Flag) :
    (old.map fun _ => f).any isMiss = (old.isSome && isMiss f) := by
  cases old <;> rfl

theorem Node.missing_setFlag_self {s : Node F} (hkey : (s.flag key).isSome) (f : Flag) :
    (s.setFlag key f).missing key = isMiss f := by
  unfold missing
  rw [flag_setFlag, if_pos rfl, any_map_const, hkey, Bool.true_and]

namespace Worker

/-! ## The mark stays away -/

/-- The mark is away, and no worker will bring it back. -/
def Clear (key : String) : Config ι (Node F) (Worker F) → Prop :=
  Everywhere (fun s => s.missing key = false)
    fun _ w => ∀ f, w.copy = some (key, f) → isMiss f = false

theorem stable_clear : Stable (step cfg) (fun _ _ _ => True)
    (fun s : Node F => s.missing key = false)
    (fun _ w => ∀ f, w.copy = some (key, f) → isMiss f = false) where
  shared o s w _ hs hw := by
    unfold Node.missing at hs ⊢
    cases (move_step cfg o s w).sets key with
    | same h => rw [h, hs]
    | back f f' hcopy hmiss h => rw [h, any_map_const, hmiss, hw f hcopy, Bool.and_false]
    | zero _ h => rw [h, any_map_const, isMiss_zero, Bool.and_false]
  own o s w _ hs hw f' hf' := by
    cases (move_step cfg o s w).copies hf' with
    | read h =>
      rw [Node.missing, h] at hs
      exact hs
    | kept f hcopy hmiss => rw [hmiss, hw f hcopy]
    | cleared f _ hmiss => exact hmiss
  other _ _ _ _ _ _ _ hq := hq

variable {c : Config ι (Node F) (Worker F)}

/-- **Without a copy of the mark nothing brings it back.** -/
theorem Clear.run (h : Clear key c) (ms : List (ι × Outside F)) : Clear key (run (step cfg) c ms) :=
  Everywhere.run h stable_clear (along_of_forall (fun _ _ _ => trivial) c ms)

/-! ## The mark comes back -/

/-- The worker can get to a state in which the mark is set, the others resting. -/
def Restores (cfg : GlobalConfig) (key : String) (r : Node F × Worker F) : Prop :=
  ∃ os, (alone (step cfg) r os).1.missing key = true

variable {w : Worker F} {s : Node F}

theorem Restores.of_step (o : Outside F) (h : Restores cfg key (step cfg o s w)) :
    Restores cfg key (s, w) := by
  obtain ⟨os, hos⟩ := h
  exact ⟨o :: os, hos⟩

theorem restores_of_missing {r : Node F × Worker F} (h : r.1.missing key = true) :
    Restores cfg key r :=
  ⟨[], h⟩

section Restores

variable {s : Node F} {f : Flag} (hrunning : s.running = true) (hkey : (s.flag key).isSome)
  (hmiss : isMiss f = true)
include hrunning hkey hmiss

theorem restores_sendOut : Restores cfg key (s, sendOut key f) := by
  refine .of_step {} (restores_of_missing ?_)
  simp only [step, hrunning, if_true]
  rw [Node.missing_setFlag_self hkey, isMiss_and_not_sending, hmiss]

theorem restores_sendCall (items : List (GraphItem F)) (i : ℕ) :
    Restores cfg key (s, sendCall key f items i) := by
  refine .of_step { reply := .answer cfg s .none } ?_
  simp only [step, hrunning, if_true, Reply.send]
  exact restores_sendOut rfl hkey hmiss

theorem restores_fetchOut (err : Option Err) : Restores cfg key (s, fetchOut key f err) := by
  refine .of_step {} (restores_of_missing ?_)
  simp only [step, hrunning, if_true]
  rw [Node.missing_setFlag_self hkey, isMiss_and_not_fetching, hmiss]

theorem restores_fetchCall (i : ℕ) : Restores cfg key (s, fetchCall key f i) := by
  -- The calls that are left go unanswered.
  induction hn : 3 - i generalizing i with
  | zero =>
    refine .of_step {} ?_
    simp only [step, hrunning, if_true, Reply.getRrd, if_neg (show ¬ i + 1 < 3 by omega)]
    exact restores_fetchOut hrunning hkey hmiss _
  | succ n ih =>
    refine .of_step {} ?_
    simp only [step, hrunning, if_true, Reply.getRrd]
    split
    · exact ih (i + 1) (by omega)
    · exact restores_fetchOut hrunning hkey hmiss _

/-- **A worker that holds a copy of the mark can bring it back.** -/
theorem restores_of_copy {w : Worker F} (hcopy : w.copy = some (key, f)) :
    Restores cfg key (s, w) := by
  cases w with
  | sendSet k g =>
    cases hcopy
    refine .of_step {} (restores_of_missing ?_)
    simp only [step, hrunning, if_true]
    rw [Node.missing_setFlag_self hkey, isMiss_or_sending, hmiss]
  | sendPop k g =>
    cases hcopy
    refine .of_step {} ?_
    simp only [step, hrunning, if_true]
    have hkey' : ((s.popAll key).2.flag key).isSome := by rwa [Node.flag_popAll]
    split
    · exact restores_sendOut (s := (s.popAll key).2) hrunning hkey' hmiss
    · exact restores_sendCall (s := (s.popAll key).2) hrunning hkey' hmiss _ _
  | sendCall k g items i =>
    cases hcopy
    exact restores_sendCall hrunning hkey hmiss items i
  | sendRestore k g items =>
    cases hcopy
    refine .of_step {} ?_
    simp only [step, hrunning, if_true]
    exact restores_sendOut hrunning (by rwa [Node.flag_pushAll]) hmiss
  | sendOut k g =>
    cases hcopy
    exact restores_sendOut hrunning hkey hmiss
  | fetchSet k g =>
    cases hcopy
    refine .of_step {} (restores_of_missing ?_)
    have hset : (s.setFlag key (f ||| GRAPH_F_FETCHING)).missing key = true := by
      rw [Node.missing_setFlag_self hkey, isMiss_or_fetching, hmiss]
    simp only [step, hrunning, if_true]
    split <;> exact hset
  | fetchCall k g i =>
    cases hcopy
    exact restores_fetchCall hrunning hkey hmiss i
  | fetchWrite k g =>
    cases hcopy
    -- The directory cannot be made, and the mark stays.
    refine .of_step { write := .insureDir (.plain "") false } ?_
    unfold step
    rw [if_pos hrunning]
    exact restores_fetchOut hrunning hkey hmiss (some (.plain ""))
  | fetchOut k g err =>
    cases hcopy
    exact restores_fetchOut hrunning hkey hmiss err
  | idle | sendGet _ | fetchGet _ | notExist _ | commitPop _ | commitFlush _ => cases hcopy

end Restores

/-! ## The mark after a fetch -/

/-- What holds of a worker in every run: the key of its copy has a list, and a fetch that
ends without an error has written the file and dropped the mark. -/
structure Fetches (cfg : GlobalConfig) (key : String) (s : Node F) (w : Worker F) : Prop where
  isSome_flag : ∀ f, w.copy = some (key, f) → (s.flag key).isSome
  clean : ∀ f, w = fetchOut key f none →
    isMiss f = false ∧ keyFileName cfg.storage key ∈ s.files

theorem fetches_idle (s : Node F) : Fetches cfg key s idle :=
  ⟨fun _ h => (by cases h), fun _ h => (by cases h)⟩

/-- A fetch ends without an error only behind a write that succeeds. -/
theorem Move.clean {o : Outside F} {s' : Node F} {w' : Worker F} {f : Flag}
    (h : Move cfg o s w s' w') (hw' : w' = fetchOut key f none) :
    (w = w' ∧ s = s') ∨ (isMiss f = false ∧ keyFileName cfg.storage key ∈ s'.files) := by
  cases h with
  | stopped => exact .inl ⟨rfl, rfl⟩
  | writeOk k g hok =>
    cases hw'
    exact .inr ⟨isMiss_and_not_miss g, ioWrite_eq_none hok⟩
  | _ => cases hw'

theorem stable_fetches : Stable (step cfg) (fun _ _ _ => True) (fun _ : Node F => True)
    (Fetches cfg key) where
  shared _ _ _ _ _ _ := trivial
  own o s w _ _ hw := by
    have hmove := move_step cfg o s w
    refine ⟨fun f' hf' => ?_, fun f hf => ?_⟩
    · rw [hmove.isSome_flag]
      cases hmove.copies hf' with
      | read h => rw [h]; rfl
      | kept f hcopy _ => exact hw.isSome_flag f hcopy
      | cleared f hf _ => exact hw.isSome_flag f (by rw [hf]; rfl)
    · rcases hmove.clean hf with ⟨hsame, hshared⟩ | hclean
      · rw [← hshared]
        exact hw.clean f (hsame.trans hf)
      · exact hclean
  other o s w q _ _ _ hq := by
    have hmove := move_step cfg o s w
    refine ⟨fun f hf => ?_, fun f hf => ?_⟩
    · rw [hmove.isSome_flag]
      exact hq.isSome_flag f hf
    · exact ⟨(hq.clean f hf).1, hmove.subset_files (hq.clean f hf).2⟩

theorem fetches_run (hidle : ∀ i, c.agent i = idle) (ms : List (ι × Outside F)) (i : ι) :
    Fetches cfg key (run (step cfg) c ms).shared ((run (step cfg) c ms).agent i) := by
  have hstart : Everywhere (fun _ => True) (Fetches cfg key) c :=
    ⟨trivial, fun i => by rw [hidle i]; exact fetches_idle c.shared⟩
  exact (hstart.run stable_fetches (along_of_forall (fun _ _ _ => trivial) c ms)).agent i

end Worker

open Worker

/-- **A fetch clears the mark for good exactly if no other task holds a copy of it.**  The
worker `i` is about to write back the flag word after a fetch that succeeded.  If another
worker holds a word of the same key with the mark in it at that moment, some continuation
of the run sets the mark again; otherwise none does. -/
theorem miss_stays_clear_iff {c : Config ι (Node F) (Worker F)} (hidle : ∀ i, c.agent i = idle)
    (ms : List (ι × Outside F)) {d : Config ι (Node F) (Worker F)}
    (hd : d = run (step cfg) c ms) (hrunning : d.shared.running = true)
    {i : ι} {flag : Flag} (hout : d.agent i = fetchOut key flag none) (o : Outside F) :
    keyFileName cfg.storage key ∈ d.shared.files ∧
      ((∀ ms', (run (step cfg) (move (step cfg) d (i, o)) ms').shared.missing key = false) ↔
        ∀ j, j ≠ i → ∀ f, (d.agent j).copy = some (key, f) → isMiss f = false) := by
  have hfetch : ∀ j, Fetches cfg key d.shared (d.agent j) := by
    intro j
    rw [hd]
    exact fetches_run hidle ms j
  obtain ⟨hclean, hfile⟩ := (hfetch i).clean flag hout
  have hkey : (d.shared.flag key).isSome := (hfetch i).isSome_flag flag (by rw [hout]; rfl)
  have hshared : (move (step cfg) d (i, o)).shared =
      d.shared.setFlag key (flag &&& ~~~GRAPH_F_FETCHING) := by
    rw [shared_move]
    simp only [step, hout, hrunning, if_true]
  refine ⟨hfile, fun hstays j hj f hcopy => ?_, fun hothers ms' => ?_⟩
  · -- The other worker goes on alone until it writes its copy back.
    by_contra hmiss
    have hkey' : ((move (step cfg) d (i, o)).shared.flag key).isSome := by
      rw [shared_move, (move_step cfg o _ _).isSome_flag]
      exact hkey
    have hrunning' : (move (step cfg) d (i, o)).shared.running = true := by
      rw [hshared]
      exact hrunning
    have hcopy' : ((move (step cfg) d (i, o)).agent j).copy = some (key, f) := by
      rw [agent_move_of_ne hj, hcopy]
    obtain ⟨os, hos⟩ := restores_of_copy hrunning' hkey' (by simpa using hmiss) hcopy'
    have hagain := hstays (os.map fun e => (j, e))
    rw [shared_run_alone] at hagain
    rw [hagain] at hos
    cases hos
  · have hclear : Clear key (move (step cfg) d (i, o)) := by
      refine ⟨?_, fun j f hcopy => ?_⟩
      · rw [hshared, Node.missing_setFlag_self hkey, isMiss_and_not_fetching, hclean]
      · by_cases hj : j = i
        · subst hj
          rw [agent_move_self, hout] at hcopy
          simp [step, hrunning, fetched, copy] at hcopy
        · rw [agent_move_of_ne hj] at hcopy
          exact hothers j hj f hcopy
    exact (hclear.run ms').shared

/-- A node with the first point of a series whose file it does not have. -/
def newNode : Node Unit where
  graphItems := (∅ : GraphItemMap Unit).insert "ab_GAUGE_60" ⟨GRAPH_F_MISS, [gaugeItem 60]⟩
  files := []

/-- The node that has the file. -/
def oldNode : Node Unit where
  graphItems := ∅
  files := ["data/ab/ab_GAUGE_60.rrd"]

/-- A worker takes the pull task of the series. -/
def takePull : Outside Unit :=
  { task := some (.pull, "ab_GAUGE_60") }

/-- The remote call is answered by the node that has the file. -/
def answered : Outside Unit :=
  { reply := .answer dataConfig oldNode .none }

/-- One worker fetches the file and is about to write the flag word back. -/
def oneFetch : List (Unit × Outside Unit) :=
  [((), takePull), ((), {}), ((), {}), ((), answered), ((), {})]

/-- Two workers take the pull task of the series, and the first of them has fetched the
file and written the flag word back. -/
def twoFetches : List (Bool × Outside Unit) :=
  [(false, takePull), (true, takePull), (false, {}), (true, {}), (false, {}), (true, {}),
    (false, answered), (false, {}), (false, {})]

theorem miss_stays_clear_one_worker :
    let d := run (step dataConfig) ⟨newNode, fun _ : Unit => idle⟩ oneFetch
    d.agent () = fetchOut "ab_GAUGE_60" 0 none ∧
      ∀ ms', (run (step dataConfig) (move (step dataConfig) d ((), {})) ms').shared.missing
        "ab_GAUGE_60" = false :=
  have hout : (run (step dataConfig) ⟨newNode, fun _ : Unit => idle⟩ oneFetch).agent () =
      fetchOut "ab_GAUGE_60" 0 none := rfl
  ⟨hout, (miss_stays_clear_iff (fun _ => rfl) oneFetch rfl rfl hout {}).2.mpr
    fun j hj => absurd (Subsingleton.elim j ()) hj⟩

/-- The second worker brings the mark back: its write fails because the file is there, and
it writes back the word it read. -/
theorem miss_set_again :
    let d := run (step dataConfig) ⟨newNode, fun _ : Bool => idle⟩ twoFetches
    d.shared.files = ["data/ab/ab_GAUGE_60.rrd"] ∧ d.shared.missing "ab_GAUGE_60" = false ∧
      (run (step dataConfig) d [(true, answered), (true, {}), (true, {})]).shared.missing
        "ab_GAUGE_60" = true := by
  decide

/-! ## The mark of a series that is new everywhere -/

/-- The node has neither a file nor a cached point of the key. -/
def Node.Lacks (cfg : GlobalConfig) (s : Node F) (key : String) : Prop :=
  GraphItemMap.items s.graphItems key = [] ∧ keyFileName cfg.storage key ∉ s.files

/-- The calls of `FlushFile` with the points of a key. -/
def Node.flushes (s : Node F) (key : String) : List (FlushCall F) :=
  s.flushed.filter fun call => call.key = key

/-- **No error of a remote call is `os.IsNotExist`**: what the remote function returns
arrives as its text. -/
theorem isNotExist_of_getRrd {reply : Reply F} {err : Err} (h : reply.getRrd key = some err) :
    isNotExist err = false := by
  cases reply with
  | answer cfg remote fault =>
    unfold Reply.getRrd at h
    dsimp only at h
    split at h
    · obtain ⟨e, _, rfl⟩ := Option.map_eq_some_iff.mp h
      rfl
    · cases h
      rfl
  | lost err =>
    cases h
    cases err <;> rfl

variable {remote : Node F}

theorem Node.getRrd_of_lacks (h : remote.Lacks cfg key) (fault : FlushFault) :
    (remote.getRrd cfg key fault).1 ≠ some none := by
  unfold getRrd
  dsimp only
  split
  · exact fun h => by cases h
  · split
    · exact fun h => by cases h
    · have hpopped : (remote.popAll key).1 = [] := h.1
      have hread : readFile (keyFileName cfg.storage key) remote.files =
          some (.pathError "open" (keyFileName cfg.storage key) .ENOENT) :=
        if_neg (by simpa [isRrdFileExist] using h.2)
      have hfiles : (remote.popAll key).2.files = remote.files := rfl
      rw [hpopped, List.isEmpty_nil, if_pos rfl, hfiles, hread]
      exact fun h => by cases h

/-- **A node that lacks the key answers with an error.** -/
theorem getRrd_answer_of_lacks (h : remote.Lacks cfg key) (fault : FlushFault) :
    (Reply.answer cfg remote fault).getRrd key ≠ none := by
  have hlacks := Node.getRrd_of_lacks h fault
  unfold Reply.getRrd
  dsimp only
  rcases hans : (remote.getRrd cfg key fault).1 with _ | _ | err
  · exact fun h => by cases h
  · exact absurd hans hlacks
  · exact fun h => by cases h

namespace Worker

/-- The answers to the fetches of the key come from nodes that lack it. -/
def RemoteLacks (key : String) (o : Outside F) (_ : Node F) (w : Worker F) : Prop :=
  ∀ cfg remote fault, o.reply = .answer cfg remote fault →
    ∀ f i, w = fetchCall key f i → remote.Lacks cfg key

/-- The worker has not fetched the key, and is not about to flush it. -/
def Fruitless (key : String) : Worker F → Prop
  | fetchWrite k _ => k ≠ key
  | fetchOut k _ err => k = key → ∃ e, err = some e ∧ isNotExist e = false
  | notExist k => k ≠ key
  | commitPop k => k ≠ key
  | commitFlush call => call.key ≠ key
  | _ => True

variable {o : Outside F} {s s' : Node F} {w w' : Worker F}

/-- **A fetch from nodes that lack the key stays fruitless.** -/
theorem Move.fruitless (h : Move cfg o s w s' w') (hremote : RemoteLacks key o s w)
    (hw : Fruitless key w) : Fruitless key w' := by
  cases h with
  | stopped => exact hw
  | fetchOk k f i hok =>
    intro hk
    subst hk
    cases hreply : o.reply with
    | answer cfg' remote fault =>
      rw [hreply] at hok
      exact getRrd_answer_of_lacks (hremote cfg' remote fault hreply f i rfl) fault hok
    | lost err =>
      rw [hreply] at hok
      cases hok
  | fetchFail k f i err herr => exact fun _ => ⟨err, rfl, isNotExist_of_getRrd herr⟩
  | writeOk k f _ => exact fun hk => absurd hk hw
  | writeFail k f err => exact fun hk => absurd hk hw
  | fetchNotExist k f err herr =>
    intro hk
    obtain ⟨e, he, hnot⟩ := hw hk
    cases he
    rw [herr] at hnot
    cases hnot
  | clear k => exact hw
  | commitTake k => exact hw
  | _ => trivial

theorem Move.flushes (h : Move cfg o s w s' w') (hw : Fruitless key w) :
    s'.flushes key = s.flushes key := by
  cases h with
  | flush call =>
    have hkey : call.key ≠ key := hw
    exact List.filter_cons_of_neg (by simpa using hkey)
  | _ => rfl

/-- The mark is set and nothing of the key has been flushed since `calls`. -/
def Stuck (key : String) (calls : List (FlushCall F)) (s : Node F) : Prop :=
  s.missing key = true ∧ s.flushes key = calls

theorem stable_stuck (calls : List (FlushCall F)) : Stable (step cfg) (RemoteLacks key)
    (Stuck key calls)
    (fun _ w => Fruitless key w ∧ ∀ f, w.copy = some (key, f) → isMiss f = true) where
  shared o s w _ hs hw := by
    have hmove := move_step cfg o s w
    refine ⟨?_, (hmove.flushes hw.1).trans hs.2⟩
    have hmiss := hs.1
    unfold Node.missing at hmiss ⊢
    cases hmove.sets key with
    | same h => rw [h, hmiss]
    | back f f' hf hsame h =>
      rw [h, any_map_const, Option.isSome_of_any hmiss, hsame, hw.2 f hf, Bool.and_self]
    | zero hzero _ =>
      subst hzero
      exact absurd rfl hw.1
  own o s w hremote hs hw := by
    have hmove := move_step cfg o s w
    refine ⟨hmove.fruitless hremote hw.1, fun f' hf' => ?_⟩
    cases hmove.copies hf' with
    | read h =>
      have hmiss := hs.1
      rw [Node.missing, h] at hmiss
      exact hmiss
    | kept f hf hsame => rw [hsame, hw.2 f hf]
    | cleared f hf _ =>
      subst hf
      exact absurd rfl hw.1
  other _ _ _ _ _ _ _ hq := hq

end Worker

/-- **A series that is new everywhere keeps its mark, and none of its points is flushed**,
however often it is pulled: in every run in which the nodes that answer lack the series,
the mark is set in every state, and no worker calls `FlushFile` for it. -/
theorem miss_stays_set {c : Config ι (Node F) (Worker F)} (hidle : ∀ i, c.agent i = idle)
    (hmiss : c.shared.missing key = true) (ms : List (ι × Outside F))
    (hremote : Along (step cfg) (RemoteLacks key) c ms) :
    (run (step cfg) c ms).shared.missing key = true ∧
      (run (step cfg) c ms).shared.flushes key = c.shared.flushes key := by
  have hstart : Everywhere (Stuck key (c.shared.flushes key))
      (fun _ w => Fruitless key w ∧ ∀ f, w.copy = some (key, f) → isMiss f = true) c := by
    refine ⟨⟨hmiss, rfl⟩, fun i => ?_⟩
    rw [hidle i]
    exact ⟨trivial, fun f hf => by cases hf⟩
  exact (hstart.run (stable_stuck _) hremote).shared

/-- The remote call is answered by a node that has nothing of the series. -/
def answeredEmpty : Outside Unit :=
  { reply := .answer dataConfig ⟨∅, [], [], [], true⟩ .none }

/-- One worker pulls the series, and all three calls are answered by the empty node. -/
def fruitlessPull : List (Unit × Outside Unit) :=
  [((), takePull), ((), {}), ((), {}), ((), answeredEmpty), ((), answeredEmpty),
    ((), answeredEmpty), ((), {})]

theorem remoteLacks_of_lost {o : Outside F} {s : Node F} {w : Worker F} {err : RpcErr}
    (h : o.reply = .lost err) : RemoteLacks key o s w := by
  intro cfg remote fault h'
  rw [h] at h'
  cases h'

theorem remoteLacks_answeredEmpty (s : Node Unit) (w : Worker Unit) :
    RemoteLacks key answeredEmpty s w := by
  intro cfg remote fault h f i _
  cases h
  exact ⟨rfl, List.not_mem_nil⟩

theorem miss_stays_set_one_pull :
    let d := run (step dataConfig) ⟨newNode, fun _ : Unit => idle⟩ fruitlessPull
    d.shared.missing "ab_GAUGE_60" = true ∧ d.shared.flushes "ab_GAUGE_60" = [] :=
  miss_stays_set (fun _ => rfl) (by decide) fruitlessPull
    ⟨remoteLacks_of_lost rfl, remoteLacks_of_lost rfl, remoteLacks_of_lost rfl,
      remoteLacks_answeredEmpty _ _, remoteLacks_answeredEmpty _ _, remoteLacks_answeredEmpty _ _,
      remoteLacks_of_lost rfl, trivial⟩

/-- The pull has ended, the mark is still there and so is the point. -/
theorem pull_of_new_series_leaves_mark :
    let d := run (step dataConfig) ⟨newNode, fun _ : Unit => idle⟩ fruitlessPull
    d.agent () = idle ∧ d.shared.missing "ab_GAUGE_60" = true ∧ d.shared.flushed = [] ∧
      GraphItemMap.items d.shared.graphItems "ab_GAUGE_60" = [gaugeItem 60] :=
  ⟨rfl, by decide, rfl, rfl⟩

end OpenFalcon.Graph
