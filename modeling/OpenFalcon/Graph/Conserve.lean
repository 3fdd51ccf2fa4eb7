import OpenFalcon.Graph.Flushed

/-!
# Where the points of a series are

Points come into the cache through `handleItems`.  They leave it through `PopAll`, on the way
to `FlushFile` or to another node; and `send_data` puts them back with `PushAll` when it has
failed three times.  `Query` only looks.

Whatever the order of these steps, a point that was pushed is in exactly one place: cached,
handed to `FlushFile`, sent, or held by a running `send_data` (`points_conserved`, first
part).  And if nobody else pops or restores in between, a `send_data` that fails puts the
points back where they were, behind the ones that have come in the meantime (second part).

The list of a key that exists stays at its place while this goes on, so that `PushFront` is
one step of it.
-/

namespace OpenFalcon.Graph

open Machine

variable {F : Type}

/-! ## The goroutines -/

/-- `GraphItemMap.FetchAll`: the cached points and the flag. -/
def GraphItemMap.fetchAll (this : GraphItemMap F) (key : String) : List (GraphItem F) × Flag :=
  match this.lookup key with
  | some sl => (sl.fetchAll, sl.flag)
  | none => ([], 0)

/-- The program points of `Query`: before it is called, before `FetchAll`, and with the points
it fetched. -/
inductive QueryPoint (F : Type) where
  | idle
  | fetch (key : String)
  | fetched (items : List (GraphItem F)) (flag : Flag)

/-- A goroutine that reads or writes the cache. -/
inductive Party (F : Type) where
  | agent (a : Agent F)
  | query (p : QueryPoint F)

/-- What the goroutines do not decide themselves. -/
structure Traffic (F : Type) extends Input F where
  /-- The key that is queried. -/
  queryKey : Option String := none

/-- One atomic step of `Query` on the cache. -/
def QueryPoint.step (o : Traffic F) (s : Node F) : QueryPoint F → QueryPoint F
  | idle =>
    match o.queryKey with
    | some key => fetch key
    | none => idle
  | fetch key => fetched (s.graphItems.fetchAll key).1 (s.graphItems.fetchAll key).2
  | fetched _ _ => idle

/-- One atomic step of a goroutine. -/
def Party.step (env : NodeEnv) (o : Traffic F) (s : Node F) : Party F → Node F × Party F
  | agent a =>
    let r := a.step env o.toInput s
    (r.1, agent r.2)
  | query p => (s, query (if s.running then p.step o s else p))

/-! ## The places -/

/-- The points of a key that were sent to the remote node, the latest batch first. -/
def Node.sentItems (s : Node F) (key : String) : List (GraphItem F) :=
  ((s.sent.filter fun batch => batch.1 = key).map Prod.snd).flatten

/-- The points of a key that a `send_data` holds. -/
def Worker.sending (key : String) : Worker F → List (GraphItem F)
  | sendCall k _ items _ => if k = key then items else []
  | sendRestore k _ items => if k = key then items else []
  | _ => []

/-- The points of a key on their way into `FlushFile`. -/
def Worker.flushing (key : String) : Worker F → List (GraphItem F)
  | commitFlush call => if call.key = key then call.items else []
  | _ => []

/-- The points of a key that a `send_data` holds. -/
def Party.sending (key : String) : Party F → List (GraphItem F)
  | agent (.worker w) => w.sending key
  | agent (.flusher w) => w.sending key
  | _ => []

/-- The points of a key on their way into `FlushFile`. -/
def Party.flushing (key : String) : Party F → List (GraphItem F)
  | agent (.worker w) => w.flushing key
  | agent (.flusher w) => w.flushing key
  | _ => []

/-- What a step pushes for a key. -/
def Party.pushes (env : NodeEnv) (key : String) (_ : Traffic F) (s : Node F) :
    Party F → List (GraphItem F)
  | agent (.handler (.push item _)) =>
    if s.running = true ∧ itemKey env item = key then [item] else []
  | _ => []

/-- The cached points, those handed to `FlushFile` and those sent. -/
def Node.settled (key : String) (s : Node F) : Multiset (GraphItem F) :=
  ↑(s.cached key) + ↑(s.flushedItems key) + ↑(s.sentItems key)

/-- The points that are between two places. -/
def Worker.underway (key : String) (w : Worker F) : Multiset (GraphItem F) :=
  ↑(w.flushing key) + ↑(w.sending key)

/-- The points that are between two places. -/
def Party.underway (key : String) (p : Party F) : Multiset (GraphItem F) :=
  ↑(p.flushing key) + ↑(p.sending key)

namespace Node

variable {key : String} {s : Node F}

theorem settled_congr {s' : Node F} (hcached : s'.cached key = s.cached key)
    (hflushed : s'.flushed = s.flushed) (hsent : s'.sent = s.sent) :
    s'.settled key = s.settled key := by
  unfold settled flushedItems flushes sentItems
  rw [hcached, hflushed, hsent]

@[simp] theorem settled_setFlag (s : Node F) (k key : String) (f : Flag) :
    (s.setFlag k f).settled key = s.settled key :=
  settled_congr (cached_setFlag s k key f) rfl rfl

theorem settled_popAll (s : Node F) (k key : String) :
    (s.popAll k).2.settled key + (if k = key then ↑(s.popAll k).1 else 0) = s.settled key := by
  by_cases hk : k = key
  · subst hk
    unfold settled
    rw [if_pos rfl, cached_popAll, if_pos rfl, fst_popAll, Multiset.coe_nil, zero_add]
    exact (add_comm _ _).trans (add_assoc _ _ _).symm
  · rw [if_neg hk, add_zero]
    refine settled_congr ?_ rfl rfl
    rw [cached_popAll, if_neg fun h => hk h.symm]

theorem settled_pushAll (hkey : key ∈ s.graphItems) (k : String) (items : List (GraphItem F)) :
    (s.pushAll k items).settled key = s.settled key + if k = key then ↑items else 0 := by
  by_cases hk : k = key
  · subst hk
    have hflushed : (s.pushAll k items).flushedItems k = s.flushedItems k := rfl
    have hsent : (s.pushAll k items).sentItems k = s.sentItems k := rfl
    unfold settled
    rw [cached_pushAll, if_pos ⟨rfl, hkey⟩, if_pos rfl, hflushed, hsent, ← Multiset.coe_add]
    abel
  · rw [if_neg hk, add_zero]
    refine settled_congr ?_ rfl rfl
    rw [cached_pushAll, if_neg fun h => hk h.1.symm]

theorem settled_flushFile (s : Node F) (call : FlushCall F) (fault : FlushFault) (key : String) :
    (s.flushFile call fault).settled key =
      s.settled key + if call.key = key then ↑call.items else 0 := by
  have hcached : (s.flushFile call fault).cached key = s.cached key := rfl
  have hsent : (s.flushFile call fault).sentItems key = s.sentItems key := rfl
  unfold settled
  rw [flushedItems_flushFile, hcached, hsent]
  split
  · rw [← Multiset.coe_add]
    abel
  · rw [add_zero]

theorem sentItems_sent (s : Node F) (k key : String) (items : List (GraphItem F)) :
    sentItems { s with sent := (k, items) :: s.sent } key =
      if k = key then items ++ s.sentItems key else s.sentItems key := by
  unfold sentItems
  dsimp only
  split
  · rename_i hk
    rw [List.filter_cons_of_pos (by simpa using hk)]
    rfl
  · rename_i hk
    rw [List.filter_cons_of_neg (by simpa using hk)]

theorem settled_sent (s : Node F) (k key : String) (items : List (GraphItem F)) :
    settled key { s with sent := (k, items) :: s.sent } =
      s.settled key + if k = key then ↑items else 0 := by
  have hcached : cached { s with sent := (k, items) :: s.sent } key = s.cached key := rfl
  have hflushed : flushedItems { s with sent := (k, items) :: s.sent } key =
      s.flushedItems key := rfl
  unfold settled
  rw [sentItems_sent, hcached, hflushed]
  split
  · rw [← Multiset.coe_add]
    abel
  · rw [add_zero]

theorem settled_pushFront (env : NodeEnv) (s : Node F) (item : GraphItem F) (key : String) :
    (s.pushFront env item).settled key =
      s.settled key + if itemKey env item = key then {item} else 0 := by
  by_cases hk : itemKey env item = key
  · have hflushed : (s.pushFront env item).flushedItems key = s.flushedItems key := rfl
    have hsent : (s.pushFront env item).sentItems key = s.sentItems key := rfl
    unfold settled
    rw [cached_pushFront, if_pos hk.symm, if_pos hk, hflushed, hsent, ← Multiset.coe_add,
      Multiset.coe_singleton]
    abel
  · rw [if_neg hk, add_zero]
    refine settled_congr ?_ rfl rfl
    rw [cached_pushFront, if_neg fun h => hk h.symm]

end Node

/-! ## Nothing is lost and nothing comes twice -/

namespace Worker

variable {cfg : GlobalConfig} {o : Outside F} {s s' : Node F} {w w' : Worker F} {key : String}

theorem mem_graphItems_iff : key ∈ s.graphItems ↔ (s.flag key).isSome := by
  unfold Node.flag
  rw [Option.isSome_map, AList.lookup_isSome]

theorem Move.mem_graphItems (h : Move cfg o s w s' w') (hkey : key ∈ s.graphItems) :
    key ∈ s'.graphItems := by
  rw [mem_graphItems_iff] at hkey ⊢
  rw [h.isSome_flag key]
  exact hkey

/-- The key whose points the next step pops. -/
def pops : Worker F → Option String
  | sendPop key _ => some key
  | commitPop key => some key
  | _ => none

@[simp] theorem underway_sendCall (k key : String) (f : Flag) (items : List (GraphItem F)) (i : ℕ) :
    (sendCall k f items i).underway key = if k = key then ↑items else 0 := by
  simp only [underway, flushing, sending]
  split <;> simp

@[simp] theorem underway_sendRestore (k key : String) (f : Flag) (items : List (GraphItem F)) :
    (sendRestore k f items).underway key = if k = key then ↑items else 0 := by
  simp only [underway, flushing, sending]
  split <;> simp

@[simp] theorem underway_commitFlush (call : FlushCall F) (key : String) :
    (commitFlush call).underway key = if call.key = key then ↑call.items else 0 := by
  simp only [underway, flushing, sending]
  split <;> simp

/-- **A step of a worker moves points from one place to another.** -/
theorem Move.balance (h : Move cfg o s w s' w') (hpops : w.pops = none)
    (hkey : key ∈ s.graphItems) :
    s'.settled key + w'.underway key = s.settled key + w.underway key := by
  cases h with
  | sendMark k f => rw [Node.settled_setFlag]; rfl
  | sendEnd k f => rw [Node.settled_setFlag]; rfl
  | fetchPanic k f => exact congrArg (· + _) (Node.settled_setFlag s k key _)
  | fetchMark k f => rw [Node.settled_setFlag]; rfl
  | fetchEnd k f err => rw [Node.settled_setFlag]; rfl
  | fetchNotExist k f err _ => rw [Node.settled_setFlag]; rfl
  | clear k => rw [Node.settled_setFlag]; rfl
  | sendOk k f items i =>
    rw [Node.settled_sent, underway_sendCall]
    exact add_zero _
  | restore _ k f items =>
    rw [Node.settled_pushAll hkey, underway_sendRestore]
    exact add_zero _
  | flush call =>
    rw [Node.settled_flushFile, underway_commitFlush]
    exact add_zero _
  | sendEmpty k f => cases hpops
  | sendTake k f => cases hpops
  | commitSkip k => cases hpops
  | commitPanic k => cases hpops
  | commitEmpty k => cases hpops
  | commitTake k => cases hpops
  | _ => rfl

/-- A step that pops holds what it popped, if it popped anything. -/
theorem balance_popAll (s : Node F) (k key : String) {w₀ w₁ : Worker F}
    (h₀ : w₀.underway key = 0) (h₁ : w₁.underway key = if k = key then ↑(s.popAll k).1 else 0) :
    (s.popAll k).2.settled key + (if (s.popAll k).1.isEmpty then w₀ else w₁).underway key =
      s.settled key := by
  rw [← Node.settled_popAll s k key]
  split
  · rename_i hempty
    rw [h₀, List.isEmpty_iff.mp hempty, Multiset.coe_nil, ite_self]
  · rw [h₁]

theorem step_sendPop (hrunning : s.running = true) (cfg : GlobalConfig) (o : Outside F)
    (k : String) (f : Flag) :
    step cfg o s (sendPop k f) = ((s.popAll k).2,
      if (s.popAll k).1.isEmpty then sendOut k f else sendCall k f (s.popAll k).1 0) :=
  if_pos hrunning

theorem step_sendRestore (hrunning : s.running = true) (cfg : GlobalConfig) (o : Outside F)
    (k : String) (f : Flag) (items : List (GraphItem F)) :
    step cfg o s (sendRestore k f items) = (s.pushAll k items, sendOut k f) :=
  if_pos hrunning

theorem balance_step (cfg : GlobalConfig) (o : Outside F) (w : Worker F)
    (hkey : key ∈ s.graphItems) :
    (step cfg o s w).1.settled key + (step cfg o s w).2.underway key =
      s.settled key + w.underway key := by
  by_cases hrunning : s.running = true
  · cases hpops : w.pops with
    | none => exact (move_step cfg o s w).balance hpops hkey
    | some k =>
      cases w with
      | sendPop k f =>
        rw [step_sendPop hrunning]
        exact (balance_popAll s k key rfl (underway_sendCall k key f _ 0)).trans (add_zero _).symm
      | commitPop k =>
        by_cases hflushable : Flushable k
        · rw [Node.step_commitPop hrunning hflushable]
          exact (balance_popAll s k key rfl (underway_commitFlush _ key)).trans (add_zero _).symm
        · rw [Node.step_commitPop_of_not_flushable hrunning hflushable o .none]
          rcases Node.commitByKey_of_not_flushable hflushable cfg s .none with h | h
          · rw [h]
            rfl
          · rw [h]
            rfl
      | _ => cases hpops
  · have hstopped : step cfg o s w = (s, w) := if_neg hrunning
    rw [hstopped]

end Worker

namespace Party

variable {env : NodeEnv} {s : Node F} {key : String}

theorem mem_pushFront (hkey : key ∈ s.graphItems) (item : GraphItem F) :
    key ∈ (s.pushFront env item).graphItems := by
  rw [← AList.lookup_isSome] at hkey ⊢
  unfold Node.pushFront
  rw [GraphItemMap.lookup_pushFront]
  split
  · rfl
  · exact hkey

/-- A step of `handleItems` pushes an item or leaves the node alone. -/
theorem handler_cases (env : NodeEnv) (key : String) (o : Traffic F) (s : Node F) (h : Handler F) :
    (∃ h', (step env o s (agent (.handler h))).2 = agent (.handler h')) ∧
      ((step env o s (agent (.handler h))).1 = s ∧
          pushes env key o s (agent (.handler h)) = [] ∨
        ∃ item, (step env o s (agent (.handler h))).1 = s.pushFront env item ∧
          pushes env key o s (agent (.handler h)) =
            if itemKey env item = key then [item] else []) := by
  by_cases hrunning : s.running = true
  · have hstep : step env o s (agent (.handler h)) =
        ((h.step env o.toInput s).1, agent (.handler (h.step env o.toInput s).2)) := by
      unfold step Agent.step
      dsimp only
      rw [if_pos hrunning]
    refine ⟨⟨_, congrArg Prod.snd hstep⟩, ?_⟩
    rw [hstep]
    cases h with
    | push item rest =>
      refine Or.inr ⟨item, rfl, ?_⟩
      simp only [pushes, hrunning, true_and]
    | idle => exact Or.inl ⟨Agent.fst_handlerStep env _ s fun _ _ h => (by cases h), rfl⟩
    | next items => exact Or.inl ⟨Agent.fst_handlerStep env _ s fun _ _ h => (by cases h), rfl⟩
  · have hstep : step env o s (agent (.handler h)) = (s, agent (.handler h)) := by
      unfold step Agent.step
      dsimp only
      rw [if_neg hrunning]
    refine ⟨⟨_, congrArg Prod.snd hstep⟩, Or.inl ⟨congrArg Prod.fst hstep, ?_⟩⟩
    cases h with
    | push item rest => exact if_neg fun h => hrunning h.1
    | _ => rfl

variable (o : Traffic F)

/-- **What every move of a worker and every push keep, a step keeps.** -/
theorem step_keeps {P : Node F → Prop} (p : Party F) (hs : P s)
    (hmove : ∀ o w s' w', Worker.Move env.cfg o s w s' w' → P s')
    (hpush : ∀ item, P (s.pushFront env item)) : P (step env o s p).1 := by
  cases p with
  | query p => exact hs
  | agent a =>
    cases a with
    | worker w => exact hmove _ _ _ _ (Worker.move_step env.cfg o.toOutside s w)
    | flusher w =>
      show P (w.flushStep env.cfg o.toInput s).1
      unfold Worker.flushStep
      split
      · exact hs
      · exact hmove _ _ _ _ (Worker.move_step env.cfg _ s _)
    | handler h =>
      obtain ⟨-, ⟨hstep, -⟩ | ⟨item, hstep, -⟩⟩ := handler_cases env "" o s h
      · rw [hstep]
        exact hs
      · rw [hstep]
        exact hpush item

theorem mem_step (p : Party F) (hkey : key ∈ s.graphItems) : key ∈ (step env o s p).1.graphItems :=
  step_keeps o p hkey (fun _ _ _ _ hmove => hmove.mem_graphItems hkey) (mem_pushFront hkey)

/-- **A step moves points from one place to another, and adds those it pushes.** -/
theorem balance (p : Party F) (hkey : key ∈ s.graphItems) :
    (step env o s p).1.settled key + (step env o s p).2.underway key =
      s.settled key + p.underway key + ↑(p.pushes env key o s) := by
  cases p with
  | query p => exact (add_zero _).symm
  | agent a =>
    cases a with
    | worker w =>
      exact (Worker.balance_step env.cfg o.toOutside w hkey).trans (add_zero _).symm
    | flusher w =>
      refine Eq.trans ?_ (add_zero _).symm
      show (w.flushStep env.cfg o.toInput s).1.settled key +
        (w.flushStep env.cfg o.toInput s).2.underway key = _
      unfold Worker.flushStep
      split
      · rfl
      · exact Worker.balance_step env.cfg _ _ hkey
    | handler h =>
      obtain ⟨⟨h', hagent⟩, ⟨hstep, hpushes⟩ | ⟨item, hstep, hpushes⟩⟩ :=
        handler_cases env key o s h
      · rw [hstep, hagent, hpushes]
        exact (add_zero _).symm
      · have hnone : ∀ h' : Handler F, underway key (agent (.handler h')) = 0 := fun _ => rfl
        rw [hstep, hagent, hpushes, hnone, hnone, add_zero, add_zero, Node.settled_pushFront]
        split <;> rfl

theorem stable_mem (env : NodeEnv) (key : String) :
    Stable (step env) (fun (_ : Traffic F) _ _ => True) (fun s => key ∈ s.graphItems)
      (fun _ _ => True) :=
  ⟨fun o _ p _ hkey _ => mem_step o p hkey, fun _ _ _ _ _ _ => trivial,
    fun _ _ _ _ _ _ _ _ => trivial⟩

end Party

/-! ## What a failed `send_data` leaves -/

/-- The list of a key, from front to back. -/
def Node.list (s : Node F) (key : String) : List (GraphItem F) :=
  ((s.graphItems.lookup key).map SafeLinkedList.l).getD []

theorem Node.reverse_cached (s : Node F) (key : String) : (s.cached key).reverse = s.list key := by
  unfold Node.list
  rw [cached_eq]
  cases s.graphItems.lookup key with
  | none => rfl
  | some sl => exact List.reverse_reverse _

namespace Worker

variable {cfg : GlobalConfig} {o : Outside F} {s s' : Node F} {w w' : Worker F} {key : String}

/-- The next step neither pops points of the key nor puts any back. -/
def Quiet (key : String) : Worker F → Prop
  | sendPop k _ => k ≠ key
  | commitPop k => k ≠ key
  | sendRestore k _ _ => k ≠ key
  | _ => True

/-- What the worker holds of the key, if anything, are the given points. -/
def HoldsOnly (key : String) (items : List (GraphItem F)) : Worker F → Prop
  | sendCall k _ items' _ => k = key → items' = items
  | sendRestore k _ items' => k = key → items' = items
  | _ => True

theorem Move.cached_of_quiet (h : Move cfg o s w s' w') (hquiet : w.Quiet key) :
    s'.cached key = s.cached key := by
  have hpop : ∀ k, k ≠ key → (s.popAll k).2.cached key = s.cached key := by
    intro k hk
    rw [Node.cached_popAll, if_neg fun h => hk h.symm]
  cases h with
  | sendMark k f => exact Node.cached_setFlag s k key _
  | sendEnd k f => exact Node.cached_setFlag s k key _
  | fetchPanic k f => exact Node.cached_setFlag s k key _
  | fetchMark k f => exact Node.cached_setFlag s k key _
  | fetchEnd k f err => exact Node.cached_setFlag s k key _
  | fetchNotExist k f err _ => exact Node.cached_setFlag s k key _
  | clear k => exact Node.cached_setFlag s k key _
  | sendEmpty k f => exact hpop k hquiet
  | sendTake k f => exact hpop k hquiet
  | commitEmpty k => exact hpop k hquiet
  | commitTake k => exact hpop k hquiet
  | restore _ k f items =>
    rw [Node.cached_pushAll, if_neg fun h => hquiet h.1.symm]
  | _ => rfl

theorem Move.holdsOnly (h : Move cfg o s w s' w') (hquiet : w.Quiet key)
    {items : List (GraphItem F)} (hw : w.HoldsOnly key items) : w'.HoldsOnly key items := by
  cases h with
  | stopped => exact hw
  | sendTake k f => exact fun hk => absurd hk hquiet
  | sendAgain k f items' i => exact hw
  | sendFail k f items' i => exact hw
  | _ => trivial

end Worker

namespace Party

variable {env : NodeEnv} {key : String} {items : List (GraphItem F)} {p : Party F}

/-- The next step neither pops points of the key nor puts any back. -/
def Quiet (key : String) (_ : Traffic F) (_ : Node F) : Party F → Prop
  | agent (.worker w) => w.Quiet key
  | agent (.flusher w) => w.Quiet key
  | _ => True

theorem cached_of_quiet (o : Traffic F) {s : Node F} (hquiet : p.Quiet key o s) :
    (step env o s p).1.cached key = s.cached key ++ p.pushes env key o s := by
  cases p with
  | query p => exact (List.append_nil _).symm
  | agent a =>
    cases a with
    | worker w =>
      exact ((Worker.move_step env.cfg o.toOutside s w).cached_of_quiet hquiet).trans
        (List.append_nil _).symm
    | flusher w =>
      refine Eq.trans ?_ (List.append_nil _).symm
      show (w.flushStep env.cfg o.toInput s).1.cached key = _
      unfold Worker.flushStep
      split
      · rfl
      · exact (Worker.move_step env.cfg _ s _).cached_of_quiet hquiet
    | handler h =>
      obtain ⟨-, ⟨hstep, hpushes⟩ | ⟨item, hstep, hpushes⟩⟩ := handler_cases env key o s h
      · rw [hstep, hpushes, List.append_nil]
      · rw [hstep, hpushes, Node.cached_pushFront]
        simp only [eq_comm (a := key)]
        split
        · rfl
        · exact (List.append_nil _).symm

variable {ι : Type} [DecidableEq ι] {c : Config ι (Node F) (Party F)} {i : ι}

/-- **While nobody pops or restores, points only come in**, and a worker holds what it held. -/
theorem run_of_quiet {w : Worker F} (hi : c.agent i = agent (.worker w))
    (hw : w.HoldsOnly key items) {ms : List (ι × Traffic F)}
    (hquiet : Along (step env) (Quiet key) c ms) :
    (run (step env) c ms).shared.cached key =
        c.shared.cached key ++ gathered (step env) (pushes env key) c ms ∧
      ∃ w', (run (step env) c ms).agent i = agent (.worker w') ∧ w'.HoldsOnly key items := by
  induction ms generalizing c w with
  | nil => exact ⟨(List.append_nil _).symm, w, hi, hw⟩
  | cons m ms ih =>
    obtain ⟨j, o⟩ := m
    obtain ⟨w₁, hi₁, hw₁⟩ : ∃ w₁, (move (step env) c (j, o)).agent i = agent (.worker w₁) ∧
        w₁.HoldsOnly key items := by
      by_cases hj : i = j
      · subst hj
        have hq : w.Quiet key := by
          have hq := hquiet.1
          rw [hi] at hq
          exact hq
        refine ⟨_, ?_, (Worker.move_step env.cfg o.toOutside c.shared w).holdsOnly hq hw⟩
        rw [agent_move_self, hi]
        rfl
      · exact ⟨w, (agent_move_of_ne hj).trans hi, hw⟩
    obtain ⟨hcached, hagent⟩ := ih hi₁ hw₁ hquiet.2
    refine ⟨?_, hagent⟩
    rw [run_cons, hcached, shared_move, cached_of_quiet o hquiet.1, gathered, List.append_assoc]

theorem mem_run (env : NodeEnv) (hkey : key ∈ c.shared.graphItems) (ms : List (ι × Traffic F)) :
    key ∈ (run (step env) c ms).shared.graphItems := by
  have hstart : Everywhere (fun s : Node F => key ∈ s.graphItems) (fun _ _ => True) c :=
    ⟨hkey, fun _ => trivial⟩
  exact (hstart.run (stable_mem env key) (along_of_forall (fun _ _ _ => trivial) c ms)).shared

/-- **A failed `send_data` puts its points back behind those that have come meanwhile.** -/
theorem list_of_failed_send {d : Config ι (Node F) (Party F)}
    {flag flag' : Flag} {o o' : Traffic F} {ms : List (ι × Traffic F)}
    (hkey : key ∈ d.shared.graphItems) (hrunning : d.shared.running = true)
    (hpop : d.agent i = agent (.worker (.sendPop key flag)))
    (hquiet : Along (step env) (Quiet key) (move (step env) d (i, o)) ms)
    (hrunning₂ : (run (step env) (move (step env) d (i, o)) ms).shared.running = true)
    (hrestore : (run (step env) (move (step env) d (i, o)) ms).agent i =
      agent (.worker (.sendRestore key flag' items)))
    :
    (move (step env) (run (step env) (move (step env) d (i, o)) ms) (i, o')).shared.list key =
      (gathered (step env) (pushes env key) (move (step env) d (i, o)) ms).reverse ++
        d.shared.list key := by
  -- The pop empties the list, and the worker holds what was there.
  have hstep : step env o d.shared (d.agent i) = ((d.shared.popAll key).2,
      agent (.worker (if (d.shared.popAll key).1.isEmpty then .sendOut key flag
        else .sendCall key flag (d.shared.popAll key).1 0))) := by
    rw [hpop]
    unfold step Agent.step
    dsimp only
    rw [Worker.step_sendPop hrunning]
  have hempty : (move (step env) d (i, o)).shared.cached key = [] := by
    rw [shared_move, hstep, Node.cached_popAll, if_pos rfl]
  have hholds : Worker.HoldsOnly key (d.shared.cached key)
      (if (d.shared.popAll key).1.isEmpty then .sendOut key flag
        else .sendCall key flag (d.shared.popAll key).1 0) := by
    split
    · trivial
    · exact fun _ => rfl
  obtain ⟨hcached, w, hw, hitems⟩ :=
    run_of_quiet ((agent_move_self).trans (congrArg Prod.snd hstep)) hholds hquiet
  rw [hempty, List.nil_append] at hcached
  obtain rfl : items = d.shared.cached key := by
    rw [hrestore] at hw
    cases hw
    exact hitems rfl
  -- The restore puts it behind what has come in.
  have hmem := mem_run env hkey ((i, o) :: ms)
  rw [run_cons] at hmem
  generalize run (step env) (move (step env) d (i, o)) ms = d₂ at *
  have hlast : (step env o' d₂.shared
      (agent (.worker (.sendRestore key flag' (d.shared.cached key))))).1 =
      d₂.shared.pushAll key (d.shared.cached key) :=
    congrArg Prod.fst (Worker.step_sendRestore hrunning₂ env.cfg o'.toOutside key flag' _)
  rw [shared_move, hrestore, hlast, ← Node.reverse_cached, Node.cached_pushAll,
    if_pos ⟨rfl, hmem⟩, hcached, List.reverse_append, Node.reverse_cached]

/-- The goroutine waits for work. -/
def Idle : Party F → Prop
  | agent a => a.Idle
  | query p => p = .idle

theorem underway_of_idle (h : p.Idle) (key : String) : p.underway key = 0 := by
  cases p with
  | query p => rfl
  | agent a =>
    cases a with
    | handler _ => rfl
    | worker w =>
      cases (show w = .idle from h)
      rfl
    | flusher w =>
      cases (show w = .idle from h)
      rfl

end Party

open Party

/-- **No point is lost, and none is in two places.**

At every moment of a run the points pushed for the key are the cached ones, those handed to
`FlushFile`, those sent and those a running `send_data` holds, each as often as it was
pushed.  And when a `send_data` has failed three times, and since it popped its points nobody
else has popped or restored points of the key, then it leaves the points that have been
pushed meanwhile, the newest first, and behind them the list it had popped. -/
theorem points_conserved {ι : Type} [Fintype ι] [DecidableEq ι] (env : NodeEnv)
    {c : Config ι (Node F) (Party F)} (hidle : ∀ i, (c.agent i).Idle) {key : String}
    (hkey : key ∈ c.shared.graphItems) (ms : List (ι × Traffic F)) :
    let d := run (step env) c ms
    (↑(d.shared.cached key) +
          (↑(d.shared.flushedItems key) + ∑ i, ↑((d.agent i).flushing key)) +
          ↑(d.shared.sentItems key) + ∑ i, ↑((d.agent i).sending key) =
        (↑(c.shared.cached key) + ↑(c.shared.flushedItems key) + ↑(c.shared.sentItems key) +
          ↑(gathered (step env) (pushes env key) c ms) : Multiset (GraphItem F))) ∧
      ∀ (i : ι) (o o' : Traffic F) (flag flag' : Flag) (items : List (GraphItem F))
        (ms' : List (ι × Traffic F)),
        d.shared.running = true → d.agent i = agent (.worker (.sendPop key flag)) →
        let d₁ := move (step env) d (i, o)
        let d₂ := run (step env) d₁ ms'
        Along (step env) (Quiet key) d₁ ms' →
        d₂.shared.running = true → d₂.agent i = agent (.worker (.sendRestore key flag' items)) →
        (move (step env) d₂ (i, o')).shared.list key =
          (gathered (step env) (pushes env key) d₁ ms').reverse ++ d.shared.list key := by
  refine ⟨?_, ?_⟩
  · have hstart : Everywhere (fun s : Node F => key ∈ s.graphItems) (fun _ _ => True) c :=
      ⟨hkey, fun _ => trivial⟩
    have htotal := hstart.total_run_eq_add_gathered (f := Node.settled key) (g := underway key)
      (stable_mem env key) (fun o _ p hs _ => balance o p hs) ms
    have hbegin : total (Node.settled key) (underway key) c = c.shared.settled key := by
      unfold total
      rw [Finset.sum_eq_zero fun i _ => underway_of_idle (hidle i) key, add_zero]
    rw [hbegin] at htotal
    unfold total underway Node.settled at htotal
    rw [Finset.sum_add_distrib] at htotal
    refine Eq.trans ?_ htotal
    abel
  · intro i o o' flag flag' items ms' hrunning hpop d₁ d₂ hquiet hrunning₂ hrestore
    exact list_of_failed_send (mem_run env hkey ms) hrunning hpop hquiet hrunning₂ hrestore

/-- A worker and a call of `handleItems`, on a node with two cached points. -/
def workerAndHandler : Config Bool (Node Unit) (Party Unit) where
  shared := (Node.started []).handleItems loadEnv [some (gaugeItem 60), some (gaugeItem 120)]
  agent := fun i => agent (if i then .handler .idle else .worker .idle)

/-- The worker is about to pop the points. -/
def untilPop : List (Bool × Traffic Unit) :=
  [(false, { task := some (.send, loadKey) }), (false, {}), (false, {})]

/-- The three calls fail, and a point comes in between. -/
def failedCalls : List (Bool × Traffic Unit) :=
  [(false, {}), (true, { batch := some [some (gaugeItem 180)] }), (true, {}), (true, {}),
    (false, {}), (false, {})]

theorem points_conserved_failed_send :
    let d := run (step loadEnv) workerAndHandler untilPop
    let d₂ := run (step loadEnv) (move (step loadEnv) d (false, {})) failedCalls
    (↑(d.shared.cached loadKey) +
          (↑(d.shared.flushedItems loadKey) + ∑ i, ↑((d.agent i).flushing loadKey)) +
          ↑(d.shared.sentItems loadKey) + ∑ i, ↑((d.agent i).sending loadKey) =
        (↑[gaugeItem 60, gaugeItem 120] : Multiset (GraphItem Unit))) ∧
      d₂.agent false = agent (.worker (.sendRestore loadKey GRAPH_F_MISS
        [gaugeItem 60, gaugeItem 120])) ∧
      (move (step loadEnv) d₂ (false, {})).shared.list loadKey =
        [gaugeItem 180, gaugeItem 120, gaugeItem 60] := by
  intro d d₂
  have hidle : ∀ i, (workerAndHandler.agent i).Idle := by
    rintro (_ | _) <;> rfl
  have hkey : loadKey ∈ workerAndHandler.shared.graphItems := AList.lookup_isSome.mp rfl
  obtain ⟨hplaces, hlist⟩ := points_conserved loadEnv hidle hkey untilPop
  refine ⟨hplaces.trans rfl, rfl, ?_⟩
  exact hlist false {} {} GRAPH_F_MISS GRAPH_F_MISS [gaugeItem 60, gaugeItem 120] failedCalls
    rfl rfl ⟨trivial, trivial, trivial, trivial, trivial, trivial, trivial⟩ rfl rfl

end OpenFalcon.Graph
