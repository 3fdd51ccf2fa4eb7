import OpenFalcon.Graph.Index

/-!
# Deleting a counter

`RemoveItem` takes a counter out of both caches of the index, out of the cache of points and
off the disk.  Two others may be at work on the same counter.

A `ReceiveItem` asks whether the counter is in `IndexedItemCache` and reads the entry
afterwards.  If the entry goes away in between, it applies a type assertion to nothing, and
the node ends.  Nobody but `RemoveItem` takes entries out, so this is the only way
(`receive_never_panics_iff`).

A goroutine of `updateIndexIncr` that has the entry of the counter puts it into
`IndexedItemCache` when its write to the database is done, whatever has happened to the
counter by then.  And `HistoryCache` is not touched by `RemoveItem` at all.  So a deletion is
final exactly if no such `Put` comes after the `Remove` and there was no history
(`deletion_final_iff`).
-/

namespace OpenFalcon.Graph

open Machine Common Numeric

variable {F ι : Type} [DecidableEq ι]

/-! ## Receiving meanwhile -/

namespace Goroutine

/-- The goroutine has found the counter in `IndexedItemCache` and not read the entry yet. -/
def BetweenReads (env : NodeEnv) (md5 : String) : Goroutine F → Prop
  | intake (.get item _) => checksum env item = md5
  | _ => False

variable {env : NodeEnv} {hashKey : String → BitVec 32} {s : Server F} {p : Goroutine F}
  {md5 : String} {o : ServerInput F}

theorem running_of_running_step (h : (p.step env hashKey o s).1.node.running = true) :
    s.node.running = true := by
  by_contra hrunning
  rw [step_of_not_running hrunning] at h
  exact hrunning h

theorem betweenReads_step (h : (p.step env hashKey o s).2.BetweenReads env md5) :
    p.BetweenReads env md5 ∨ md5 ∈ s.indexed := by
  by_cases hrunning : s.node.running = true
  · rw [step_of_running hrunning] at h
    cases p with
    | intake p =>
      cases p with
      | take hd => cases hd <;> exact h.elim
      | contains item rest =>
        unfold act Intake.step at h
        dsimp only at h
        split at h
        · rename_i hmem
          obtain rfl : checksum env item = md5 := h
          exact Or.inr hmem
        · exact h.elim
      | get item rest =>
        unfold act Intake.step at h
        dsimp only at h
        split at h
        · dsimp only at h
          split at h <;> exact h.elim
        · exact Or.inl h
      | file item rest =>
        unfold act Intake.step at h
        dsimp only at h
        split at h
        · exact h.elim
        · dsimp only at h
          split at h <;> exact h.elim
      | _ => exact h.elim
    | _ => exact h.elim
  · rw [step_of_not_running hrunning] at h
    exact Or.inl h

/-- **A type assertion fails exactly if the entry has gone.** -/
theorem badAssertion_step (env : NodeEnv) (hashKey : String → BitVec 32) (o : ServerInput F)
    (s : Server F) (p : Goroutine F) :
    (p.step env hashKey o s).1.badAssertion = s.badAssertion ∨
      ∃ md5, p.BetweenReads env md5 ∧ s.node.running = true ∧ md5 ∉ s.indexed := by
  by_cases hrunning : s.node.running = true
  · rw [step_of_running hrunning]
    cases p with
    | intake p =>
      cases p with
      | take hd => exact Or.inl (by cases hd <;> rfl)
      | get item rest =>
        cases hlookup : s.indexed.lookup (checksum env item) with
        | none => exact Or.inr ⟨_, rfl, hrunning, AList.lookup_eq_none.mp hlookup⟩
        | some old =>
          refine Or.inl ?_
          unfold act Intake.step
          dsimp only
          rw [hlookup]
      | file item rest =>
        refine Or.inl ?_
        unfold act Intake.step
        dsimp only
        split <;> rfl
      | _ => exact Or.inl rfl
    | flusher w => exact Or.inl rfl
    | removal p =>
      refine Or.inl ?_
      unfold act Removal.step
      dsimp only
      repeat' split
      all_goals rfl
    | cleaner p =>
      refine Or.inl ?_
      unfold act Cleaner.step
      dsimp only
      repeat' split
      all_goals rfl
    | incr =>
      refine Or.inl ?_
      unfold act Server.incrStep Server.writerStep Server.taskStep
      dsimp only
      repeat' split
      all_goals rfl
  · rw [step_of_not_running hrunning]
    exact Or.inl rfl

/-- A goroutine that finds its entry gone ends the node. -/
theorem badAssertion_of_notMem (hp : p.BetweenReads env md5) (hrunning : s.node.running = true)
    (hmem : md5 ∉ s.indexed) (hashKey : String → BitVec 32) (o : ServerInput F) :
    (p.step env hashKey o s).1.badAssertion = some md5 := by
  rw [step_of_running hrunning]
  cases p with
  | intake p =>
    cases p with
    | get item rest =>
      obtain rfl : checksum env item = md5 := hp
      unfold act Intake.step
      dsimp only
      rw [AList.lookup_eq_none.mpr hmem]
    | _ => exact hp.elim
  | _ => exact hp.elim

end Goroutine

/-- **No `RemoveItem` comes between the two reads**: when `RemoveItem` takes a counter out of
`IndexedItemCache`, no `ReceiveItem` of that counter is between `ContainsKey` and `Get`. -/
def NotBetween (env : NodeEnv) (c : Config ι (Server F) (Goroutine F))
    (m : ι × ServerInput F) : Prop :=
  c.shared.node.running = true → ∀ item, c.agent m.1 = .removal (.indexed item) →
    ∀ j, ¬ (c.agent j).BetweenReads env (checksum env item)

/-- Nothing has failed, and every entry that is about to be read is there. -/
structure Readable (env : NodeEnv) (c : Config ι (Server F) (Goroutine F)) : Prop where
  ok : c.shared.badAssertion = none
  mem : c.shared.node.running = true →
    ∀ j md5, (c.agent j).BetweenReads env md5 → md5 ∈ c.shared.indexed

variable {c : Config ι (Server F) (Goroutine F)}

section Readable

variable {env : NodeEnv} {hashKey : String → BitVec 32} {m : ι × ServerInput F}

theorem Readable.badAssertion_move (h : Readable env c) (m : ι × ServerInput F) :
    (move (Goroutine.step env hashKey) c m).shared.badAssertion = none := by
  rw [shared_move]
  rcases Goroutine.badAssertion_step env hashKey m.2 c.shared (c.agent m.1) with
    heq | ⟨md5, hbetween, hrunning, hmem⟩
  · rw [heq]
    exact h.ok
  · exact absurd (h.mem hrunning m.1 md5 hbetween) hmem

theorem Readable.move (h : Readable env c) (hm : NotBetween env c m) :
    Readable env (move (Goroutine.step env hashKey) c m) := by
  refine ⟨h.badAssertion_move m, fun hrunning' j md5 hj => ?_⟩
  have hrunning : c.shared.node.running = true := Goroutine.running_of_running_step hrunning'
  -- The entry was there before the step.
  have hmem : md5 ∈ c.shared.indexed := by
    by_cases hji : j = m.1
    · subst hji
      rw [agent_move_self] at hj
      rcases Goroutine.betweenReads_step hj with hj | hmem
      · exact h.mem hrunning m.1 md5 hj
      · exact hmem
    · rw [agent_move_of_ne hji] at hj
      exact h.mem hrunning j md5 hj
  rcases Goroutine.mem_indexed_step env hashKey m.2 hmem (c.agent m.1) with
    hmem' | ⟨-, item, hremoval, rfl⟩
  · exact hmem'
  · -- A `RemoveItem` has moved, so the reader is another goroutine, and was there before.
    have hji : j ≠ m.1 := by
      rintro rfl
      rw [agent_move_self, hremoval, Goroutine.step_of_running hrunning] at hj
      exact hj
    rw [agent_move_of_ne hji] at hj
    exact absurd hj (hm hrunning item hremoval j)

/-- A `RemoveItem` between the two reads leaves a goroutine that is about to fail. -/
theorem notBetween_of_move
    (h : ∀ m', (Machine.move (Goroutine.step env hashKey)
      (Machine.move (Goroutine.step env hashKey) c m) m').shared.badAssertion = none)
    :
    NotBetween env c m := by
  intro hrunning item hremoval j hj
  have hji : j ≠ m.1 := by
    rintro rfl
    rw [hremoval] at hj
    exact hj
  have hstep : Goroutine.step env hashKey m.2 c.shared (c.agent m.1) =
      Goroutine.act env hashKey m.2 c.shared (.removal (.indexed item)) := by
    rw [hremoval, Goroutine.step_of_running hrunning]
  have hgone : checksum env item ∉
      (Goroutine.step env hashKey m.2 c.shared (c.agent m.1)).1.indexed := by
    rw [hstep]
    exact fun hmem => (AList.mem_erase.mp hmem).1 rfl
  have hrunning' :
      (Goroutine.step env hashKey m.2 c.shared (c.agent m.1)).1.node.running = true := by
    rw [hstep]
    exact hrunning
  have hnone := h (j, {})
  rw [shared_move, agent_move_of_ne hji, shared_move,
    Goroutine.badAssertion_of_notMem hj hrunning' hgone] at hnone
  cases hnone

end Readable

/-- **When receiving cannot end the node.**  In no state of a run is a goroutine about to
apply a type assertion to a missing entry, exactly if no `RemoveItem` comes between the two
reads of a `ReceiveItem`. -/
theorem receive_never_panics_iff (env : NodeEnv) (hashKey : String → BitVec 32)
    {c : Config ι (Server F) (Goroutine F)} (hc : Readable env c) (ms : List (ι × ServerInput F)) :
    (∀ ms', ms' <+: ms → ∀ m, (move (Goroutine.step env hashKey)
        (run (Goroutine.step env hashKey) c ms') m).shared.badAssertion = none) ↔
      Meets (move (Goroutine.step env hashKey)) (NotBetween env) c ms :=
  forall_prefix_iff_meets
    (Q := fun c => ∀ m, (move (Goroutine.step env hashKey) c m).shared.badAssertion = none)
    (fun _ h m => h.badAssertion_move m)
    (fun _ _ h => ⟨notBetween_of_move, fun hm => (h.move hm).badAssertion_move⟩)
    (fun _ _ h hm => h.move hm) hc ms

/-- Any function will do as a hash. -/
def lengthHash (key : String) : BitVec 32 :=
  BitVec.ofNat 32 key.length

/-- A point of `host/load` is received again while the counter is deleted. -/
def receiveAndDelete : Config Bool (Server Unit) (Goroutine Unit) where
  shared :=
    { node := Node.started []
      indexed := (∅ : IndexCacheBase Unit).insert loadMd5 (newIndexCacheItem (gaugeItem 60)) }
  agent
    | false => .intake (.contains (gaugeItem 120) [])
    | true => .removal (.indexed (gaugeItem 0))

theorem readable_receiveAndDelete : Readable loadEnv receiveAndDelete := by
  refine ⟨rfl, fun _ j md5 hj => ?_⟩
  cases j <;> exact hj.elim

theorem receive_never_panics_in_turn :
    Readable loadEnv receiveAndDelete ∧
      ∀ ms', ms' <+: [(false, {}), (false, {}), (true, {})] →
        ∀ m, (move (Goroutine.step loadEnv lengthHash)
          (run (Goroutine.step loadEnv lengthHash) receiveAndDelete ms') m).shared.badAssertion =
            none := by
  refine ⟨readable_receiveAndDelete,
    (receive_never_panics_iff loadEnv lengthHash readable_receiveAndDelete _).mpr
      ⟨?_, ?_, ?_, trivial⟩⟩
  · intro _ item hitem
    cases hitem
  · intro _ item hitem
    cases hitem
  · intro _ item _ j
    cases j <;> exact id

/-- The entry goes away between the two reads: the type assertion fails. -/
theorem receive_panics_crossed :
    (run (Goroutine.step loadEnv lengthHash) receiveAndDelete
      [(false, {}), (true, {}), (false, {})]).shared.badAssertion = some loadMd5 := rfl

/-! ## Index updates meanwhile -/

/-- `GetLastRaw`. -/
def Server.getLastRaw [Float64 F] (env : NodeEnv) (s : Server F) (endpoint counter : String) :
    RRDData F :=
  match s.history.getLastItem (env.md5 (endpoint ++ "/" ++ counter)) with
  | some item => ⟨item.timestamp, item.value⟩
  | none => ⟨0, Float64.ofRat 0⟩

namespace Server

theorem incrStep_eq (o : ServerInput F) (s : Server F) :
    (s.incrStep o).node = s.node ∧ (s.incrStep o).history = s.history := by
  unfold incrStep writerStep taskStep
  repeat' split
  all_goals exact ⟨rfl, rfl⟩

theorem mem_of_mem_unIndexed_incrStep {o : ServerInput F} {s : Server F} {md5 : String}
    (h : md5 ∈ (s.incrStep o).unIndexed) : md5 ∈ s.unIndexed := by
  unfold incrStep writerStep taskStep at h
  repeat' split at h
  all_goals first | exact h | exact (AList.mem_erase.mp h).2

end Server

/-- `RemoveItem` has taken the counter out of `IndexedItemCache`. -/
def Removal.IsPast : Removal F → Prop
  | indexed _ => False
  | _ => True

theorem Removal.step_of_isPast (env : NodeEnv) (o : ServerInput F) (s : Server F)
    {p : Removal F} (hp : p.IsPast) :
    (p.step env o s).1.indexed = s.indexed ∧ (p.step env o s).2.IsPast := by
  cases p with
  | indexed item => exact hp.elim
  | file item =>
    unfold step
    dsimp only
    split <;> exact ⟨rfl, trivial⟩
  | _ => exact ⟨rfl, trivial⟩

/-- What a deletion of `item` has achieved so far, and nobody else is at work but the index
update. -/
def Goroutine.Deleting (env : NodeEnv) (item : GraphItem F) (s : Server F) :
    Goroutine F → Prop
  | removal (.indexed it) => it = item
  | removal (.unIndexed it) => it = item
  | removal (.pop it) => it = item ∧ checksum env item ∉ s.unIndexed
  | removal (.file it) =>
    it = item ∧ checksum env item ∉ s.unIndexed ∧ s.node.cached (itemKey env item) = []
  | removal .done => checksum env item ∉ s.unIndexed ∧ s.node.cached (itemKey env item) = []
  | incr => True
  | _ => False

namespace Goroutine

variable {env : NodeEnv} {hashKey : String → BitVec 32} {s : Server F} {p : Goroutine F}
  {item : GraphItem F}

/-- Neither a deletion nor the index update brings anything back but into
`IndexedItemCache`. -/
theorem Deleting.gone_step (hp : p.Deleting env item s) (hashKey : String → BitVec 32)
    (o : ServerInput F) :
    (p.step env hashKey o s).1.history = s.history ∧
      (checksum env item ∉ s.unIndexed →
        checksum env item ∉ (p.step env hashKey o s).1.unIndexed) ∧
      (s.node.cached (itemKey env item) = [] →
        (p.step env hashKey o s).1.node.cached (itemKey env item) = []) := by
  by_cases hrunning : s.node.running = true
  · rw [step_of_running hrunning]
    cases p with
    | removal p =>
      cases p with
      | indexed it => exact ⟨rfl, id, id⟩
      | unIndexed it => exact ⟨rfl, fun h hmem => h (AList.mem_erase.mp hmem).2, id⟩
      | pop it =>
        refine ⟨rfl, id, fun h => (Node.cached_popAll s.node _ _).trans ?_⟩
        rw [h, ite_self]
      | file it =>
        unfold act Removal.step
        dsimp only
        split <;> exact ⟨rfl, id, id⟩
      | done => exact ⟨rfl, id, id⟩
    | incr =>
      obtain ⟨hnode, hhistory⟩ := s.incrStep_eq o
      refine ⟨hhistory, fun h hmem => h (Server.mem_of_mem_unIndexed_incrStep hmem), fun h => ?_⟩
      show (s.incrStep o).node.cached _ = []
      rw [hnode]
      exact h
    | _ => exact hp.elim
  · rw [step_of_not_running hrunning]
    exact ⟨rfl, id, id⟩

theorem Deleting.own (hp : p.Deleting env item s) (o : ServerInput F) :
    (p.step env hashKey o s).2.Deleting env item (p.step env hashKey o s).1 := by
  by_cases hrunning : s.node.running = true
  · rw [step_of_running hrunning]
    cases p with
    | removal p =>
      cases p with
      | indexed it => exact hp
      | unIndexed it =>
        obtain rfl : it = item := hp
        exact ⟨rfl, fun hmem => (AList.mem_erase.mp hmem).1 rfl⟩
      | pop it =>
        obtain ⟨rfl, hgone⟩ := hp
        exact ⟨rfl, hgone, (Node.cached_popAll s.node _ _).trans (if_pos rfl)⟩
      | file it =>
        obtain ⟨rfl, hgone, hempty⟩ := hp
        unfold act Removal.step
        dsimp only
        split
        · exact ⟨rfl, hgone, hempty⟩
        · exact ⟨hgone, hempty⟩
      | done => exact hp
    | incr => trivial
    | _ => exact hp.elim
  · rw [step_of_not_running hrunning]
    exact hp

theorem Deleting.other {q : Goroutine F} (hp : p.Deleting env item s)
    (hq : q.Deleting env item s) (o : ServerInput F) :
    q.Deleting env item (p.step env hashKey o s).1 := by
  obtain ⟨-, hunIndexed, hcached⟩ := hp.gone_step hashKey o
  cases q with
  | removal q =>
    cases q with
    | indexed it => exact hq
    | unIndexed it => exact hq
    | pop it => exact ⟨hq.1, hunIndexed hq.2⟩
    | file it => exact ⟨hq.1, hunIndexed hq.2.1, hcached hq.2.2⟩
    | done => exact ⟨hunIndexed hq.1, hcached hq.2⟩
  | incr => trivial
  | _ => exact hq.elim

/-- **A deletion keeps what it has achieved.** -/
theorem stable_deleting (env : NodeEnv) (hashKey : String → BitVec 32) (item : GraphItem F)
    (history : HistoryCache F) :
    Stable (step env hashKey) (fun _ _ _ => True) (fun s => s.history = history)
      (Deleting env item) :=
  ⟨fun o _ _ _ hs hp => (hp.gone_step hashKey o).1.trans hs, fun o _ _ _ _ hp => hp.own o,
    fun o _ _ _ _ _ hp hq => hp.other hq o⟩

end Goroutine

/-- **No `Put` comes after the `Remove`**: a goroutine of the index update puts the counter
into `IndexedItemCache` only as long as the `RemoveItem` of the goroutine `r` has not taken
it out of there. -/
def NoLatePut (r : ι) (md5 : String) (c : Config ι (Server F) (Goroutine F))
    (m : ι × ServerInput F) : Prop :=
  c.shared.node.running = true → c.agent m.1 = .incr → c.shared.puts m.2 = some md5 →
    ∃ item, c.agent r = .removal (.indexed item)

section Late

variable {env : NodeEnv} {hashKey : String → BitVec 32} {r : ι} {p : Removal F}

theorem incr_move (h : ∀ j, j ≠ r → c.agent j = .incr) (m : ι × ServerInput F) {j : ι}
    (hj : j ≠ r) : (move (Goroutine.step env hashKey) c m).agent j = .incr := by
  by_cases hjm : j = m.1
  · subst hjm
    rw [agent_move_self, h m.1 hj]
    unfold Goroutine.step
    split <;> rfl
  · rw [agent_move_of_ne hjm]
    exact h j hj

theorem exists_isPast_move (hr : c.agent r = .removal p) (hp : p.IsPast) (m : ι × ServerInput F) :
    ∃ p', (move (Goroutine.step env hashKey) c m).agent r = .removal p' ∧ p'.IsPast := by
  by_cases hrm : r = m.1
  · subst hrm
    rw [agent_move_self, hr]
    unfold Goroutine.step
    split
    · exact ⟨_, rfl, (p.step_of_isPast env m.2 c.shared hp).2⟩
    · exact ⟨p, rfl, hp⟩
  · rw [agent_move_of_ne hrm]
    exact ⟨p, hr, hp⟩

/-- After the `Remove` only a `Put` brings the counter back. -/
theorem mem_indexed_move_of_isPast (h : ∀ j, j ≠ r → c.agent j = .incr)
    (hr : c.agent r = .removal p) (hp : p.IsPast) (md5 : String) (m : ι × ServerInput F) :
    md5 ∈ (move (Goroutine.step env hashKey) c m).shared.indexed ↔
      md5 ∈ c.shared.indexed ∨ ¬ NoLatePut r md5 c m := by
  have hlate : ¬ ∃ item, c.agent r = .removal (.indexed item) := by
    rintro ⟨item, heq⟩
    rw [hr] at heq
    cases heq
    exact hp
  have hno : ¬ NoLatePut r md5 c m ↔
      c.shared.node.running = true ∧ c.agent m.1 = .incr ∧ c.shared.puts m.2 = some md5 := by
    unfold NoLatePut
    constructor
    · intro hnot
      by_contra hnever
      exact hnot fun hrunning hincr hputs => absurd ⟨hrunning, hincr, hputs⟩ hnever
    · rintro ⟨hrunning, hincr, hputs⟩ hno
      exact hlate (hno hrunning hincr hputs)
  rw [hno, shared_move]
  by_cases hrunning : c.shared.node.running = true
  · rw [Goroutine.step_of_running hrunning]
    by_cases hmr : m.1 = r
    · rw [hmr, hr]
      refine Iff.trans ?_ (or_iff_left (by simp)).symm
      show md5 ∈ (p.step env m.2 c.shared).1.indexed ↔ _
      rw [(p.step_of_isPast env m.2 c.shared hp).1]
    · rw [h m.1 hmr]
      simp only [hrunning, true_and]
      exact c.shared.mem_indexed_incrStep m.2 md5
  · rw [Goroutine.step_of_not_running hrunning]
    exact (or_iff_left fun h => hrunning h.1).symm

theorem mem_indexed_run_of_isPast (h : ∀ j, j ≠ r → c.agent j = .incr) (hr : c.agent r = .removal p)
    (hp : p.IsPast) (md5 : String) (ms : List (ι × ServerInput F)) :
    md5 ∈ (run (Goroutine.step env hashKey) c ms).shared.indexed ↔
      md5 ∈ c.shared.indexed ∨
        ¬ Meets (move (Goroutine.step env hashKey)) (NoLatePut r md5) c ms := by
  induction ms generalizing c p with
  | nil =>
    rw [run_nil]
    simp [Meets]
  | cons m ms ih =>
    obtain ⟨p', hr', hp'⟩ := exists_isPast_move hr hp m
    rw [run_cons, ih (fun j hj => incr_move h m hj) hr' hp', mem_indexed_move_of_isPast h hr hp,
      or_assoc, ← not_and_or]
    rfl

/-- **What the `Put`s leave of a deletion.** -/
theorem notMem_indexed_run_iff (h : ∀ j, j ≠ r → c.agent j = .incr) {item : GraphItem F}
    (hr : c.agent r = .removal (.indexed item)) {ms : List (ι × ServerInput F)}
    (hdone : (run (Goroutine.step env hashKey) c ms).agent r = .removal .done) :
    checksum env item ∉ (run (Goroutine.step env hashKey) c ms).shared.indexed ↔
      Meets (move (Goroutine.step env hashKey)) (NoLatePut r (checksum env item)) c ms := by
  induction ms generalizing c with
  | nil =>
    rw [run_nil, hr] at hdone
    cases hdone
  | cons m ms ih =>
    have hG : NoLatePut r (checksum env item) c m := fun _ _ _ => ⟨item, hr⟩
    rw [run_cons] at hdone ⊢
    refine Iff.trans ?_ (and_iff_right hG).symm
    by_cases hmove : m.1 = r ∧ c.shared.node.running = true
    · -- The `Remove` itself.
      obtain ⟨hmr, hrunning⟩ := hmove
      have hstep : Goroutine.step env hashKey m.2 c.shared (c.agent m.1) =
          Goroutine.act env hashKey m.2 c.shared (.removal (.indexed item)) := by
        rw [hmr, hr, Goroutine.step_of_running hrunning]
      have hr' : (move (Goroutine.step env hashKey) c m).agent r =
          .removal (.unIndexed item) := by
        subst hmr
        rw [agent_move_self, hstep]
        rfl
      have hgone : checksum env item ∉
          (move (Goroutine.step env hashKey) c m).shared.indexed := by
        rw [shared_move, hstep]
        exact fun hmem => (AList.mem_erase.mp hmem).1 rfl
      rw [mem_indexed_run_of_isPast (fun j hj => incr_move h m hj) hr' trivial, not_or, not_not]
      exact and_iff_right hgone
    · -- The deletion has not begun.
      have hr' : (move (Goroutine.step env hashKey) c m).agent r =
          .removal (.indexed item) := by
        by_cases hmr : r = m.1
        · subst hmr
          rw [agent_move_self, Goroutine.step_of_not_running fun hrunning => hmove ⟨rfl, hrunning⟩]
          exact hr
        · rw [agent_move_of_ne hmr]
          exact hr
      exact ih (fun j hj => incr_move h m hj) hr' hdone

end Late

/-- Nothing is left of the counter of an item: it is in neither cache of the index, no point
of it is cached, and `GetLastRaw` returns the time 0. -/
structure Server.IsDeleted [Float64 F] (env : NodeEnv) (item : GraphItem F) (s : Server F) :
    Prop where
  indexed : checksum env item ∉ s.indexed
  unIndexed : checksum env item ∉ s.unIndexed
  cached : s.node.cached (itemKey env item) = []
  last : (s.getLastRaw env item.endpoint (counter item.metric item.tags)).timestamp = 0

/-- **When a deletion is final.**  A `RemoveItem` runs together with the index update, whose
goroutines may have the entry of the counter already, and no item is received.  Once it is
done, nothing is left of the counter exactly if `GetLastRaw` returned the time 0 before and no
goroutine of the index update has put the counter into `IndexedItemCache` after the
`Remove`. -/
theorem deletion_final_iff [Float64 F] (env : NodeEnv) (hashKey : String → BitVec 32)
    {c : Config ι (Server F) (Goroutine F)} {r : ι} {item : GraphItem F}
    (hr : c.agent r = .removal (.indexed item)) (hothers : ∀ j, j ≠ r → c.agent j = .incr)
    {ms : List (ι × ServerInput F)}
    (hdone : (run (Goroutine.step env hashKey) c ms).agent r = .removal .done) :
    (run (Goroutine.step env hashKey) c ms).shared.IsDeleted env item ↔
      (c.shared.getLastRaw env item.endpoint (counter item.metric item.tags)).timestamp = 0 ∧
        Meets (move (Goroutine.step env hashKey)) (NoLatePut r (checksum env item)) c ms := by
  have hstart : Everywhere (fun s => s.history = c.shared.history)
      (Goroutine.Deleting env item) c := by
    refine ⟨rfl, fun j => ?_⟩
    by_cases hj : j = r
    · rw [hj, hr]
      rfl
    · rw [hothers j hj]
      trivial
  have hend := hstart.run (Goroutine.stable_deleting env hashKey item _)
    (along_of_forall (fun _ _ _ => trivial) c ms)
  have hgone := hend.agent r
  rw [hdone] at hgone
  have hlast : ((run (Goroutine.step env hashKey) c ms).shared.getLastRaw env item.endpoint
      (counter item.metric item.tags)) =
      c.shared.getLastRaw env item.endpoint (counter item.metric item.tags) := by
    unfold Server.getLastRaw
    rw [hend.shared]
  have hindexed := notMem_indexed_run_iff hothers hr hdone
  constructor
  · intro h
    exact ⟨hlast ▸ h.last, hindexed.mp h.indexed⟩
  · rintro ⟨hzero, hmeets⟩
    exact ⟨hindexed.mpr hmeets, hgone.1, hgone.2, hlast.symm ▸ hzero⟩

/-- A point of `host/load`. -/
def loadItem (timestamp : Int) : GraphItem QFloat where
  endpoint := "host"
  metric := "load"
  tags := ∅
  value := .num 1
  timestamp := timestamp
  dsType := GAUGE
  step := 60
  heartbeat := 120
  min := "U"
  max := "U"

/-- The counter `host/load` is deleted while a goroutine of the index update has its entry. -/
def deleteAndIndex (history : HistoryCache QFloat) :
    Config Bool (Server QFloat) (Goroutine QFloat) where
  shared :=
    { node := Node.started []
      history := history
      writers := [.write loadMd5 (newIndexCacheItem (loadItem 60))] }
  agent
    | false => .removal (.indexed (loadItem 0))
    | true => .incr

/-- A step of the first goroutine of the index update. -/
def firstWriter : Bool × ServerInput QFloat :=
  (true, { writer := some 0 })

/-- A step of the deletion. -/
def deletion : Bool × ServerInput QFloat :=
  (false, {})

theorem deletion_final_put_first :
    (run (Goroutine.step loadEnv lengthHash) (deleteAndIndex ∅)
        [firstWriter, firstWriter, deletion, deletion, deletion, deletion]).agent false =
      .removal .done ∧
      (run (Goroutine.step loadEnv lengthHash) (deleteAndIndex ∅)
        [firstWriter, firstWriter, deletion, deletion, deletion, deletion]).shared.IsDeleted
          loadEnv (loadItem 0) := by
  have hothers : ∀ j, j ≠ false → (deleteAndIndex ∅).agent j = .incr := by
    intro j hj
    cases j
    · exact absurd rfl hj
    · rfl
  have hdone : (run (Goroutine.step loadEnv lengthHash) (deleteAndIndex ∅)
      [firstWriter, firstWriter, deletion, deletion, deletion, deletion]).agent false =
        .removal .done := rfl
  refine ⟨hdone, (deletion_final_iff loadEnv lengthHash rfl hothers hdone).mpr
    ⟨rfl, ?_, ?_, ?_, ?_, ?_, ?_, trivial⟩⟩
  · exact fun _ _ _ => ⟨_, rfl⟩
  · exact fun _ _ _ => ⟨_, rfl⟩
  all_goals
    intro _ hincr
    cases hincr

/-- The goroutine puts the entry back after the deletion, and the last point is there as
before. -/
theorem deletion_not_final :
    let c := deleteAndIndex ((∅ : HistoryCache QFloat).insert loadMd5 [loadItem 60])
    let d := run (Goroutine.step loadEnv lengthHash) c
      [deletion, deletion, deletion, deletion, firstWriter, firstWriter]
    d.agent false = .removal .done ∧ d.shared.writers = [] ∧ loadMd5 ∈ d.shared.indexed ∧
      (d.shared.getLastRaw loadEnv "host" "load").timestamp = 60 := by
  refine ⟨rfl, rfl, ?_, rfl⟩
  exact AList.lookup_isSome.mp rfl

end OpenFalcon.Graph
