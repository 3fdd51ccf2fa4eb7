import OpenFalcon.Graph.Migrate

/-!
# Receiving points

`handleItems` of `api/graph.go`, in the company it has in a running node: every call of
`Graph.Send` starts another goroutine that runs it, `FlushRRD` and `GetRrd` take the cached
points to the disk, and the workers of the migration send them to another node or put them
back.  All of them work on the same cache, one operation at a time.

`Query` and the RRD library want the cached points of a series newest first, without
repetition.  `handleItems` looks at the newest point and then pushes, in two steps, and
`send_data` puts back what it popped behind whatever has come in the meantime; so the order
holds as long as no step of either kind comes too late (`ordered_iff_along`), and not
longer.
-/

namespace OpenFalcon.Graph

open Machine Order Common

variable {F : Type}

/-! ## The goroutines of a node -/

/-- What a node reads besides its state. -/
structure NodeEnv where
  cfg : GlobalConfig
  md5 : String → String
  /-- `unicode.IsPrint`. -/
  isPrint : Char → Bool

/-- `g.IsValidString`. -/
def isValidString (isPrint : Char → Bool) (str : String) : Bool :=
  str.toList.all fun t =>
    t != '\r' && t != '\n' && t != '\x27' && t != '\x22' && t != '>' && t != '\x1a' && isPrint t

/-- `GraphItem.Checksum`. -/
def checksum (env : NodeEnv) (item : GraphItem F) : String :=
  env.md5 (pk item.endpoint item.metric item.tags)

/-- The cache key of an item. -/
def itemKey (env : NodeEnv) (item : GraphItem F) : String :=
  formRrdCacheKey (checksum env item) item.dsType item.step

/-- The program points of `handleItems`. -/
inductive Handler (F : Type) where
  | idle
  /-- At the head of the loop, with the items that are left. -/
  | next (items : List (Option (GraphItem F)))
  /-- Before `PushFront` of an item. -/
  | push (item : GraphItem F) (rest : List (Option (GraphItem F)))

/-- A goroutine that works on the cache. -/
inductive Agent (F : Type) where
  | handler (h : Handler F)
  | worker (w : Worker F)
  /-- `FlushRRD` or `GetRrd`, at the program points of `CommitByKey`. -/
  | flusher (w : Worker F)

/-- What the goroutines do not decide themselves. -/
structure Input (F : Type) extends Outside F where
  /-- The argument of a call of `Graph.Send`. -/
  batch : Option (List (Option (GraphItem F))) := none
  /-- The key that is flushed. -/
  flushKey : Option String := none

namespace Node

/-- `First` on the cache of the node. -/
def first (s : Node F) (key : String) : Option (GraphItem F) :=
  GraphItemMap.first s.graphItems key

/-- `PushFront` on the cache of the node. -/
def pushFront (env : NodeEnv) (s : Node F) (item : GraphItem F) : Node F :=
  let filename := rrdFileName env.cfg.storage (checksum env item) item.dsType item.step
  { s with
    graphItems := GraphItemMap.pushFront s.graphItems (itemKey env item) item
      env.cfg.migrateEnabled (isRrdFileExist s.files filename) }

end Node

/-- One atomic step of `handleItems`. -/
def Handler.step (env : NodeEnv) (o : Input F) (s : Node F) : Handler F → Node F × Handler F
  | idle =>
    match o.batch with
    | some items => (s, next items)
    | none => (s, idle)
  | next [] => (s, idle)
  | next (none :: rest) => (s, next rest)
  | next (some item :: rest) =>
    if !isValidString env.isPrint item.endpoint then (s, next rest)
    else if !isValidString env.isPrint (counter item.metric item.tags) then (s, next rest)
    else
      match s.first (itemKey env item) with
      | some first =>
        if item.timestamp ≤ first.timestamp then (s, next rest) else (s, push item rest)
      | none => (s, push item rest)
  | push item rest => (s.pushFront env item, next rest)

/-- One atomic step of `FlushRRD` or `GetRrd`. -/
def Worker.flushStep (cfg : GlobalConfig) (o : Input F) (s : Node F) (w : Worker F) :
    Node F × Worker F :=
  match w, o.flushKey with
  | idle, some key => (s, commitPop key)
  | w, _ => w.step cfg { o.toOutside with task := none } s

/-- One atomic step of a goroutine. -/
def Agent.step (env : NodeEnv) (o : Input F) (s : Node F) : Agent F → Node F × Agent F
  | handler h =>
    if s.running then
      let r := h.step env o s
      (r.1, handler r.2)
    else (s, handler h)
  | worker w =>
    let r := w.step env.cfg o.toOutside s
    (r.1, worker r.2)
  | flusher w =>
    let r := w.flushStep env.cfg o s
    (r.1, flusher r.2)

/-- The goroutine waits for work. -/
def Agent.Idle : Agent F → Prop
  | handler h => h = .idle
  | worker w => w = .idle
  | flusher w => w = .idle

/-! ## The order of the cached points -/

namespace Node

/-- The cached points of every key are newest first. -/
def Ordered (s : Node F) : Prop :=
  ∀ key sl, s.graphItems.lookup key = some sl → NewestFirst GraphItem.timestamp sl.l

/-- Every cached point of the key is newer than the given ones. -/
def NewerThan (s : Node F) (key : String) (items : List (GraphItem F)) : Prop :=
  ∀ sl, s.graphItems.lookup key = some sl →
    ∀ a ∈ sl.l, ∀ b ∈ items, b.timestamp < a.timestamp

variable {s : Node F}

/-- An operation on one list keeps the order exactly if it keeps the order of that list. -/
theorem ordered_modify (hs : s.Ordered) (k : String) (f : SafeLinkedList F → SafeLinkedList F) :
    Ordered { s with graphItems := GraphItemMap.modify s.graphItems k f } ↔
      ∀ sl, s.graphItems.lookup k = some sl → NewestFirst GraphItem.timestamp (f sl).l := by
  constructor
  · intro h sl hsl
    refine h k (f sl) ?_
    rw [GraphItemMap.lookup_modify, if_pos rfl, hsl, Option.map_some]
  · intro h key sl hsl
    rw [GraphItemMap.lookup_modify] at hsl
    split at hsl
    · rename_i hk
      subst hk
      obtain ⟨sl', hsl', rfl⟩ := Option.map_eq_some_iff.mp hsl
      exact h sl' hsl'
    · exact hs key sl hsl

theorem Ordered.setFlag (hs : s.Ordered) (k : String) (f : Flag) : (s.setFlag k f).Ordered :=
  (ordered_modify hs k _).mpr fun sl hsl => hs k sl hsl

theorem Ordered.popAll (hs : s.Ordered) (k : String) : (s.popAll k).2.Ordered :=
  (ordered_modify hs k _).mpr fun _ _ => newestFirst_nil

theorem Ordered.newestFirst_popAll (hs : s.Ordered) (k : String) :
    NewestFirst GraphItem.timestamp (s.popAll k).1.reverse := by
  unfold Node.popAll GraphItemMap.popAll GraphItemMap.items
  dsimp only
  split
  · rename_i sl hsl
    rw [SafeLinkedList.fetchAll, List.reverse_reverse]
    exact hs k sl hsl
  · exact newestFirst_nil

/-- **Points that are put back must be older than the cached ones.** -/
theorem ordered_pushAll_iff (hs : s.Ordered) (k : String) {items : List (GraphItem F)}
    (hitems : NewestFirst GraphItem.timestamp items.reverse) :
    (s.pushAll k items).Ordered ↔ s.NewerThan k items := by
  refine (ordered_modify hs k _).trans (forall₂_congr fun sl hsl => ?_)
  rw [SafeLinkedList.l_pushAll, newestFirst_append]
  simp only [hs k sl hsl, hitems, true_and, List.mem_reverse]

/-- **A point that is pushed must be newer than the newest.** -/
theorem ordered_pushFront_iff (hs : s.Ordered) (env : NodeEnv) (item : GraphItem F) :
    (s.pushFront env item).Ordered ↔
      ∀ first, s.first (itemKey env item) = some first → first.timestamp < item.timestamp := by
  have hfirst : ∀ sl, s.graphItems.lookup (itemKey env item) = some sl →
      s.first (itemKey env item) = sl.l.head? := by
    intro sl hsl
    unfold Node.first GraphItemMap.first
    rw [hsl]
    rfl
  constructor
  · intro h first hf
    cases hsl : s.graphItems.lookup (itemKey env item) with
    | none =>
      unfold Node.first GraphItemMap.first at hf
      rw [hsl] at hf
      cases hf
    | some sl =>
      have hpushed : NewestFirst GraphItem.timestamp (item :: sl.l) := by
        refine h (itemKey env item) (sl.pushFront item) ?_
        unfold Node.pushFront
        rw [GraphItemMap.lookup_pushFront, if_pos rfl, hsl]
        rfl
      rw [hfirst sl hsl] at hf
      exact (newestFirst_cons.mp hpushed).1 first (List.mem_of_mem_head? hf)
  · intro h key sl hsl
    unfold Node.pushFront at hsl
    rw [GraphItemMap.lookup_pushFront] at hsl
    split at hsl
    · rename_i hk
      subst hk
      cases hold : s.graphItems.lookup (itemKey env item) with
      | none =>
        rw [hold] at hsl
        cases hsl
        exact newestFirst_singleton item
      | some old =>
        rw [hold] at hsl
        cases hsl
        refine newestFirst_cons_of_head? (hs _ old hold) fun b hb => h b ?_
        rw [hfirst old hold, hb]
    · exact hs key sl hsl

end Node

namespace Worker

/-- The points a worker holds are in order. -/
def Held : Worker F → Prop
  | sendCall _ _ items _ => NewestFirst GraphItem.timestamp items.reverse
  | sendRestore _ _ items => NewestFirst GraphItem.timestamp items.reverse
  | _ => True

/-- The worker does not put points back behind younger ones. -/
def InOrder (s : Node F) : Worker F → Prop
  | sendRestore key _ items => s.running = true → s.NewerThan key items
  | _ => True

variable {cfg : GlobalConfig} {o : Outside F} {s s' : Node F} {w w' : Worker F}

theorem Move.held (h : Move cfg o s w s' w') (hs : s.Ordered) (hw : w.Held) : w'.Held := by
  cases h with
  | stopped => exact hw
  | sendTake k f => exact hs.newestFirst_popAll k
  | sendAgain k f items i => exact hw
  | sendFail k f items i => exact hw
  | _ => trivial

/-- **The order survives a step of a worker exactly if the step is in order.** -/
theorem Move.ordered_iff (h : Move cfg o s w s' w') (hs : s.Ordered) (hw : w.Held) :
    s'.Ordered ↔ w.InOrder s := by
  cases h with
  | stopped w hstopped =>
    refine iff_of_true hs ?_
    cases w with
    | sendRestore k f items =>
      intro hrunning
      rw [hstopped] at hrunning
      cases hrunning
    | _ => trivial
  | restore hrunning k f items =>
    exact (Node.ordered_pushAll_iff hs k hw).trans ⟨fun h _ => h, fun h => h hrunning⟩
  | sendMark k f => exact iff_of_true (hs.setFlag k _) trivial
  | sendEnd k f => exact iff_of_true (hs.setFlag k _) trivial
  | fetchPanic k f => exact iff_of_true (hs.setFlag k _) trivial
  | fetchMark k f => exact iff_of_true (hs.setFlag k _) trivial
  | fetchEnd k f err => exact iff_of_true (hs.setFlag k _) trivial
  | fetchNotExist k f err _ => exact iff_of_true (hs.setFlag k _) trivial
  | clear k => exact iff_of_true (hs.setFlag k _) trivial
  | sendEmpty k f => exact iff_of_true (hs.popAll k) trivial
  | sendTake k f => exact iff_of_true (hs.popAll k) trivial
  | commitEmpty k => exact iff_of_true (hs.popAll k) trivial
  | commitTake k => exact iff_of_true (hs.popAll k) trivial
  | _ => exact iff_of_true hs trivial

end Worker

namespace Agent

/-- The points a goroutine holds are in order. -/
def Held : Agent F → Prop
  | handler _ => True
  | worker w => w.Held
  | flusher w => w.Held

/-- The goroutine does not push a point behind its time, nor put points back behind
younger ones. -/
def InOrder (env : NodeEnv) (_ : Input F) (s : Node F) : Agent F → Prop
  | handler (.push item _) =>
    s.running = true →
      ∀ first, s.first (itemKey env item) = some first → first.timestamp < item.timestamp
  | handler _ => True
  | worker w => w.InOrder s
  | flusher w => w.InOrder s

variable {a : Agent F} {s : Node F} (env : NodeEnv)

theorem held_step (o : Input F) (hs : s.Ordered) (ha : a.Held) : (step env o s a).2.Held := by
  cases a with
  | handler h =>
    show Held (if s.running then _ else _ : Node F × Agent F).2
    split <;> trivial
  | worker w => exact (Worker.move_step env.cfg o.toOutside s w).held hs ha
  | flusher w =>
    show (w.flushStep env.cfg o s).2.Held
    unfold Worker.flushStep
    split
    · trivial
    · exact (Worker.move_step env.cfg _ s _).held hs ha

theorem fst_handlerStep (o : Input F) (s : Node F) {h : Handler F}
    (hpush : ∀ item rest, h ≠ .push item rest) : (h.step env o s).1 = s := by
  unfold Handler.step
  split
  · split <;> rfl
  · rfl
  · rfl
  · split
    · rfl
    · split
      · rfl
      · split
        · split <;> rfl
        · rfl
  · exact absurd rfl (hpush _ _)

/-- **The order survives a step exactly if the step is in order.** -/
theorem ordered_step_iff (o : Input F) (hs : s.Ordered) (ha : a.Held) :
    (step env o s a).1.Ordered ↔ a.InOrder env o s := by
  cases a with
  | handler h =>
    unfold step
    dsimp only
    by_cases hrunning : s.running = true
    · rw [if_pos hrunning]
      cases h with
      | push item rest =>
        exact (Node.ordered_pushFront_iff hs env item).trans
          ⟨fun h _ => h, fun h => h hrunning⟩
      | idle =>
        rw [fst_handlerStep env o s fun _ _ h => by cases h]
        exact iff_of_true hs trivial
      | next items =>
        rw [fst_handlerStep env o s fun _ _ h => by cases h]
        exact iff_of_true hs trivial
    · rw [if_neg hrunning]
      refine iff_of_true hs ?_
      cases h with
      | push item rest => exact fun h => absurd h hrunning
      | _ => trivial
  | worker w => exact (Worker.move_step env.cfg o.toOutside s w).ordered_iff hs ha
  | flusher w =>
    show (w.flushStep env.cfg o s).1.Ordered ↔ w.InOrder s
    unfold Worker.flushStep
    split
    · exact iff_of_true hs trivial
    · exact (Worker.move_step env.cfg _ s _).ordered_iff hs ha

end Agent

/-- **The cached points are in order in every state of a run exactly if every step of it is
in order**: a point is pushed only while it is newer than the newest cached one, and points
are put back only while the cached ones are newer. -/
theorem ordered_iff_along {ι : Type} [DecidableEq ι] (env : NodeEnv)
    {c : Config ι (Node F) (Agent F)} (hidle : ∀ i, (c.agent i).Idle)
    (hordered : c.shared.Ordered) (ms : List (ι × Input F)) :
    (∀ ms', ms' <+: ms → (run (Agent.step env) c ms').shared.Ordered) ↔
      Along (Agent.step env) (Agent.InOrder env) c ms := by
  have hstart : Everywhere Node.Ordered (fun _ a => a.Held) c := by
    refine ⟨hordered, fun i => ?_⟩
    have hi := hidle i
    cases hagent : c.agent i with
    | handler h => trivial
    | worker w =>
      rw [hagent] at hi
      cases hi
      trivial
    | flusher w =>
      rw [hagent] at hi
      cases hi
      trivial
  exact hstart.forall_prefix_iff_along (fun o _ _ => Agent.ordered_step_iff env o)
    (fun o _ _ => Agent.held_step env o) (fun _ _ _ _ _ _ hq => hq) ms

/-- One checksum and no character that cannot be printed. -/
def sampleEnv : NodeEnv where
  cfg := dataConfig
  md5 := fun _ => "ab"
  isPrint := fun _ => true

/-- Two calls of `Graph.Send` reach a node that has no point of the series. -/
def twoHandlers : Config Bool (Node Unit) (Agent Unit) where
  shared := { graphItems := ∅, files := [] }
  agent := fun _ => .handler .idle

def receive (timestamp : Int) : Input Unit :=
  { batch := some [some (gaugeItem timestamp)] }

/-- The first call is over before the second begins. -/
def oneAfterTheOther : List (Bool × Input Unit) :=
  [(false, receive 60), (false, {}), (false, {}), (true, receive 120), (true, {}), (true, {})]

/-- Both calls look before either pushes, and the newer point is pushed first. -/
def crossed : List (Bool × Input Unit) :=
  [(false, receive 60), (true, receive 120), (false, {}), (true, {}), (true, {}), (false, {})]

theorem ordered_twoHandlers : twoHandlers.shared.Ordered := by
  intro key sl hsl
  cases hsl

theorem ordered_one_after_the_other :
    twoHandlers.shared.Ordered ∧ ∀ ms', ms' <+: oneAfterTheOther →
      (run (Agent.step sampleEnv) twoHandlers ms').shared.Ordered := by
  refine ⟨ordered_twoHandlers,
    (ordered_iff_along (c := twoHandlers) sampleEnv (fun _ => rfl) ordered_twoHandlers
      oneAfterTheOther).mpr ?_⟩
  refine ⟨trivial, trivial, ?_, trivial, trivial, ?_, trivial⟩
  · rintro - first ⟨⟩
  · rintro - first ⟨⟩
    decide

/-- The older point ends up in front. -/
theorem crossed_not_ordered :
    ¬ (run (Agent.step sampleEnv) twoHandlers crossed).shared.Ordered := by
  intro h
  have hlist := h "ab_GAUGE_60" ⟨GRAPH_F_MISS, [gaugeItem 60, gaugeItem 120]⟩ rfl
  exact absurd hlist (by decide)

end OpenFalcon.Graph
