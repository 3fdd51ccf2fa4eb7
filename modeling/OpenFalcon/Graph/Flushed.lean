import OpenFalcon.Graph.Call
import OpenFalcon.Graph.MissFlag

/-!
# The points handed to the disk

`CommitByKey` and `GetRrd` pop the cached points of a key and hand them to `FlushFile`,
which updates the RRD file.  An RRD file takes points in the order of time only, and a point
that is not newer than its last one is refused.

`handleItems` compares a point with the newest *cached* one.  Among the points that are
flushed together that is enough, but a flush leaves nothing to compare with, and the next
point is taken whatever its time.  So what `FlushFile` sees of a key is in the order of time
as long as the first point after every flush is newer than the points flushed before
(`flushed_increasing_iff`).

When `FlushFile` fails, nobody looks at its error: the points are neither on the disk nor in
the cache any more (`failed_flush_drops`).
-/

namespace OpenFalcon.Graph

open Machine

variable {F : Type} {l : List (GraphItem F)}

/-! ## Runs of whole calls -/

/-- A call on a node, with the failure of the disk it meets. -/
inductive Call (F : Type) where
  | handleItems (items : List (Option (GraphItem F)))
  | commitByKey (key : String) (fault : FlushFault)
  | getRrd (key : String) (fault : FlushFault)

/-- Points in the order of time, without repetition. -/
def Increasing (items : List (GraphItem F)) : Prop :=
  items.Pairwise fun a b => a.timestamp < b.timestamp

instance (items : List (GraphItem F)) : Decidable (Increasing items) :=
  inferInstanceAs (Decidable (items.Pairwise fun a b => a.timestamp < b.timestamp))

theorem Increasing.of_prefix {l₁ l₂ : List (GraphItem F)} (h : Increasing l₂) (hl : l₁ <+: l₂) :
    Increasing l₁ :=
  List.Pairwise.sublist hl.sublist h

theorem increasing_append_singleton (h : Increasing l) (item : GraphItem F) :
    Increasing (l ++ [item]) ↔ ∀ b ∈ l, b.timestamp < item.timestamp := by
  unfold Increasing
  rw [List.pairwise_append]
  simp only [List.pairwise_singleton, List.mem_singleton, forall_eq, true_and]
  exact and_iff_right h

theorem Increasing.le_getLast? (h : Increasing l) {last : GraphItem F}
    (hlast : l.getLast? = some last) {b : GraphItem F} (hb : b ∈ l) :
    b.timestamp ≤ last.timestamp := by
  have hsplit : l.dropLast ++ [last] = l := List.dropLast_append_getLast? last hlast
  rw [← hsplit, List.mem_append, List.mem_singleton] at hb
  rw [← hsplit] at h
  rcases hb with hb | rfl
  · exact (((List.pairwise_append.mp h).2.2) b hb last (List.mem_singleton_self _)).le
  · exact le_rfl

namespace Node

/-- A node that has just been started. -/
def started (files : Files) : Node F where
  graphItems := ∅
  files := files

/-- One whole call.  After a panic there are no more calls. -/
def call (env : NodeEnv) (s : Node F) (c : Call F) : Node F :=
  if s.running then
    match c with
    | .handleItems items => s.handleItems env items
    | .commitByKey key fault => s.commitByKey env.cfg key fault
    | .getRrd key fault => (s.getRrd env.cfg key fault).2
  else s

/-- Whole calls, one after another. -/
def calls (env : NodeEnv) (s : Node F) (cs : List (Call F)) : Node F :=
  cs.foldl (call env) s

/-- The points of a key that were handed to `FlushFile`, in the order in which they were. -/
def flushedItems (s : Node F) (key : String) : List (GraphItem F) :=
  ((s.flushes key).reverse.map FlushCall.items).flatten

/-- The points of a key that were handed to `FlushFile`, and behind them the cached ones. -/
def timeline (s : Node F) (key : String) : List (GraphItem F) :=
  s.flushedItems key ++ s.cached key

/-! ## What the calls do to the timeline -/

theorem flushedItems_flushFile (s : Node F) (call : FlushCall F) (fault : FlushFault)
    (key : String) :
    (s.flushFile call fault).flushedItems key =
      if call.key = key then s.flushedItems key ++ call.items else s.flushedItems key := by
  unfold flushedItems flushes flushFile
  dsimp only
  split
  · rename_i hkey
    rw [List.filter_cons_of_pos (by simpa using hkey), List.reverse_cons, List.map_append,
      List.flatten_append]
    simp
  · rename_i hkey
    rw [List.filter_cons_of_neg (by simpa using hkey)]

variable {key k : String}

theorem flushedItems_commitByKey (h : Flushable key) (cfg : GlobalConfig) (s : Node F)
    (fault : FlushFault) : (s.commitByKey cfg key fault).flushedItems key = s.timeline key := by
  have hpopped : (s.popAll key).2.flushedItems key = s.flushedItems key := rfl
  rw [commitByKey_of_flushable h, fst_popAll, timeline]
  split
  · rename_i hempty
    rw [hpopped, List.isEmpty_iff.mp hempty, List.append_nil]
  · rw [flushedItems_flushFile, if_pos rfl, hpopped]

variable (cfg : GlobalConfig)

theorem flushedItems_commitByKey_of_ne (s : Node F) (hk : Flushable k → k ≠ key)
    (fault : FlushFault) : (s.commitByKey cfg k fault).flushedItems key = s.flushedItems key := by
  by_cases hflushable : Flushable k
  · rw [commitByKey_of_flushable hflushable]
    split
    · rfl
    · exact (flushedItems_flushFile ..).trans (if_neg (hk hflushable))
  · rcases commitByKey_of_not_flushable hflushable cfg s fault with h | h
    · rw [h]
    · rw [h]
      rfl

theorem cached_commitByKey (h : Flushable key) (cfg : GlobalConfig) (s : Node F)
    (fault : FlushFault) : (s.commitByKey cfg key fault).cached key = [] := by
  have hpopped : (s.popAll key).2.cached key = [] := (cached_popAll s key key).trans (if_pos rfl)
  rw [commitByKey_of_flushable h]
  split
  · exact hpopped
  · exact hpopped

theorem cached_commitByKey_of_ne (s : Node F) (hk : Flushable k → k ≠ key) (fault : FlushFault) :
    (s.commitByKey cfg k fault).cached key = s.cached key := by
  by_cases hflushable : Flushable k
  · have hpopped : (s.popAll k).2.cached key = s.cached key :=
      (cached_popAll s k key).trans (if_neg fun h => hk hflushable h.symm)
    rw [commitByKey_of_flushable hflushable]
    split
    · exact hpopped
    · exact hpopped
  · rcases commitByKey_of_not_flushable hflushable cfg s fault with h | h
    · rw [h]
    · rw [h]
      rfl

/-- **A flush moves points along the timeline.** -/
theorem timeline_commitByKey (s : Node F) (k key : String) (fault : FlushFault) :
    (s.commitByKey cfg k fault).timeline key = s.timeline key := by
  by_cases hk : Flushable k ∧ k = key
  · obtain ⟨hflushable, rfl⟩ := hk
    rw [timeline, flushedItems_commitByKey hflushable, cached_commitByKey hflushable,
      List.append_nil]
  · have hne : Flushable k → k ≠ key := fun hflushable heq => hk ⟨hflushable, heq⟩
    rw [timeline, flushedItems_commitByKey_of_ne cfg s hne, cached_commitByKey_of_ne cfg s hne]
    rfl

theorem flushedItems_handleItem (env : NodeEnv) (s : Node F) (item : Option (GraphItem F))
    (key : String) : (s.handleItem env item).flushedItems key = s.flushedItems key := by
  cases item with
  | none => rfl
  | some item =>
    rw [handleItem_some]
    split <;> rfl

theorem cached_handleItem_some (env : NodeEnv) (s : Node F) (item : GraphItem F) (key : String) :
    (s.handleItem env (some item)).cached key =
      if s.takes env item ∧ key = itemKey env item then s.cached key ++ [item]
      else s.cached key := by
  rw [handleItem_some]
  by_cases htakes : s.takes env item = true
  · rw [if_pos htakes, cached_pushFront]
    simp only [htakes, true_and]
  · rw [if_neg htakes, if_neg fun h => htakes h.1]

/-- **A point that is taken goes to the end of the timeline.** -/
theorem timeline_handleItem (env : NodeEnv) (s : Node F) (item : Option (GraphItem F))
    (key : String) : s.timeline key <+: (s.handleItem env item).timeline key := by
  cases item with
  | none => exact List.prefix_rfl
  | some item =>
    unfold timeline
    rw [flushedItems_handleItem, cached_handleItem_some, List.prefix_append_right_inj]
    split
    · exact List.prefix_append _ _
    · exact List.prefix_rfl

theorem timeline_handleItems (env : NodeEnv) (s : Node F) (items : List (Option (GraphItem F)))
    (key : String) : s.timeline key <+: (s.handleItems env items).timeline key := by
  induction items generalizing s with
  | nil => exact List.prefix_rfl
  | cons item items ih =>
    exact (timeline_handleItem env s item key).trans (ih (s.handleItem env item))

/-! ## The first point after a flush -/

/-- The first valid item of a batch that belongs to the key. -/
def firstOf (env : NodeEnv) (key : String) (items : List (Option (GraphItem F))) :
    Option (GraphItem F) :=
  items.reduceOption.find? fun item => isValidItem env item && itemKey env item == key

/-- **The first point after a flush is newer than the points flushed before**: when a batch
comes to a key without cached points, its first item of that key is newer than every point
of the key that was handed to `FlushFile`. -/
def Fresh (env : NodeEnv) (key : String) (s : Node F) : Call F → Prop
  | .handleItems items =>
    s.running = true → s.cached key = [] → ∀ item, firstOf env key items = some item →
      ∀ b ∈ s.flushedItems key, b.timestamp < item.timestamp
  | _ => True

variable {env : NodeEnv} {item : GraphItem F}

theorem firstOf_cons_of_pos (h : isValidItem env item = true ∧ itemKey env item = key)
    (items : List (Option (GraphItem F))) : firstOf env key (some item :: items) = some item := by
  unfold firstOf
  rw [List.reduceOption_cons_of_some]
  exact List.find?_cons_of_pos (by simp [h.1, h.2])

theorem firstOf_cons_of_neg (h : ¬ (isValidItem env item = true ∧ itemKey env item = key))
    (items : List (Option (GraphItem F))) :
    firstOf env key (some item :: items) = firstOf env key items := by
  unfold firstOf
  rw [List.reduceOption_cons_of_some]
  exact List.find?_cons_of_neg (by simpa using h)

/-- An item of another key, or one that is not valid, leaves the cached points alone. -/
theorem cached_handleItem_of_neg (h : ¬ (isValidItem env item = true ∧ itemKey env item = key))
    (s : Node F) : (s.handleItem env (some item)).cached key = s.cached key := by
  rw [cached_handleItem_some, if_neg]
  rintro ⟨htakes, rfl⟩
  unfold takes at htakes
  exact h ⟨(Bool.and_eq_true_iff.mp htakes).1, rfl⟩

variable {s : Node F}

/-- **When a point keeps the timeline in order.**  If points are cached, the newest of them
is the newest of all, and the comparison with it is enough.  If none is, the point is taken
anyway. -/
theorem increasing_handleItem_iff (h : Increasing (s.timeline key))
    (hitem : isValidItem env item = true ∧ itemKey env item = key) :
    Increasing ((s.handleItem env (some item)).timeline key) ↔
      (s.cached key = [] → ∀ b ∈ s.flushedItems key, b.timestamp < item.timestamp) := by
  obtain ⟨hvalid, rfl⟩ := hitem
  have htimeline : (s.handleItem env (some item)).timeline (itemKey env item) =
      if s.takes env item = true then s.timeline (itemKey env item) ++ [item]
      else s.timeline (itemKey env item) := by
    unfold timeline
    rw [flushedItems_handleItem, cached_handleItem_some]
    simp only [and_true]
    split
    · rw [List.append_assoc]
    · rfl
  have htakes : s.takes env item = (s.cached (itemKey env item)).getLast?.all
      fun first => first.timestamp < item.timestamp := by
    unfold takes
    rw [hvalid, Bool.true_and, first_eq]
  rw [htimeline]
  cases hlast : (s.cached (itemKey env item)).getLast? with
  | none =>
    have hempty : s.cached (itemKey env item) = [] := List.getLast?_eq_none_iff.mp hlast
    rw [hlast, Option.all_none] at htakes
    rw [if_pos htakes, increasing_append_singleton h, timeline, hempty, List.append_nil]
    exact ⟨fun hnew _ => hnew, fun hnew => hnew rfl⟩
  | some last =>
    rw [hlast] at htakes
    have hne : s.cached (itemKey env item) ≠ [] := by
      intro hempty
      rw [hempty] at hlast
      cases hlast
    refine iff_of_true ?_ fun hempty => absurd hempty hne
    split
    · rename_i htaken
      rw [htaken] at htakes
      have hnew : last.timestamp < item.timestamp := by simpa using htakes.symm
      have hlast' : (s.timeline (itemKey env item)).getLast? = some last := by
        unfold timeline
        rw [List.getLast?_append_of_ne_nil _ hne, hlast]
      refine (increasing_append_singleton h item).mpr fun b hb => ?_
      exact (h.le_getLast? hlast' hb).trans_lt hnew
    · exact h

/-- **A batch keeps the timeline in order exactly if its first point does.** -/
theorem increasing_handleItems_iff (h : Increasing (s.timeline key))
    (items : List (Option (GraphItem F))) :
    Increasing ((s.handleItems env items).timeline key) ↔
      (s.cached key = [] → ∀ item, firstOf env key items = some item →
        ∀ b ∈ s.flushedItems key, b.timestamp < item.timestamp) := by
  induction items generalizing s with
  | nil => exact iff_of_true h fun _ item hitem => by cases hitem
  | cons item items ih =>
    cases item with
    | none => exact ih h
    | some item =>
      by_cases hitem : isValidItem env item = true ∧ itemKey env item = key
      · have hstep := increasing_handleItem_iff h hitem
        rw [firstOf_cons_of_pos hitem]
        simp only [Option.some_inj, forall_eq']
        rw [← hstep]
        constructor
        · intro hall
          exact hall.of_prefix (timeline_handleItems env (s.handleItem env (some item)) items key)
        · intro hone
          -- From here on there are cached points, and nothing is asked any more.
          refine (ih hone).mpr fun hempty => ?_
          rw [cached_handleItem_some] at hempty
          split at hempty
          · simp at hempty
          · rename_i htakes
            refine absurd ⟨?_, hitem.2.symm⟩ htakes
            unfold takes
            rw [hitem.1, hitem.2, first_eq, hempty]
            rfl
      · have htimeline : (s.handleItem env (some item)).timeline key = s.timeline key := by
          unfold timeline
          rw [flushedItems_handleItem, cached_handleItem_of_neg hitem]
        rw [firstOf_cons_of_neg hitem, ← cached_handleItem_of_neg hitem s,
          ← flushedItems_handleItem env s (some item) key]
        exact ih (by rw [htimeline]; exact h)

/-! ## Runs -/

/-- What holds of the key while the points come in order: a key that cannot be flushed has
not been. -/
structure InTime (key : String) (s : Node F) : Prop where
  increasing : Increasing (s.timeline key)
  flushable : ¬ Flushable key → s.flushedItems key = []

/-- The points handed to `FlushFile` are in the order of time, and would be if the key were
flushed now. -/
def SeenInOrder (env : NodeEnv) (key : String) (s : Node F) : Prop :=
  Increasing (s.flushedItems key) ∧
    ∀ fault, Increasing ((s.call env (.commitByKey key fault)).flushedItems key)

theorem InTime.commitByKey (h : InTime key s) (cfg : GlobalConfig) (k : String)
    (fault : FlushFault) : InTime key (s.commitByKey cfg k fault) where
  increasing := by
    rw [timeline_commitByKey]
    exact h.increasing
  flushable hkey := by
    have hne : Flushable k → k ≠ key := fun hk heq => hkey (heq ▸ hk)
    rw [flushedItems_commitByKey_of_ne cfg s hne]
    exact h.flushable hkey

theorem InTime.seenInOrder (h : InTime key s) : SeenInOrder env key s := by
  have hflushed : ∀ s : Node F, InTime key s → Increasing (s.flushedItems key) :=
    fun s hs => hs.increasing.of_prefix (List.prefix_append _ _)
  refine ⟨hflushed s h, fun fault => hflushed _ ?_⟩
  unfold call
  split
  · exact h.commitByKey env.cfg key fault
  · exact h

theorem running_handleItems (env : NodeEnv) (s : Node F) (items : List (Option (GraphItem F))) :
    (s.handleItems env items).running = s.running := by
  induction items generalizing s with
  | nil => rfl
  | cons item items ih =>
    refine (ih (s.handleItem env item)).trans ?_
    cases item with
    | none => rfl
    | some item =>
      rw [handleItem_some]
      split <;> rfl

theorem flushedItems_handleItems (env : NodeEnv) (s : Node F)
    (items : List (Option (GraphItem F))) (key : String) :
    (s.handleItems env items).flushedItems key = s.flushedItems key := by
  induction items generalizing s with
  | nil => rfl
  | cons item items ih =>
    exact (ih (s.handleItem env item)).trans (flushedItems_handleItem env s item key)

/-- **A fresh call keeps the points in time.** -/
theorem InTime.call (h : InTime key s) {c : Call F} (hfresh : Fresh env key s c) :
    InTime key (s.call env c) := by
  unfold Node.call
  split
  · rename_i hrunning
    cases c with
    | handleItems items =>
      refine ⟨(increasing_handleItems_iff h.increasing items).mpr (hfresh hrunning), fun hkey => ?_⟩
      dsimp only
      rw [flushedItems_handleItems]
      exact h.flushable hkey
    | commitByKey k fault => exact h.commitByKey env.cfg k fault
    | getRrd k fault =>
      dsimp only
      rw [getRrd_snd]
      exact h.commitByKey env.cfg k fault
  · exact h

/-- **A call that is not fresh is seen**, at the next flush of the key. -/
theorem InTime.seenInOrder_iff (h : InTime key s) (c : Call F) :
    SeenInOrder env key (s.call env c) ↔ Fresh env key s c := by
  refine ⟨fun hseen => ?_, fun hfresh => (h.call hfresh).seenInOrder⟩
  cases c with
  | handleItems items =>
    intro hrunning
    by_cases hkey : Flushable key
    · have hcall : s.call env (.handleItems items) = s.handleItems env items := if_pos hrunning
      have hcommit : (s.handleItems env items).call env (.commitByKey key .none) =
          (s.handleItems env items).commitByKey env.cfg key .none :=
        if_pos ((running_handleItems env s items).trans hrunning)
      have hnext := hseen.2 .none
      rw [hcall, hcommit, flushedItems_commitByKey hkey] at hnext
      exact (increasing_handleItems_iff h.increasing items).mp hnext
    · intro _ item _ b hb
      rw [h.flushable hkey] at hb
      cases hb
  | commitByKey k fault => trivial
  | getRrd k fault => trivial

theorem inTime_started (key : String) (files : Files) : InTime key (started files : Node F) :=
  ⟨List.Pairwise.nil, fun _ => rfl⟩

end Node

open Node

/-- **What `FlushFile` sees of a key is in the order of time exactly if the first point after
every flush is newer than the points flushed before.**  The run is of whole calls of
`handleItems`, `CommitByKey` and `GetRrd` with any keys; what `FlushFile` sees is looked at
after each of them, and again with a flush of the key behind it. -/
theorem flushed_increasing_iff (env : NodeEnv) (key : String) (files : Files) (cs : List (Call F)) :
    (∀ cs', cs' <+: cs → SeenInOrder env key (calls env (started files) cs')) ↔
      Meets (call env) (Fresh env key) (started files) cs :=
  forall_prefix_iff_meets (fun _ hs => hs.seenInOrder) (fun _ c hs => hs.seenInOrder_iff c)
    (fun _ _ hs hfresh => hs.call hfresh) (inTime_started key files) cs

/-- Two batches with a flush behind each. -/
def flushedTwice (first second : Int) : List (Call Unit) :=
  [.handleItems [some (gaugeItem first)], .commitByKey loadKey .none,
    .handleItems [some (gaugeItem second)], .getRrd loadKey .none]

example : (calls loadEnv (started []) (flushedTwice 60 120)).flushedItems loadKey =
    [gaugeItem 60, gaugeItem 120] := rfl

/-- The older point comes when the newer one has been flushed, and is handed over behind
it. -/
theorem flushed_behind_newer :
    (calls loadEnv (started []) (flushedTwice 120 60)).flushedItems loadKey =
        [gaugeItem 120, gaugeItem 60] ∧
      ¬ Increasing ((calls loadEnv (started []) (flushedTwice 120 60)).flushedItems loadKey) := by
  have hflushed : (calls loadEnv (started []) (flushedTwice 120 60)).flushedItems loadKey =
      [gaugeItem 120, gaugeItem 60] := rfl
  refine ⟨hflushed, ?_⟩
  rw [hflushed]
  decide

/-! ## A flush that fails -/

/-- A failed flush loses nothing: if `FlushFile` returns an error, the points that were
popped for it are cached again when the call has returned, in their order. -/
def LosesNothing (cfg : GlobalConfig) (s : Node F) (key : String) (fault : FlushFault)
    (after : Node F) : Prop :=
  (flushrrd (keyFileName cfg.storage key) (s.cached key) fault s.files).1 ≠ none →
    (s.cached key).Sublist (after.cached key)

/-- **A failed flush loses every point that was popped for it**, whether `CommitByKey` or
`GetRrd` makes it. -/
theorem failed_flush_drops (cfg : GlobalConfig) (s : Node F) {key : String}
    (hkey : Flushable key) (hcached : s.cached key ≠ []) {fault : FlushFault}
    (hfail : (flushrrd (keyFileName cfg.storage key) (s.cached key) fault s.files).1 ≠ none) :
    ¬ LosesNothing cfg s key fault (s.commitByKey cfg key fault) ∧
      ¬ LosesNothing cfg s key fault (s.getRrd cfg key fault).2 := by
  have hlost : ¬ LosesNothing cfg s key fault (s.commitByKey cfg key fault) := by
    intro h
    have hback := h hfail
    rw [cached_commitByKey hkey] at hback
    exact hcached (List.sublist_nil.mp hback)
  rw [getRrd_snd]
  exact ⟨hlost, hlost⟩

/-- A node with one cached point of a series that has no file yet. -/
def onePoint : Node Unit :=
  (started []).handleItems loadEnv [some (gaugeItem 60)]

/-- The disk is full. -/
def noSpace : Err :=
  .pathError "open" (keyFileName "data" loadKey) (.other "no space left on device")

theorem failed_flush_drops_create :
    ¬ LosesNothing dataConfig onePoint loadKey (.create noSpace)
        (onePoint.commitByKey dataConfig loadKey (.create noSpace)) ∧
      ¬ LosesNothing dataConfig onePoint loadKey (.create noSpace)
        (onePoint.getRrd dataConfig loadKey (.create noSpace)).2 :=
  failed_flush_drops dataConfig onePoint (by decide) (fun h => by cases h)
    (fun h => by cases h)

/-- The file cannot be created, and the point that was cached is gone. -/
theorem failed_create_drops_point :
    onePoint.cached loadKey = [gaugeItem 60] ∧
      (flushrrd (keyFileName "data" loadKey) [gaugeItem 60] (.create noSpace) []).1 =
        some noSpace ∧
      (onePoint.commitByKey dataConfig loadKey (.create noSpace)).cached loadKey = [] ∧
      ¬ LosesNothing dataConfig onePoint loadKey (.create noSpace)
        (onePoint.commitByKey dataConfig loadKey (.create noSpace)) := by
  have hbefore : onePoint.cached loadKey = [gaugeItem 60] := rfl
  have hafter : (onePoint.commitByKey dataConfig loadKey (.create noSpace)).cached loadKey = [] :=
    rfl
  refine ⟨hbefore, rfl, hafter, fun h => ?_⟩
  have hback := h fun h => by cases h
  rw [hbefore, hafter] at hback
  exact absurd (List.sublist_nil.mp hback) (List.cons_ne_nil _ _)

end OpenFalcon.Graph
