import OpenFalcon.Assoc.Heap
import OpenFalcon.Common.Tags
import OpenFalcon.Numeric.Int64

/-!
# The schedulers of the plugins

`modules/agent/plugins`.  The agent keeps two maps: `Plugins` has the plugin of every key, and
`PluginsWithScheduler` has the handle of a goroutine that runs it from time to time.  A goroutine
ends when the `Quit` channel of its scheduler is closed, and closing it twice is a panic.  Every
round of `syncMinePlugins` computes the plugins that are wanted; `DelNoUsePlugins` stops those that
are not, or that have another modification time, and `AddNewPlugins` starts those that are missing.

The schedulers are objects on a heap, since the goroutine of a scheduler outlives its place in the
map.  `PluginTable.Sound` says that the two maps and the heap belong together: what runs is what the
map has, once for each key.  `AddNewPlugins` alone would not keep this, as it puts a new scheduler
over an old one without a stop; it does so because `DelNoUsePlugins` comes first.  From any sound
state a round leads to one that has what is wanted and nothing else (`sync_spec`), so every sequence
of rounds does (`schedulers_track_desired`).
-/

namespace OpenFalcon.Agent

open Numeric Common Assoc

/-! ## The source -/

/-- `plugins.Plugin`. -/
structure Plugin where
  filePath : List Char
  mtime : Int
  cycle : Int
  args : List Char
  deriving DecidableEq

/-- `PluginScheduler`.  It runs until its `Quit` is closed. -/
structure PluginScheduler where
  plugin : Plugin
  running : Bool
  deriving DecidableEq

/-- `time.Duration(p.Cycle) * time.Second`, in nanoseconds. -/
def Plugin.period (p : Plugin) : Int := wrap64 (p.cycle * 1000000000)

/-- `NewPluginScheduler` and `Schedule`.  `time.NewTicker` panics unless the duration is
positive. -/
def newPluginScheduler (p : Plugin) : Option PluginScheduler :=
  if 0 < p.period then some ⟨p, true⟩ else none

/-- `Plugins` and `PluginsWithScheduler`, with all schedulers that were ever made. -/
structure PluginTable where
  plugins : GoMap (List Char) Plugin
  schedulers : Heap (List Char) PluginScheduler

/-- `Stop`.  Closing a channel that is closed is a panic. -/
def stop (h : Heap (List Char) PluginScheduler) (a : ℕ) :
    Option (Heap (List Char) PluginScheduler) :=
  match h.cells[a]? with
  | some scheduler =>
    if scheduler.running then some (h.update a fun s => { s with running := false }) else none
  | none => none

/-- `deletePlugin`. -/
def deletePlugin (s : PluginTable) (key : List Char) : Option PluginTable :=
  match s.schedulers.addr.lookup key with
  | some a => (stop s.schedulers a).map fun h => ⟨s.plugins.erase key, h.eraseAll [key]⟩
  | none => some { s with plugins := s.plugins.erase key }

/-- The body of the loop of `DelNoUsePlugins`. -/
def delNoUsePlugin (newPlugins : GoMap (List Char) Plugin) (s : PluginTable)
    (curr : Σ _ : List Char, Plugin) : Option PluginTable :=
  match newPlugins.lookup curr.1 with
  | none => deletePlugin s curr.1
  | some newPlugin =>
    if curr.2.mtime ≠ newPlugin.mtime then deletePlugin s curr.1 else some s

/-- `DelNoUsePlugins`.  The loop deletes the key it is at, so it sees every key once. -/
def delNoUsePlugins (s : PluginTable) (newPlugins : GoMap (List Char) Plugin)
    (visit : Visit s.plugins) : Option PluginTable :=
  visit.entries.foldlM (delNoUsePlugin newPlugins) s

/-- The body of the loop of `AddNewPlugins`. -/
def addNewPlugin (s : PluginTable) (new : Σ _ : List Char, Plugin) : Option PluginTable :=
  if (s.plugins.lookup new.1).map Plugin.mtime = some new.2.mtime then some s
  else
    (newPluginScheduler new.2).map fun sch =>
      ⟨s.plugins.insert new.1 new.2, s.schedulers.store new.1 sch⟩

/-- `AddNewPlugins`. -/
def addNewPlugins (s : PluginTable) (newPlugins : GoMap (List Char) Plugin)
    (visit : Visit newPlugins) : Option PluginTable :=
  visit.entries.foldlM addNewPlugin s

/-- `ClearAllPlugins`. -/
def clearAllPlugins (s : PluginTable) (visit : Visit s.plugins) : Option PluginTable :=
  visit.entries.foldlM (fun s curr => deletePlugin s curr.1) s

/-! ## One deletion, one addition -/

/-- What runs is what the maps have. -/
structure PluginTable.Sound (s : PluginTable) : Prop where
  value : ∀ k, s.schedulers.value k = (s.plugins.lookup k).map fun p => ⟨p, true⟩
  stopped : ∀ a scheduler, s.schedulers.cells[a]? = some scheduler → scheduler.running = true →
    ∃ k, s.schedulers.addr.lookup k = some a

variable {s : PluginTable}

theorem PluginTable.Sound.lookup_erase (h : s.Sound) (key k : List Char) :
    ((s.plugins.erase key).lookup k).map (fun p => (⟨p, true⟩ : PluginScheduler)) =
      if k = key then none else s.schedulers.value k := by
  by_cases hk : k = key
  · rw [if_pos hk, hk, AList.lookup_erase, Option.map_none]
  · rw [if_neg hk, AList.lookup_erase_ne hk, h.value]

/-- **A deletion stops the scheduler of its key**, which was running. -/
theorem deletePlugin_spec (h : s.Sound) (key : List Char) :
    ∃ s', deletePlugin s key = some s' ∧ s'.Sound ∧ s'.plugins = s.plugins.erase key := by
  unfold deletePlugin
  cases haddr : s.schedulers.addr.lookup key with
  | none =>
    refine ⟨_, rfl, ⟨fun k => ?_, h.stopped⟩, rfl⟩
    rw [h.lookup_erase]
    split_ifs with hk
    · rw [hk, Heap.value_eq_none haddr]
    · rfl
  | some a =>
    obtain ⟨scheduler, hcell⟩ := Option.isSome_iff_exists.mp (s.schedulers.isSome_value haddr)
    have hrunning : scheduler.running = true := by
      rw [h.value key] at hcell
      obtain ⟨p, -, rfl⟩ := Option.map_eq_some_iff.mp hcell
      rfl
    rw [Heap.value_eq_getElem? haddr] at hcell
    have hstop : stop s.schedulers a =
        some (s.schedulers.update a fun s => { s with running := false }) := by
      simp only [stop, hcell, hrunning, if_true]
    simp only [hstop, Option.map_some]
    refine ⟨_, rfl, ⟨fun k => ?_, ?_⟩, rfl⟩
    · rw [h.lookup_erase, Heap.value_eraseAll, Heap.value_update_of_lookup haddr]
      simp only [List.mem_singleton]
      split_ifs <;> rfl
    · intro a' scheduler' hcell' hrunning'
      have hcell' : (s.schedulers.cells.modify a fun s => { s with running := false })[a']? =
          some scheduler' := hcell'
      rw [List.getElem?_modify] at hcell'
      obtain ⟨old, hold, heq⟩ := Option.map_eq_some_iff.mp hcell'
      by_cases ha : a = a'
      · rw [if_pos ha] at heq
        rw [← heq] at hrunning'
        cases hrunning'
      · rw [if_neg ha] at heq
        subst heq
        obtain ⟨k, hk⟩ := h.stopped a' old hold hrunning'
        refine ⟨k, (Heap.lookup_foldl_erase _ [key] k).trans ?_⟩
        rw [if_neg]
        · exact hk
        · rw [List.mem_singleton]
          rintro rfl
          exact ha (Option.some.inj (haddr.symm.trans hk))

/-- **An addition starts a scheduler**, if the key had none. -/
theorem addNewPlugin_spec (h : s.Sound) {new : Σ _ : List Char, Plugin} (hperiod : 0 < new.2.period)
    (hnone : s.plugins.lookup new.1 = none) :
    ∃ s', addNewPlugin s new = some s' ∧ s'.Sound ∧
      s'.plugins = s.plugins.insert new.1 new.2 := by
  refine ⟨⟨s.plugins.insert new.1 new.2, s.schedulers.store new.1 ⟨new.2, true⟩⟩, ?_,
    ⟨fun k => ?_, fun a scheduler hcell hrunning => ?_⟩, rfl⟩
  · rw [addNewPlugin, hnone, if_neg (by simp), newPluginScheduler, if_pos hperiod, Option.map_some]
  · rw [Heap.value_store]
    by_cases hk : k = new.1
    · rw [if_pos hk, hk, AList.lookup_insert, Option.map_some]
    · rw [if_neg hk, AList.lookup_insert_ne hk, h.value]
  · have hcell : (s.schedulers.cells ++ [⟨new.2, true⟩])[a]? = some scheduler := hcell
    show ∃ k, (s.schedulers.addr.insert new.1 s.schedulers.cells.length).lookup k = some a
    by_cases ha : a < s.schedulers.cells.length
    · rw [List.getElem?_append_left ha] at hcell
      obtain ⟨k, hk⟩ := h.stopped a scheduler hcell hrunning
      refine ⟨k, ?_⟩
      rw [AList.lookup_insert_ne]
      · exact hk
      · -- the key has no scheduler, so it is another key that has this one
        rintro rfl
        have hvalue := s.schedulers.isSome_value hk
        rw [h.value, hnone] at hvalue
        cases hvalue
    · have hbound := List.getElem?_eq_some_iff.mp hcell
      have hlt : a < s.schedulers.cells.length + 1 := by simpa using hbound.1
      refine ⟨new.1, ?_⟩
      rw [AList.lookup_insert, show a = s.schedulers.cells.length by omega]

/-! ## The loops -/

/-- The entry is not wanted any more. -/
def unused (newPlugins : GoMap (List Char) Plugin) (curr : Σ _ : List Char, Plugin) : Bool :=
  (newPlugins.lookup curr.1).map Plugin.mtime ≠ some curr.2.mtime

theorem delNoUsePlugin_eq (newPlugins : GoMap (List Char) Plugin) (s : PluginTable)
    (curr : Σ _ : List Char, Plugin) :
    delNoUsePlugin newPlugins s curr =
      if unused newPlugins curr then deletePlugin s curr.1 else some s := by
  unfold delNoUsePlugin unused
  cases newPlugins.lookup curr.1 with
  | none => rfl
  | some newPlugin =>
    simp only [Option.map_some, ne_eq, Option.some_inj, decide_eq_true_eq]
    exact if_congr (not_congr eq_comm) rfl rfl

/-- **Deleting loops**: they stop the schedulers of the entries they choose and no others. -/
theorem foldlM_deletePlugin (entries : List (Σ _ : List Char, Plugin))
    (p : (Σ _ : List Char, Plugin) → Bool) (h : s.Sound) :
    ∃ s', entries.foldlM (fun s e => if p e then deletePlugin s e.1 else some s) s = some s' ∧
      s'.Sound ∧ ∀ k, s'.plugins.lookup k =
        if ∃ e ∈ entries, p e = true ∧ e.1 = k then none else s.plugins.lookup k := by
  induction entries generalizing s with
  | nil => exact ⟨s, rfl, h, by simp⟩
  | cons e entries ih =>
    rw [List.foldlM_cons]
    cases hp : p e with
    | false =>
      obtain ⟨s', hs', hsound, hlookup⟩ := ih h
      refine ⟨s', hs', hsound, fun k => ?_⟩
      rw [hlookup]
      refine if_congr ?_ rfl rfl
      simp [hp]
    | true =>
      obtain ⟨s₁, hs₁, hsound₁, hplugins⟩ := deletePlugin_spec h e.1
      obtain ⟨s', hs', hsound, hlookup⟩ := ih hsound₁
      rw [if_pos rfl, hs₁]
      refine ⟨s', hs', hsound, fun k => ?_⟩
      rw [hlookup, hplugins]
      by_cases hk : k = e.1
      · rw [hk, AList.lookup_erase, ite_self, if_pos ⟨e, List.mem_cons_self, hp, rfl⟩]
      · rw [AList.lookup_erase_ne hk]
        refine if_congr ?_ rfl rfl
        simp [hp, Ne.symm hk]

/-- **The adding loop**: it starts what is missing, if what is there has the wanted time. -/
theorem foldlM_addNewPlugin {entries : List (Σ _ : List Char, Plugin)} (hnodup : entries.NodupKeys)
    (hperiod : ∀ e ∈ entries, 0 < e.2.period) (h : s.Sound)
    (hsame : ∀ e ∈ entries, ∀ p, s.plugins.lookup e.1 = some p → p.mtime = e.2.mtime) :
    ∃ s', entries.foldlM addNewPlugin s = some s' ∧ s'.Sound ∧
      (∀ e ∈ entries, (s'.plugins.lookup e.1).map Plugin.mtime = some e.2.mtime) ∧
      ∀ k, (∀ e ∈ entries, e.1 ≠ k) → s'.plugins.lookup k = s.plugins.lookup k := by
  induction entries generalizing s with
  | nil => exact ⟨s, rfl, h, by simp, fun k _ => rfl⟩
  | cons e entries ih =>
    obtain ⟨hfresh, hnodup⟩ := List.nodupKeys_cons.mp hnodup
    have hne : ∀ e' ∈ entries, e'.1 ≠ e.1 :=
      fun e' he' heq => hfresh (heq ▸ List.mem_keys_of_mem he')
    -- one step leaves a state with the plugin of this entry, and the others as they were
    obtain ⟨s₁, hs₁, hsound₁, hhas, hothers⟩ : ∃ s₁, addNewPlugin s e = some s₁ ∧ s₁.Sound ∧
        (s₁.plugins.lookup e.1).map Plugin.mtime = some e.2.mtime ∧
        ∀ k, k ≠ e.1 → s₁.plugins.lookup k = s.plugins.lookup k := by
      cases hlookup : s.plugins.lookup e.1 with
      | some p =>
        have htime : (s.plugins.lookup e.1).map Plugin.mtime = some e.2.mtime := by
          rw [hlookup, Option.map_some, hsame e List.mem_cons_self p hlookup]
        exact ⟨s, if_pos htime, h, htime, fun k _ => rfl⟩
      | none =>
        obtain ⟨s₁, hs₁, hsound₁, hplugins⟩ :=
          addNewPlugin_spec h (hperiod e List.mem_cons_self) hlookup
        refine ⟨s₁, hs₁, hsound₁, ?_, fun k hk => ?_⟩
        · rw [hplugins, AList.lookup_insert, Option.map_some]
        · rw [hplugins, AList.lookup_insert_ne hk]
    obtain ⟨s', hs', hsound, hall, hrest⟩ := ih hnodup
      (fun e' he' => hperiod e' (List.mem_cons_of_mem e he')) hsound₁ (by
        intro e' he' p hp
        rw [hothers e'.1 (hne e' he')] at hp
        exact hsame e' (List.mem_cons_of_mem e he') p hp)
    refine ⟨s', ?_, hsound, fun e' he' => ?_, fun k hk => ?_⟩
    · rw [List.foldlM_cons, hs₁]
      exact hs'
    · rcases List.mem_cons.mp he' with rfl | he'
      · rw [hrest _ hne, hhas]
      · exact hall e' he'
    · rw [hrest k fun e' he' => hk e' (List.mem_cons_of_mem e he'),
        hothers k fun heq => hk e List.mem_cons_self heq.symm]

/-! ## Rounds -/

/-- A round of `syncMinePlugins`: there are no bindings, or there are, and some plugins are
wanted. -/
inductive Round where
  | clear
  | sync (desiredAll : GoMap (List Char) Plugin)

/-- What is wanted in a round. -/
def Round.desired : Round → GoMap (List Char) Plugin
  | clear => ∅
  | sync desiredAll => desiredAll

/-- What a round can do.  The loops range over the maps in any order; `none` is a panic. -/
inductive Round.Does (s : PluginTable) : Round → Option PluginTable → Prop
  | clear (visit : Visit s.plugins) : Does s .clear (clearAllPlugins s visit)
  | sync (desiredAll : GoMap (List Char) Plugin) (visit : Visit s.plugins)
      (visitNew : Visit desiredAll) :
      Does s (.sync desiredAll) ((delNoUsePlugins s desiredAll visit).bind fun s =>
        addNewPlugins s desiredAll visitNew)

/-- The agent after it was started. -/
def PluginTable.start : PluginTable := ⟨∅, Heap.empty⟩

/-- What a sequence of rounds can lead to.  A round is made only if there was no panic before. -/
inductive LeadsTo : List Round → Option PluginTable → Prop
  | start : LeadsTo [] (some PluginTable.start)
  | round {rounds : List Round} {s : PluginTable} {round : Round} {r : Option PluginTable} :
      LeadsTo rounds (some s) → round.Does s r → LeadsTo (rounds ++ [round]) r

/-- The maps have what is wanted, and this is what runs. -/
structure PluginTable.Tracks (s : PluginTable) (desired : GoMap (List Char) Plugin) : Prop where
  plugins : ∀ k, (s.plugins.lookup k).map Plugin.mtime = (desired.lookup k).map Plugin.mtime
  handles : ∀ k, (s.schedulers.value k).map (fun scheduler => scheduler.plugin.mtime) =
    (desired.lookup k).map Plugin.mtime
  one : ∀ k p, desired.lookup k = some p → ∃! a, s.schedulers.addr.lookup k = some a ∧
    ∃ plugin, s.plugins.lookup k = some plugin ∧ s.schedulers.cells[a]? = some ⟨plugin, true⟩
  apart : ∀ k k' a, s.schedulers.addr.lookup k = some a → s.schedulers.addr.lookup k' = some a →
    k = k'
  stopped : ∀ a scheduler, s.schedulers.cells[a]? = some scheduler →
    (∀ k, s.schedulers.addr.lookup k ≠ some a) → scheduler.running = false

theorem PluginTable.Sound.tracks (h : s.Sound) {desired : GoMap (List Char) Plugin}
    (hplugins : ∀ k, (s.plugins.lookup k).map Plugin.mtime = (desired.lookup k).map Plugin.mtime) :
    s.Tracks desired := by
  refine ⟨hplugins, fun k => ?_, fun k p hp => ?_, s.schedulers.addr_inj,
    fun a scheduler hcell hnone => ?_⟩
  · rw [h.value, Option.map_map, ← hplugins k]
    rfl
  · have hsome := hplugins k
    rw [hp, Option.map_some] at hsome
    obtain ⟨plugin, hplugin, -⟩ := Option.map_eq_some_iff.mp hsome
    have hvalue := h.value k
    rw [hplugin, Option.map_some] at hvalue
    obtain ⟨a, ha, hcell⟩ := Option.bind_eq_some_iff.mp hvalue
    refine ⟨a, ⟨ha, plugin, hplugin, hcell⟩, fun a' ha' => ?_⟩
    exact Option.some.inj (ha'.1.symm.trans ha)
  · cases hrunning : scheduler.running with
    | false => rfl
    | true =>
      obtain ⟨k, hk⟩ := h.stopped a scheduler hcell hrunning
      exact absurd hk (hnone k)

theorem clear_spec (h : s.Sound) (visit : Visit s.plugins) :
    ∃ s', clearAllPlugins s visit = some s' ∧ s'.Sound ∧ ∀ k, s'.plugins.lookup k = none := by
  obtain ⟨s', hs', hsound, hlookup⟩ := foldlM_deletePlugin visit.entries (fun _ => true) h
  refine ⟨s', hs', hsound, fun k => ?_⟩
  rw [hlookup]
  split_ifs with hex
  · rfl
  · refine Option.eq_none_iff_forall_ne_some.mpr fun p hp => hex ?_
    exact ⟨⟨k, p⟩, visit.mem_entries.mpr hp, rfl, rfl⟩

/-- What is left after the deletions has the wanted time. -/
theorem delNoUsePlugins_spec (h : s.Sound) (newPlugins : GoMap (List Char) Plugin)
    (visit : Visit s.plugins) :
    ∃ s', delNoUsePlugins s newPlugins visit = some s' ∧ s'.Sound ∧
      ∀ k p, s'.plugins.lookup k = some p →
        (newPlugins.lookup k).map Plugin.mtime = some p.mtime := by
  obtain ⟨s', hs', hsound, hlookup⟩ := foldlM_deletePlugin visit.entries (unused newPlugins) h
  refine ⟨s', ?_, hsound, fun k p hp => ?_⟩
  · rw [← hs', delNoUsePlugins]
    exact congrArg (fun f => visit.entries.foldlM f s)
      (funext fun s => funext fun e => delNoUsePlugin_eq newPlugins s e)
  · rw [hlookup] at hp
    split_ifs at hp with hex
    by_contra htime
    exact hex ⟨⟨k, p⟩, visit.mem_entries.mpr hp, decide_eq_true htime, rfl⟩

/-- **Deleting, then adding** leaves what is wanted. -/
theorem sync_spec (h : s.Sound) {desiredAll : GoMap (List Char) Plugin}
    (hperiod : ∀ k p, desiredAll.lookup k = some p → 0 < p.period) (visit : Visit s.plugins)
    (visitNew : Visit desiredAll) :
    ∃ s', ((delNoUsePlugins s desiredAll visit).bind fun s =>
        addNewPlugins s desiredAll visitNew) = some s' ∧ s'.Sound ∧
      ∀ k, (s'.plugins.lookup k).map Plugin.mtime = (desiredAll.lookup k).map Plugin.mtime := by
  obtain ⟨s₁, hdel, hsound₁, hleft⟩ := delNoUsePlugins_spec h desiredAll visit
  have hnodup : visitNew.entries.NodupKeys :=
    (List.perm_nodupKeys visitNew.perm).mpr desiredAll.nodupKeys
  obtain ⟨s', hs', hsound, hall, hrest⟩ := foldlM_addNewPlugin hnodup
    (fun e he => hperiod e.1 e.2 (visitNew.mem_entries.mp he)) hsound₁ (by
      intro e he p hp
      have htime := hleft e.1 p hp
      rw [visitNew.mem_entries.mp he] at htime
      exact (Option.some.inj htime).symm)
  refine ⟨s', ?_, hsound, fun k => ?_⟩
  · rw [hdel, Option.bind_some, addNewPlugins, hs']
  · cases hk : desiredAll.lookup k with
    | some p => exact hall ⟨k, p⟩ (visitNew.mem_entries.mpr hk)
    | none =>
      have hnone : s₁.plugins.lookup k = none := by
        refine Option.eq_none_iff_forall_ne_some.mpr fun p hp => ?_
        have htime := hleft k p hp
        rw [hk] at htime
        cases htime
      rw [hrest k, hnone]
      rintro e he rfl
      rw [visitNew.mem_entries.mp he] at hk
      cases hk

/-- **A round from a sound state** does not panic, and leads to a sound state that has what is
wanted. -/
theorem Round.Does.spec (h : s.Sound) {round : Round} {r : Option PluginTable}
    (hperiod : ∀ k p, round.desired.lookup k = some p → 0 < p.period) (hdoes : round.Does s r) :
    ∃ s', r = some s' ∧ s'.Sound ∧
      ∀ k, (s'.plugins.lookup k).map Plugin.mtime = (round.desired.lookup k).map Plugin.mtime := by
  cases hdoes with
  | clear visit =>
    obtain ⟨s', hs', hsound, hnone⟩ := clear_spec h visit
    refine ⟨s', hs', hsound, fun k => ?_⟩
    rw [hnone k]
    rfl
  | sync desiredAll visit visitNew => exact sync_spec h hperiod visit visitNew

theorem PluginTable.sound_start : PluginTable.start.Sound := by
  refine ⟨fun k => ?_, fun a scheduler hcell => ?_⟩
  · exact Heap.value_empty k
  · cases hcell

/-- **Plugin schedulers track the desired set.**  After every sequence of rounds, whatever is wanted
in them and in whatever order the maps are ranged over, there was no panic, the maps have the wanted
keys with the wanted modification times, every key has one running scheduler of its own, and all
other schedulers were stopped. -/
theorem schedulers_track_desired {rounds : List Round} {r : Option PluginTable}
    (hperiod : ∀ round ∈ rounds, ∀ k p, round.desired.lookup k = some p → 0 < p.period)
    (h : LeadsTo rounds r) :
    ∃ s, r = some s ∧ s.Tracks ((rounds.getLast?.map Round.desired).getD ∅) := by
  obtain ⟨s, rfl, hsound, hplugins⟩ : ∃ s, r = some s ∧ s.Sound ∧
      ∀ k, (s.plugins.lookup k).map Plugin.mtime =
        (((rounds.getLast?.map Round.desired).getD ∅).lookup k).map Plugin.mtime := by
    induction h with
    | start => exact ⟨_, rfl, PluginTable.sound_start, fun k => rfl⟩
    | round hprev hdoes ih =>
      obtain ⟨s, hs, hsound, -⟩ := ih fun round hround =>
        hperiod round (List.mem_append_left _ hround)
      obtain rfl := Option.some.inj hs
      obtain ⟨s', hs', hsound', hplugins⟩ :=
        hdoes.spec hsound (hperiod _ (List.mem_append_right _ List.mem_cons_self))
      refine ⟨s', hs', hsound', fun k => ?_⟩
      rw [List.getLast?_concat]
      exact hplugins k
  exact ⟨s, rfl, hsound.tracks hplugins⟩

/-- A plugin of one minute, as it was at some time. -/
def minutePlugin (mtime : Int) : Plugin := ⟨"sys/60_ntp.py".toList, mtime, 60, []⟩

/-- The plugin under the key of a directory listing. -/
def minuteDesired (mtime : Int) : GoMap (List Char) Plugin :=
  AList.insert "sys/60_ntp.py".toList (minutePlugin mtime) ∅

theorem period_of_minuteDesired {mtime : Int} {k : List Char} {p : Plugin}
    (h : (minuteDesired mtime).lookup k = some p) : 0 < p.period := by
  have hp : p = minutePlugin mtime := by
    unfold minuteDesired at h
    by_cases hk : k = "sys/60_ntp.py".toList
    · rw [hk, AList.lookup_insert] at h
      exact (Option.some.inj h).symm
    · rw [AList.lookup_insert_ne hk] at h
      cases h
  rw [hp]
  show 0 < wrap64 (60 * 1000000000)
  exact (wrap64_pos_iff (by decide) (by decide)).mpr (by decide)

/-- A plugin is bound, and its file is changed. -/
theorem schedulers_track_change :
    ∃ s, LeadsTo [.sync (minuteDesired 1), .sync (minuteDesired 2)] (some s) ∧
      s.Tracks (minuteDesired 2) := by
  have hone : LeadsTo [.sync (minuteDesired 1)] _ :=
    .round .start (.sync (minuteDesired 1) (Visit.asWritten _) (Visit.asWritten _))
  obtain ⟨s₁, hs₁, -⟩ := schedulers_track_desired
    (fun round hround k p hp => by
      obtain rfl := List.mem_singleton.mp hround
      exact period_of_minuteDesired hp) hone
  rw [hs₁] at hone
  have htwo : LeadsTo [.sync (minuteDesired 1), .sync (minuteDesired 2)] _ :=
    .round hone (.sync (minuteDesired 2) (Visit.asWritten _) (Visit.asWritten _))
  obtain ⟨s₂, hs₂, htracks⟩ := schedulers_track_desired
    (fun round hround k p hp => by
      rcases List.mem_pair.mp hround with rfl | rfl
      · exact period_of_minuteDesired hp
      · exact period_of_minuteDesired hp) htwo
  rw [hs₂] at htwo
  exact ⟨s₂, htwo, htracks⟩

end OpenFalcon.Agent
