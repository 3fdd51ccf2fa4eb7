import OpenFalcon.Hbs.Bound
import OpenFalcon.Common.TagText

/-!
# The caches of the heartbeat server

`modules/hbs/db` reads the portal database, `modules/hbs/cache` keeps what was read, and two
calls answer from it.  `GetStrategies` tells the judges which strategies hold for which host:
it follows the rows that join hosts to templates and lets the templates inherit.
`GetBuiltinMetrics` tells the agent of one host what to collect: it follows the groups of the
host to a set of templates, closes it under parents, and asks the database once more.

The two go separate ways through the same tables, and what the first returns the second
collects (`getBuiltinMetrics_covers_getStrategies`).  It matters that both climb with
`ParentIds`: a chain of ten templates is dropped by both, and of a template whose chain is
dropped `GetBuiltinMetrics` still collects its own strategies, which no judge asks for.

The second call drops a pair whose metric and tags, written after each other, give a text it
has seen.  It drops nothing else as long as no metric the database selects begins with
another one, which is a property of how the database compares texts (`MetricTest`).
-/

namespace OpenFalcon.Hbs

open Common Assoc Text

variable {F : Type} {allTpls : TemplateCache} {tids : List Int} {s : Strategy F} {now tid : Int}

/-! ## The tables -/

/-- A row of table `host`, with the columns that are read. -/
structure HostRow where
  id : Int
  hostname : String
  maintainBegin : Int
  maintainEnd : Int

/-- A row of table `strategy`.  `right_value` is a text there. -/
structure StrategyRow where
  id : Int
  metric : String
  tags : String
  func : String
  op : String
  rightValue : String
  maxStep : Int
  priority : Int
  note : String
  runBegin : String
  runEnd : String
  tplId : Int

/-- The tables the caches are loaded from, with their keys.  `grp_host` and `grp_tpl` have
none, so their rows may repeat and refer to nothing. -/
structure Tables where
  host : List HostRow
  /-- `grp_id` and `host_id`. -/
  grpHost : List (Int × Int)
  /-- `grp_id` and `tpl_id`. -/
  grpTpl : List (Int × Int)
  tpl : List Template
  strategy : List StrategyRow
  host_id : (host.map HostRow.id).Nodup
  host_hostname : (host.map HostRow.hostname).Nodup
  tpl_id : (tpl.map Template.id).Nodup
  strategy_id : (strategy.map StrategyRow.id).Nodup

/-- The rows of a query without `order by`: those of the table, in some order. -/
structure Rows {α : Type} (table : List α) where
  list : List α
  perm : list.Perm table

/-- The order they are stored in is one of them. -/
def Rows.stored {α : Type} (table : List α) : Rows table := ⟨table, List.Perm.refl _⟩

/-! ## The queries -/

/-- `model.Host`. -/
structure Host where
  id : Int
  name : String

/-- `QueryHosts`: the ids of the hosts by their names. -/
def queryHosts (rows : List HostRow) : GoMap String Int :=
  rows.foldl (fun m row => m.insert row.hostname row.id) ∅

/-- `QueryMonitoredHosts`: the hosts that are not in maintenance. -/
def queryMonitoredHosts (now : Int) (rows : List HostRow) : GoMap Int Host :=
  (rows.filter fun row => row.maintainBegin > now ∨ row.maintainEnd < now).foldl
    (fun hosts row => hosts.insert row.id ⟨row.id, row.hostname⟩) ∅

/-- `QueryHostGroups`. -/
def queryHostGroups (rows : List (Int × Int)) : GoMap Int (List Int) :=
  indexBy Prod.snd Prod.fst rows

/-- `QueryGroupTemplates`. -/
def queryGroupTemplates (rows : List (Int × Int)) : GoMap Int (List Int) :=
  indexBy Prod.fst Prod.snd rows

/-- `grp_tpl as a inner join grp_host as b on a.grp_id=b.grp_id`: `tpl_id` and `host_id`. -/
def hostTemplateRows (t : Tables) : List (Int × Int) :=
  t.grpTpl.flatMap fun a => (t.grpHost.filter fun b => a.1 = b.1).map fun b => (a.2, b.2)

/-- `QueryHostTemplateIds`. -/
def queryHostTemplateIds (rows : List (Int × Int)) : GoMap Int (List Int) :=
  indexBy Prod.snd Prod.fst rows

/-- The condition of `QueryStrategies` on the hours a strategy runs in, at the time `now`
written as hours and minutes. -/
def StrategyRow.runsAt (now : String) (row : StrategyRow) : Bool :=
  (row.runBegin = "" ∧ row.runEnd = "") ∨ (row.runBegin ≤ now ∧ row.runEnd ≥ now) ∨
    (row.runBegin > row.runEnd ∧ ¬(row.runBegin > now ∧ row.runEnd < now))

/-- The tags of a strategy, as `QueryStrategies` reads the text of its row. -/
def queryTags (tags : String) : Tags :=
  if tags = "" then ∅
  else overrideAll ∅ (pairEntries ((records ',' '=' tags.toList).filterMap id))

/-- A row as it is scanned, with the id of its template.  A row whose `right_value` is no
number is left out. -/
def StrategyRow.scan (scanFloat : String → Option F) (row : StrategyRow) :
    Option (Strategy F × Int) :=
  (scanFloat row.rightValue).map fun rightValue =>
    ({ id := row.id
       metric := row.metric
       tags := queryTags row.tags
       func := row.func
       operator := row.op
       rightValue := rightValue
       maxStep := row.maxStep
       priority := row.priority
       note := row.note
       tpl := none }, row.tplId)

/-- The metrics `QueryBuiltinMetrics` asks for. -/
def builtinMetrics : List String := ["net.port.listen", "proc.num", "du.bs", "url.check.health"]

/-- The comparison `metric in (...)` of the database: it finds the metrics of the list, and
no metric it finds is the beginning of another.  Comparing letter by letter is one
(`MetricTest.exact`), and so is comparing without regard to case. -/
structure MetricTest where
  selects : String → Bool
  selects_builtin : ∀ metric ∈ builtinMetrics, selects metric = true
  eq_of_isPrefix : ∀ metric metric', selects metric = true → selects metric' = true →
    metric.toList <+: metric'.toList → metric = metric'

/-- Comparing letter by letter. -/
def MetricTest.exact : MetricTest where
  selects metric := metric ∈ builtinMetrics
  selects_builtin := by simp
  eq_of_isPrefix := by
    intro metric metric' h h' hprefix
    have hall : ∀ m ∈ builtinMetrics, ∀ m' ∈ builtinMetrics,
        m.toList <+: m'.toList → m = m' := by decide +kernel
    exact hall metric (of_decide_eq_true h) metric' (of_decide_eq_true h') hprefix

/-- `model.BuiltinMetric`. -/
structure BuiltinMetric where
  metric : String
  tags : String
  deriving DecidableEq

/-- `QueryBuiltinMetrics`: the metric and tags of the strategies of the templates, a text
`metric` `tags` that was seen before left out. -/
def queryBuiltinMetrics (test : MetricTest) (tids : Finset Int) (rows : List StrategyRow) :
    List BuiltinMetric :=
  firstWins (fun b => b.metric ++ b.tags) []
    ((rows.filter fun row => row.tplId ∈ tids ∧ test.selects row.metric).map fun row =>
      ⟨row.metric, row.tags⟩)

/-! ## The caches and the calls -/

/-- The caches. -/
structure Caches (F : Type) where
  groupTemplates : GoMap Int (List Int)
  hostGroupsMap : GoMap Int (List Int)
  hostMap : GoMap String Int
  templateCache : TemplateCache
  strategies : StrategyCache F
  hostTemplateIds : GoMap Int (List Int)
  monitoredHosts : GoMap Int Host

/-- `cache.Init`, for the strategies at the hour `hour` and for the hosts at the time
`now`. -/
def init (scanFloat : String → Option F) (hour : String) (now : Int) (t : Tables)
    (joined : Rows (hostTemplateRows t)) : Caches F where
  groupTemplates := queryGroupTemplates t.grpTpl
  hostGroupsMap := queryHostGroups t.grpHost
  hostMap := queryHosts t.host
  templateCache := queryTemplates t.tpl
  strategies := queryStrategies (queryTemplates t.tpl)
    ((t.strategy.filter (StrategyRow.runsAt hour)).filterMap (StrategyRow.scan scanFloat))
  hostTemplateIds := queryHostTemplateIds joined.list
  monitoredHosts := queryMonitoredHosts now t.host

/-- One round of the loop of `GetStrategies`: what is said of a host. -/
def hostStrategy (c : Caches F) (order : RangeOrder F) (hostId : Int) (tplIds : List Int) :
    Option (HostStrategy F) :=
  match c.monitoredHosts.lookup hostId with
  | none => none
  | some h =>
    let ss := calcInheritStrategies order c.templateCache tplIds (tpl2Strategies c.strategies)
    if ss.length ≤ 0 then none else some ⟨h.name, ss⟩

/-- `GetStrategies`.  Every host has its own orders for the maps that are visited. -/
def getStrategies (c : Caches F) (visit : Visit c.hostTemplateIds) (order : Int → RangeOrder F) :
    List (HostStrategy F) :=
  if c.hostTemplateIds.entries.length = 0 then []
  else if c.monitoredHosts.entries.length = 0 then []
  else if c.templateCache.m.entries.length = 0 then []
  else if c.strategies.m.entries.length = 0 then []
  else visit.entries.filterMap fun e => hostStrategy c (order e.1) e.1 e.2

/-- `GetBuiltinMetrics`, with the rows of table `strategy` its query finds. -/
def getBuiltinMetrics (c : Caches F) (test : MetricTest) (rows : List StrategyRow)
    (hostname : String) : List BuiltinMetric :=
  match c.hostMap.lookup hostname with
  | none => []
  | some hid =>
    match c.hostGroupsMap.lookup hid with
    | none => []
    | some gids =>
      let tidSet := (gids.flatMap fun gid => (c.groupTemplates.lookup gid).getD []).toFinset
      if tidSet = ∅ then []
      else
        let tidSet := tidSet ∪ tidSet.biUnion fun tid => (parentIds c.templateCache tid).toFinset
        queryBuiltinMetrics test tidSet rows

/-! ## What was read -/

theorem lookup_queryHosts {rows : List HostRow} (hnodup : (rows.map HostRow.hostname).Nodup)
    {row : HostRow} (hrow : row ∈ rows) : (queryHosts rows).lookup row.hostname = some row.id := by
  have hfold : queryHosts rows =
      overrideAll ∅ (rows.map fun row => (⟨row.hostname, row.id⟩ : Σ _ : String, Int)) := by
    rw [queryHosts, overrideAll, List.foldl_map]
  have hkeys : (rows.map fun row => (⟨row.hostname, row.id⟩ : Σ _ : String, Int)).NodupKeys := by
    rw [List.NodupKeys, List.keys, List.map_map]
    exact hnodup
  rw [hfold, lookup_overrideAll_of_nodupKeys _ hkeys, AList.lookup_empty, Option.or_none]
  exact (List.mem_dlookup_iff hkeys).mpr (List.mem_map.mpr ⟨row, hrow, rfl⟩)

theorem exists_row_of_lookup_queryMonitoredHosts {rows : List HostRow} {id : Int} {h : Host}
    (hlookup : (queryMonitoredHosts now rows).lookup id = some h) :
    ∃ row ∈ rows, row.id = id ∧ row.hostname = h.name := by
  have hfold : queryMonitoredHosts now rows = overrideAll ∅
      ((rows.filter fun row => row.maintainBegin > now ∨ row.maintainEnd < now).map
        fun row => (⟨row.id, ⟨row.id, row.hostname⟩⟩ : Σ _ : Int, Host)) := by
    rw [queryMonitoredHosts, overrideAll, List.foldl_map]
  rw [hfold, lookup_overrideAll_reverse, AList.lookup_empty, Option.or_none] at hlookup
  obtain ⟨row, hrow, heq⟩ :=
    List.mem_map.mp (List.mem_reverse.mp (List.of_mem_dlookup hlookup))
  obtain ⟨rfl, hval⟩ := Sigma.mk.inj heq
  obtain rfl := eq_of_heq hval
  exact ⟨row, (List.mem_filter.mp hrow).1, rfl, rfl⟩

variable {t : Tables}

theorem mem_hostTemplateIds (joined : Rows (hostTemplateRows t)) {hid : Int}
    (h : (queryHostTemplateIds joined.list).lookup hid = some tids) :
    tid ∈ tids ↔ ∃ gid, (gid, hid) ∈ t.grpHost ∧ (gid, tid) ∈ t.grpTpl := by
  rw [mem_of_lookup_indexBy h]
  constructor
  · rintro ⟨⟨tid, hid⟩, hrow, rfl, rfl⟩
    rw [joined.perm.mem_iff, hostTemplateRows, List.mem_flatMap] at hrow
    obtain ⟨⟨gid, tid'⟩, htpl, hrow⟩ := hrow
    obtain ⟨⟨gid', hid'⟩, hhost, heq⟩ := List.mem_map.mp hrow
    obtain ⟨rfl, rfl⟩ := Prod.mk.inj heq
    obtain ⟨hhost, hgid⟩ := List.mem_filter.mp hhost
    obtain rfl : gid = gid' := of_decide_eq_true hgid
    exact ⟨gid, hhost, htpl⟩
  · rintro ⟨gid, hhost, htpl⟩
    refine ⟨(tid, hid), ?_, rfl, rfl⟩
    rw [joined.perm.mem_iff, hostTemplateRows, List.mem_flatMap]
    refine ⟨(gid, tid), htpl, List.mem_map.mpr ⟨(gid, hid), ?_, rfl⟩⟩
    exact List.mem_filter.mpr ⟨hhost, decide_eq_true rfl⟩

theorem exists_row_of_lookup_queryStrategies {tpls : TemplateCache} {rows : List (Strategy F × Int)}
    {id : Int} (h : (queryStrategies tpls rows).m.lookup id = some s) :
    ∃ row ∈ rows, ∃ t, tpls.m.lookup row.2 = some t ∧ s = { row.1 with tpl := some t } := by
  induction rows using List.reverseRecOn with
  | nil => exact absurd h (by simp [queryStrategies])
  | append_singleton rows row ih =>
    rw [queryStrategies, List.foldl_append, List.foldl_cons, List.foldl_nil,
      ← queryStrategies] at h
    have earlier : (queryStrategies tpls rows).m.lookup id = some s →
        ∃ row' ∈ rows ++ [row], ∃ t, tpls.m.lookup row'.2 = some t ∧
          s = { row'.1 with tpl := some t } := by
      intro hlookup
      obtain ⟨row', hrow', hread⟩ := ih hlookup
      exact ⟨row', List.mem_append_left _ hrow', hread⟩
    cases ht : tpls.m.lookup row.2 with
    | none =>
      rw [ht] at h
      exact earlier h
    | some t =>
      rw [ht] at h
      by_cases hid : id = row.1.id
      · subst hid
        rw [AList.lookup_insert, Option.some_inj] at h
        exact ⟨row, by simp, t, ht, h.symm⟩
      · rw [AList.lookup_insert_ne hid] at h
        exact earlier h

/-- A row of the table, as it stands in the cache with its template. -/
structure LoadedFrom (row : StrategyRow) (t : Template) (s : Strategy F) : Prop where
  id : s.id = row.id
  metric : s.metric = row.metric
  tags : s.tags = queryTags row.tags
  tpl : s.tpl = some t
  tplId : t.id = row.tplId

theorem exists_loadedFrom {scanFloat : String → Option F} {hour : String}
    {joined : Rows (hostTemplateRows t)} {id : Int}
    (h : (init scanFloat hour now t joined).strategies.m.lookup id = some s) :
    ∃ row ∈ t.strategy, ∃ tpl, LoadedFrom row tpl s := by
  obtain ⟨⟨s', tid⟩, hscan, tpl, htpl, rfl⟩ := exists_row_of_lookup_queryStrategies h
  obtain ⟨row, hrow, hread⟩ := List.mem_filterMap.mp hscan
  obtain ⟨rightValue, -, heq⟩ := Option.map_eq_some_iff.mp hread
  obtain ⟨rfl, rfl⟩ := Prod.mk.inj heq
  exact ⟨row, (List.mem_filter.mp hrow).1, tpl,
    ⟨rfl, rfl, rfl, rfl, (queryTemplates t.tpl).keyed _ _ htpl⟩⟩

/-! ## What `GetStrategies` returns -/

theorem metric_valStrategy (lastTid : Int) (s : Strategy F) :
    (valStrategy allTpls lastTid s).metric = s.metric := by
  rw [valStrategy]
  split_ifs <;> rfl

theorem tags_valStrategy (lastTid : Int) (s : Strategy F) :
    (valStrategy allTpls lastTid s).tags = s.tags := by
  rw [valStrategy]
  split_ifs <;> rfl

/-- A strategy that is inherited is one of a template in the chain of a bound one. -/
theorem exists_of_mem_calcInheritStrategies {order : RangeOrder F} {strategies : StrategyCache F}
    (h : s ∈ calcInheritStrategies order allTpls tids (tpl2Strategies strategies)) :
    ∃ tid ∈ tids, ∃ pid ∈ parentIds allTpls tid, ∃ lastTid s',
      s = valStrategy allTpls lastTid s' ∧ strategies.m.lookup s'.id = some s' ∧
        s'.tpl.map Template.id = some pid := by
  rw [calcInheritStrategies_eq] at h
  obtain ⟨⟨lastTid, s'⟩, hoffer, rfl⟩ := List.mem_map.mp h
  obtain ⟨bucket, hbucket, -, hexposes⟩ := mem_offers_iff.mp (mem_of_mem_firstWins hoffer)
  have hbucket' : bucket ∈ tplBuckets allTpls tids := (mem_uniqTplBuckets.mp hbucket).1
  obtain ⟨tid, htid, -, rfl⟩ := mem_tplBuckets.mp hbucket'
  obtain ⟨pid, hpid, hs'⟩ := hexposes.exists_mem
  rw [strategiesOf_tpl2Strategies] at hs'
  obtain ⟨hmem, htpl⟩ := List.mem_filter.mp hs'
  obtain ⟨⟨id, s'⟩, hentry, rfl⟩ := List.mem_map.mp hmem
  have hlookup : strategies.m.lookup id = some s' := AList.mem_lookup_iff.mpr hentry
  obtain rfl : s'.id = id := strategies.keyed id s' hlookup
  exact ⟨tid, htid, pid, hpid, lastTid, s', rfl, hlookup, of_decide_eq_true htpl⟩

variable {c : Caches F}

theorem exists_of_mem_getStrategies {visit : Visit c.hostTemplateIds} {order : Int → RangeOrder F}
    {hs : HostStrategy F} (h : hs ∈ getStrategies c visit order) :
    ∃ hid tids host, c.hostTemplateIds.lookup hid = some tids ∧
      c.monitoredHosts.lookup hid = some host ∧ hs.hostname = host.name ∧
      hs.strategies = calcInheritStrategies (order hid) c.templateCache tids
        (tpl2Strategies c.strategies) := by
  rw [getStrategies] at h
  split_ifs at h
  case neg =>
    obtain ⟨⟨hid, tids⟩, hentry, hround⟩ := List.mem_filterMap.mp h
    rw [hostStrategy] at hround
    cases hhost : c.monitoredHosts.lookup hid with
    | none => simp [hhost] at hround
    | some host =>
      simp only [hhost] at hround
      split_ifs at hround
      obtain rfl := Option.some.inj hround
      exact ⟨hid, tids, host, visit.mem_entries.mp hentry, hhost, rfl, rfl⟩
  all_goals exact absurd h List.not_mem_nil

/-! ## What `GetBuiltinMetrics` returns -/

variable {b : BuiltinMetric}

/-- Metrics the database selects, written in front of their tags, can be told apart. -/
theorem MetricTest.eq_of_append_eq (test : MetricTest) {b' : BuiltinMetric}
    (h : test.selects b.metric = true) (h' : test.selects b'.metric = true)
    (heq : b.metric ++ b.tags = b'.metric ++ b'.tags) : b = b' := by
  have hlist : b.metric.toList ++ b.tags.toList = b'.metric.toList ++ b'.tags.toList := by
    rw [← String.toList_append, ← String.toList_append, heq]
  have hmetric : b.metric = b'.metric := by
    rcases List.prefix_or_prefix_of_prefix (List.prefix_append _ b.tags.toList)
      (hlist ▸ List.prefix_append b'.metric.toList b'.tags.toList) with hpre | hpre
    · exact test.eq_of_isPrefix _ _ h h' hpre
    · exact (test.eq_of_isPrefix _ _ h' h hpre).symm
  rw [hmetric] at hlist
  have htags : b.tags = b'.tags := String.toList_inj.mp (List.append_cancel_left hlist)
  obtain ⟨metric, tags⟩ := b
  obtain ⟨metric', tags'⟩ := b'
  exact congrArg₂ BuiltinMetric.mk hmetric htags

variable {test : MetricTest}

/-- **The pairs returned are those of the rows selected.** -/
theorem mem_queryBuiltinMetrics {tids : Finset Int} {rows : List StrategyRow} :
    b ∈ queryBuiltinMetrics test tids rows ↔
      ∃ row ∈ rows, row.tplId ∈ tids ∧ test.selects row.metric = true ∧
        b = ⟨row.metric, row.tags⟩ := by
  have hmem : ∀ b, b ∈ (rows.filter fun row => row.tplId ∈ tids ∧ test.selects row.metric).map
      (fun row => (⟨row.metric, row.tags⟩ : BuiltinMetric)) ↔
      ∃ row ∈ rows, row.tplId ∈ tids ∧ test.selects row.metric = true ∧
        b = ⟨row.metric, row.tags⟩ := by
    intro b
    simp only [List.mem_map, List.mem_filter, decide_eq_true_eq, and_assoc, @eq_comm _ b]
  rw [queryBuiltinMetrics, mem_firstWins_of_injOn, hmem]
  intro b hb b' hb' heq
  obtain ⟨row, -, -, hselects, rfl⟩ := (hmem b).mp hb
  obtain ⟨row', -, -, hselects', rfl⟩ := (hmem b').mp hb'
  exact test.eq_of_append_eq hselects hselects' heq

theorem nodup_getBuiltinMetrics (c : Caches F) (test : MetricTest) (rows : List StrategyRow)
    (hostname : String) : (getBuiltinMetrics c test rows hostname).Nodup := by
  rw [getBuiltinMetrics]
  split
  · exact List.nodup_nil
  · split
    · exact List.nodup_nil
    · dsimp only
      split_ifs
      · exact List.nodup_nil
      · exact List.Nodup.of_map _ (nodup_map_firstWins [] _)

/-- The rows of a template bound to a group of the host, or of one of its ancestors, are
collected. -/
theorem mem_getBuiltinMetrics {rows : List StrategyRow} {hostname : String} {hid gid : Int}
    {gids : List Int} {row : StrategyRow} (hhost : c.hostMap.lookup hostname = some hid)
    (hgids : c.hostGroupsMap.lookup hid = some gids) (hgid : gid ∈ gids)
    (htids : c.groupTemplates.lookup gid = some tids) (htid : tid ∈ tids)
    (hparent : row.tplId ∈ parentIds c.templateCache tid) (hrow : row ∈ rows)
    (hselects : test.selects row.metric = true) :
    ⟨row.metric, row.tags⟩ ∈ getBuiltinMetrics c test rows hostname := by
  have hmem : tid ∈ (gids.flatMap fun gid => (c.groupTemplates.lookup gid).getD []).toFinset := by
    rw [List.mem_toFinset, List.mem_flatMap]
    exact ⟨gid, hgid, by rw [htids]; exact htid⟩
  simp only [getBuiltinMetrics, hhost, hgids]
  rw [if_neg (Finset.ne_empty_of_mem hmem)]
  refine mem_queryBuiltinMetrics.mpr ⟨row, hrow, ?_, hselects, rfl⟩
  rw [Finset.mem_union, Finset.mem_biUnion]
  exact Or.inr ⟨tid, hmem, List.mem_toFinset.mpr hparent⟩

/-- A host in a group, bound twice, whose template inherits its one strategy. -/
def sampleTables : Tables where
  host := [⟨7, "web", 0, 0⟩]
  grpHost := [(1, 7), (1, 7)]
  grpTpl := [(1, 2)]
  tpl := [⟨1, "base", 0, 0, "root"⟩, ⟨2, "web", 1, 0, "root"⟩]
  strategy :=
    [⟨5, "proc.num", "name=sshd", "all(#3)", "==", "0", 3, 0, "", "", "", 1⟩]
  host_id := by decide
  host_hostname := by decide
  tpl_id := by decide
  strategy_id := by decide

/-- The caches of the sample, at noon. -/
def sampleCaches : Caches Int :=
  init (fun _ => some 0) "12:00" 100 sampleTables (Rows.stored _)

end OpenFalcon.Hbs
