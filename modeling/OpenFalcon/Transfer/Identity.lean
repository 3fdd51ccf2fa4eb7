import OpenFalcon.Common.Name
import OpenFalcon.Graph.Delete
import OpenFalcon.Graph.Query
import OpenFalcon.Judge.Series
import OpenFalcon.Transfer.Receive

/-!
# One series across the modules

Five modules compute the name of a series.  Transfer routes a point by `PK` of its data; graph
caches it, keeps its history and indexes it under the `Checksum` of the item it received; the
index stores an endpoint and a counter; and at query time api routes by `PK2` of these two, and
graph looks up the md5 of the two joined by a slash.  All of them get the same name, whatever the
order in which each of them sees the tags (`components_agree`).

The name does not always tell the series.  Two series that the intake accepts are kept apart, in
the cache, on the disk, in the history of the judge and in its events, exactly if neither name is
the other recut (`series_apart_iff`).
-/

namespace OpenFalcon.Transfer

open Numeric Common OpenFalcon.Graph OpenFalcon.Judge

variable {F Node : Type} {d : MetaData F} {minStep : Int} {g : GraphItem F} {x : JudgeItem F}

/-! ## The source -/

/-- The node of `Push2GraphSendQueue`: that of the ring at the primary key. -/
def graphNode (ring : String → Node) (item : MetaData F) : Node := ring item.pk

/-- `selectPool`: the node api asks about a counter. -/
def selectPool (ring : String → Node) (endpoint counter : String) : Node :=
  ring (pk2 endpoint counter)

/-- What `updateIndexFromOneItem` writes: the endpoint, its tags, and the row of the counter. -/
structure IndexRow where
  endpoint : String
  ts : Int
  tags : List String
  counter : String
  step : Int
  dsType : String

/-- `updateIndexFromOneItem`. -/
def updateIndexFromOneItem (item : GraphItem F) : IndexRow where
  endpoint := item.endpoint
  ts := item.timestamp
  tags := item.tags.entries.map fun tag => tag.1 ++ "=" ++ tag.2
  counter :=
    if 0 < item.tags.entries.length then item.metric ++ "/" ++ sortedTags item.tags
    else item.metric
  step := item.step
  dsType := item.dsType

/-! ## Items on the wire -/

/-- An item that transfer makes of data for graph, with the tags in the order the receiver
happens to have them in. -/
structure IsGraphItem (minStep : Int) (d : MetaData F) (g : GraphItem F) : Prop where
  convert : convert2GraphItem minStep d = some { g with tags := d.tags }
  tags : g.tags.entries.Perm d.tags.entries

/-- An item that transfer makes of data for judge. -/
structure IsJudgeItem (minStep : Int) (d : MetaData F) (x : JudgeItem F) : Prop where
  convert : convert2JudgeItem minStep d = { x with tags := d.tags }
  tags : x.tags.entries.Perm d.tags.entries

/-- What every item for graph takes over from the data. -/
theorem endpoint_metric_of_convert2GraphItem (h : convert2GraphItem minStep d = some g) :
    g.endpoint = d.endpoint ∧ g.metric = d.metric := by
  unfold convert2GraphItem at h
  split_ifs at h <;> obtain rfl := Option.some.inj h <;> exact ⟨rfl, rfl⟩

theorem IsGraphItem.endpoint (h : IsGraphItem minStep d g) : g.endpoint = d.endpoint :=
  (endpoint_metric_of_convert2GraphItem h.convert).1

theorem IsGraphItem.metric (h : IsGraphItem minStep d g) : g.metric = d.metric :=
  (endpoint_metric_of_convert2GraphItem h.convert).2

/-- **An item for graph has the name of its data.** -/
theorem IsGraphItem.pk_eq (h : IsGraphItem minStep d g) : pk g.endpoint g.metric g.tags = d.pk := by
  rw [h.endpoint, h.metric, MetaData.pk, pk_congr _ _ h.tags]

theorem IsGraphItem.checksum_eq (h : IsGraphItem minStep d g) (env : NodeEnv) :
    checksum env g = env.md5 d.pk := by
  rw [checksum, h.pk_eq]

/-- **An item for judge has the name of its data.** -/
theorem IsJudgeItem.pk_eq (h : IsJudgeItem minStep d x) : pk x.endpoint x.metric x.tags = d.pk := by
  have hendpoint : d.endpoint = x.endpoint := congrArg JudgeItem.endpoint h.convert
  have hmetric : d.metric = x.metric := congrArg JudgeItem.metric h.convert
  rw [← hendpoint, ← hmetric, MetaData.pk, pk_congr _ _ h.tags]

theorem IsJudgeItem.primaryKey_eq [Float64 F] (h : IsJudgeItem minStep d x)
    (md5 : String → String) :
    x.primaryKey md5 = md5 d.pk := by
  rw [JudgeItem.primaryKey, h.pk_eq]

/-- **The counter in the index is the counter of the item.** -/
theorem counter_updateIndexFromOneItem (item : GraphItem F) :
    (updateIndexFromOneItem item).counter = counter item.metric item.tags := by
  by_cases h : item.tags.entries = []
  · rw [counter_of_nil h, updateIndexFromOneItem, h]
    rfl
  · rw [counter_of_ne_nil h]
    exact if_pos (List.length_pos_iff.mpr h)

/-! ## The components agree -/

/-- Whoever computes the name of the data gets the same: transfer and api the node, graph the
key it cached the points under, the file, and the key of the history. -/
structure Agree [Float64 F] (env : NodeEnv) (queryEnv : QueryEnv F) (ring : String → Node)
    (d : MetaData F) (g : GraphItem F) (row : IndexRow) : Prop where
  pk : d.pk = pk2 row.endpoint row.counter
  node : graphNode ring d = selectPool ring row.endpoint row.counter
  checksum : checksum env g = env.md5 (row.endpoint ++ "/" ++ row.counter)
  key : ∀ param : GraphQueryParam, param.endpoint = row.endpoint → param.counter = row.counter →
    queryEnv.cacheKey param row.dsType row.step = itemKey env g
  file : rrdFileName env.cfg.storage (env.md5 (row.endpoint ++ "/" ++ row.counter)) row.dsType
    row.step = rrdFileName env.cfg.storage (Graph.checksum env g) g.dsType g.step
  history : ∀ (s : Server F) (item : GraphItem F),
    s.history.getLastItem (Graph.checksum env g) = some item →
      s.getLastRaw env row.endpoint row.counter = ⟨item.timestamp, item.value⟩

/-- **All modules agree on the name of a series.**  The two primary keys are equal for every
endpoint, metric and order of the tags; so transfer sends a point to the node that api asks, and
graph looks up the key, the file and the history that it was written to, in whatever order
`g` was received and `g'` was indexed. -/
theorem components_agree [Float64 F] (env : NodeEnv) (queryEnv : QueryEnv F)
    (hmd5 : queryEnv.md5 = env.md5) (ring : String → Node) :
    (∀ (endpoint metric : String) (tags tags' : Tags), tags.entries.Perm tags'.entries →
      pk endpoint metric tags = pk2 endpoint (counter metric tags')) ∧
    ∀ (minStep : Int) (d : MetaData F) (g g' : GraphItem F), IsGraphItem minStep d g →
      IsGraphItem minStep d g' →
        Agree env queryEnv ring d g (updateIndexFromOneItem g') := by
  refine ⟨fun endpoint metric tags tags' hperm => ?_, fun minStep d g g' hg hg' => ?_⟩
  · rw [pk_congr _ _ hperm, pk_eq_pk2]
  · have hname : pk2 g'.endpoint (updateIndexFromOneItem g').counter = d.pk := by
      rw [counter_updateIndexFromOneItem, ← pk_eq_pk2, hg'.pk_eq]
    have hchecksum : checksum env g =
        env.md5 (g'.endpoint ++ "/" ++ (updateIndexFromOneItem g').counter) := by
      rw [hg.checksum_eq, ← hname, pk2]
    -- both items have the type and the step of the data
    have hsame : ({ g with tags := d.tags } : GraphItem F) = { g' with tags := d.tags } :=
      Option.some.inj (hg.convert.symm.trans hg'.convert)
    have hdsType := congrArg GraphItem.dsType hsame
    have hstep := congrArg GraphItem.step hsame
    simp only at hdsType hstep
    exact
      { pk := hname.symm
        node := by
          show ring d.pk = ring (pk2 g'.endpoint _)
          rw [hname]
        checksum := hchecksum
        key := by
          intro param hendpoint hcounter
          rw [QueryEnv.cacheKey, hmd5, hendpoint, hcounter, itemKey, hchecksum, hdsType, hstep]
          rfl
        file := by
          rw [hchecksum, hdsType, hstep]
          rfl
        history := by
          intro s item hlast
          rw [hchecksum] at hlast
          show s.getLastRaw env g'.endpoint _ = _
          rw [Server.getLastRaw, hlast] }

section Apart

variable [Float64 F] {parseFloat : String → Option F} {L : List (JudgeItem F)}
  {minInterval now : Int} {j : Judgement F}

/-! ## Series kept apart -/

/-- Nothing of the two series is stored in one place. -/
structure Apart (env : NodeEnv) (d d' : MetaData F) : Prop where
  pk : d.pk ≠ d'.pk
  cache : ∀ minStep minStep' g g', IsGraphItem minStep d g → IsGraphItem minStep' d' g' →
    itemKey env g ≠ itemKey env g'
  file : ∀ minStep minStep' g g', IsGraphItem minStep d g → IsGraphItem minStep' d' g' →
    rrdFileName env.cfg.storage (checksum env g) g.dsType g.step ≠
      rrdFileName env.cfg.storage (checksum env g') g'.dsType g'.step
  history : ∀ minStep minStep' x x', IsJudgeItem minStep d x → IsJudgeItem minStep' d' x' →
    x.primaryKey env.md5 ≠ x'.primaryKey env.md5
  event : ∀ minStep minStep' x x', IsJudgeItem minStep d x → IsJudgeItem minStep' d' x' →
    ∀ (rule rule' : Rule F) (L L' : List (JudgeItem F)) (now now' minInterval minInterval' : Int)
      (j j' : Judgement F), rule.judge env.md5 x L now minInterval = some (some j) →
        rule'.judge env.md5 x' L' now' minInterval' = some (some j') → j.event.id ≠ j'.event.id

/-- The event of a judgement is one of those `judgeItem` was given. -/
theorem event_of_judgeItem {fn : Function F} {event : F → EventBody F} {maxStep : Int}
    (h : judgeItem fn event maxStep L now minInterval = some (some j)) :
    ∃ leftValue, j.event = event leftValue := by
  obtain ⟨r, -, hr⟩ := Option.map_eq_some_iff.mp h
  split at hr
  · obtain rfl := Option.some.inj hr
    exact ⟨r.leftValue, rfl⟩
  · cases hr

/-- The id of an event ends in the key of the series. -/
theorem exists_id_eq_of_judge {md5 : String → String} {rule : Rule F} {x : JudgeItem F}
    (h : rule.judge md5 x L now minInterval = some (some j)) :
    ∃ start, j.event.id = start ++ x.primaryKey md5 := by
  cases rule with
  | strategy s fn =>
    rw [Rule.judge, judgeItemWithStrategy] at h
    obtain ⟨leftValue, hevent⟩ := event_of_judgeItem h
    exact ⟨"s_" ++ toString s.id ++ "_", by rw [hevent]⟩
  | expression e fn =>
    rw [Rule.judge, judgeItemWithExpression] at h
    obtain ⟨leftValue, hevent⟩ := event_of_judgeItem h
    exact ⟨"e_" ++ toString e.id ++ "_", by rw [hevent]⟩

/-- **Series with different checksums are kept apart.** -/
theorem apart_of_md5_ne {env : NodeEnv} (hmd5 : IsMd5 env.md5) {d d' : MetaData F}
    (hne : env.md5 d.pk ≠ env.md5 d'.pk) : Apart env d d' := by
  have hcache : ∀ minStep minStep' g g', IsGraphItem minStep d g → IsGraphItem minStep' d' g' →
      itemKey env g ≠ itemKey env g' := by
    intro minStep minStep' g g' hg hg' hkey
    rw [itemKey, itemKey, hg.checksum_eq, hg'.checksum_eq] at hkey
    exact hne (hmd5.eq_of_formRrdCacheKey_eq hkey)
  exact
    { pk := fun hpk => hne (congrArg env.md5 hpk)
      cache := hcache
      file := fun minStep minStep' g g' hg hg' hfile =>
        hcache minStep minStep' g g' hg hg' (formRrdCacheKey_eq_of_rrdFileName_eq hmd5 hfile)
      history := by
        intro minStep minStep' x x' hx hx'
        rw [hx.primaryKey_eq, hx'.primaryKey_eq]
        exact hne
      event := by
        intro minStep minStep' x x' hx hx' rule rule' L L' now now' minInterval minInterval' j j'
          hj hj' hid
        obtain ⟨start, hstart⟩ := exists_id_eq_of_judge hj
        obtain ⟨start', hstart'⟩ := exists_id_eq_of_judge hj'
        rw [hstart, hstart', hx.primaryKey_eq, hx'.primaryKey_eq, ← String.toList_inj,
          String.toList_append, String.toList_append] at hid
        have hlength := (hmd5.length d.pk).trans (hmd5.length d'.pk).symm
        exact hne (String.toList_inj.mp (List.append_inj' hid hlength).2) }

/-- One name is the other recut. -/
def MetaData.Recut (d d' : MetaData F) : Prop :=
  Common.Recut d.endpoint d.metric d.tags d'.endpoint d'.metric d'.tags

/-- **Two series are kept apart exactly if neither name is the other recut.**  Both are accepted
and differ in endpoint, metric or tags; of `md5` it is assumed that it is 32 digits and does not
collide on the two names. -/
theorem series_apart_iff {env : NodeEnv} (hmd5 : IsMd5 env.md5) {now now' : Int}
    {v v' : Option (MetricValue F)} {d d' : MetaData F}
    (haccepted : recvMetricValue parseFloat now v = some d)
    (haccepted' : recvMetricValue parseFloat now' v' = some d')
    (hdiffer : d.endpoint ≠ d'.endpoint ∨ d.metric ≠ d'.metric ∨
      ¬d.tags.entries.Perm d'.tags.entries)
    (hcollide : env.md5 d.pk = env.md5 d'.pk → d.pk = d'.pk) :
    Apart env d d' ↔ ¬d.Recut d' ∧ ¬d'.Recut d := by
  have hiff : d.pk = d'.pk ↔ _ := pk_eq_pk_iff (cleanTags_of_recvMetricValue haccepted)
    (cleanTags_of_recvMetricValue haccepted')
  have hsame : ¬(d.endpoint = d'.endpoint ∧ d.metric = d'.metric ∧
      d.tags.entries.Perm d'.tags.entries) := by
    rintro ⟨hendpoint, hmetric, htags⟩
    rcases hdiffer with hne | hne | hne
    · exact hne hendpoint
    · exact hne hmetric
    · exact hne htags
  have hpk : d.pk = d'.pk ↔ d.Recut d' ∨ d'.Recut d := hiff.trans (or_iff_right hsame)
  rw [← not_or, ← hpk]
  exact ⟨fun h => h.pk, fun h => apart_of_md5_ne hmd5 fun hsum => h (hcollide hsum)⟩

end Apart

/-! ## Examples -/

/-- A gauge of the value 7. -/
def gauge (endpoint metric tags : String) : MetricValue QFloat :=
  ⟨endpoint, metric, .int 7, 60, GAUGE, tags, 0⟩

/-- What the intake makes of it at the time 100. -/
def gaugeData (endpoint metric tags : String) : MetaData QFloat :=
  dataOf 100 (gauge endpoint metric tags) (.num 7)

theorem recvMetricValue_gauge {parseFloat : String → Option QFloat}
    {endpoint metric tags : String} (hmetric : metric ≠ "")
    (hhostname : metric ≠ "kernel.hostname") (hendpoint : endpoint ≠ "")
    (hsize : metric.utf8ByteSize + tags.utf8ByteSize ≤ 510) :
    recvMetricValue parseFloat 100 (some (gauge endpoint metric tags)) =
      some (gaugeData endpoint metric tags) := by
  have hstep : (0 : Int) < 60 := by decide
  exact recvMetricValue_eq_some_iff.mpr ⟨gauge endpoint metric tags, .num 7, rfl,
    ⟨hhostname, hmetric, hendpoint, Or.inr (Or.inl rfl), rfl, hstep, hsize, rfl⟩, rfl, rfl⟩

/-- Its item for graph, with the tags as given. -/
def itemOfGauge (endpoint metric : String) (tags : Tags) : GraphItem QFloat :=
  ⟨endpoint, metric, tags, .num 7, 60, GAUGE, 60, 120, "U", "U"⟩

theorem isGraphItem_gauge (endpoint metric text : String) {tags : Tags}
    (h : tags.entries.Perm (dictedTagstring text).entries) :
    IsGraphItem 60 (gaugeData endpoint metric text) (itemOfGauge endpoint metric tags) :=
  ⟨rfl, h⟩

/-- The tags of a text, the other way round. -/
def reversedTags (text : String) : Tags :=
  ⟨(dictedTagstring text).entries.reverse,
    (List.perm_nodupKeys (List.reverse_perm _)).mpr (dictedTagstring text).nodupKeys⟩

/-- The modules agree on a gauge that is cached with its tags one way round and indexed with
them the other way round. -/
theorem components_agree_two_orders :
    (dictedTagstring "a=1,b=2").entries ≠ (reversedTags "a=1,b=2").entries ∧
      Agree loadEnv
        (⟨fun _ _ => none, fun _ => ([], 0), loadEnv.md5, "", false, fun _ => [],
          fun _ _ _ _ _ => none, 0⟩ : QueryEnv QFloat)
        String.length (gaugeData "host" "cpu" "a=1,b=2")
        (itemOfGauge "host" "cpu" (dictedTagstring "a=1,b=2"))
        (updateIndexFromOneItem (itemOfGauge "host" "cpu" (reversedTags "a=1,b=2"))) := by
  refine ⟨by decide +kernel, ?_⟩
  exact (components_agree loadEnv _ rfl String.length).2 60 _ _ _
    (isGraphItem_gauge "host" "cpu" "a=1,b=2" (List.Perm.refl _))
    (isGraphItem_gauge "host" "cpu" "a=1,b=2" (List.reverse_perm _))

/-- A checksum that tells one name from all others. -/
def nameEnv (name : String) : NodeEnv :=
  ⟨⟨"", false⟩, fun s => String.ofList (List.replicate 32 (if s = name then '0' else '1')),
    fun _ => true⟩

theorem isMd5_nameEnv (name : String) : IsMd5 (nameEnv name).md5 where
  length s := by simp [nameEnv]
  hex s c hc := by
    simp only [nameEnv, String.toList_ofList] at hc
    rw [List.eq_of_mem_replicate hc]
    split <;> decide

/-- Two gauges of one host are kept apart. -/
theorem series_apart_two_gauges :
    Apart (nameEnv "host/cpu/a=1") (gaugeData "host" "cpu" "a=1")
      (gaugeData "host" "cpu" "a=2") := by
  have hpk : (gaugeData "host" "cpu" "a=1").pk = "host/cpu/a=1" := by decide +kernel
  have hpk' : (gaugeData "host" "cpu" "a=2").pk = "host/cpu/a=2" := by decide +kernel
  have haccepted : recvMetricValue (fun _ => none) 100 (some (gauge "host" "cpu" "a=1")) = _ :=
    recvMetricValue_gauge (by decide) (by decide) (by decide) (by decide)
  have haccepted' : recvMetricValue (fun _ => none) 100 (some (gauge "host" "cpu" "a=2")) = _ :=
    recvMetricValue_gauge (by decide) (by decide) (by decide) (by decide)
  refine (series_apart_iff (isMd5_nameEnv _) haccepted haccepted' ?_ ?_).mpr ⟨?_, ?_⟩
  · exact Or.inr (Or.inr (by decide +kernel))
  · rw [hpk, hpk']
    exact fun h => absurd h (by decide +kernel)
  · exact not_recut_of_notMem (by decide) (by decide)
  · exact not_recut_of_notMem (by decide) (by decide)

/-- A host with a slash in its name and a metric with one: two values that differ in endpoint
and metric, and two that differ in metric and tags, are accepted and stored in one place. -/
theorem series_share_storage :
    (∃ d d' : MetaData QFloat,
      recvMetricValue (fun _ => none) 100 (some (gauge "idc/web" "cpu" "")) = some d ∧
      recvMetricValue (fun _ => none) 100 (some (gauge "idc" "web/cpu" "")) = some d' ∧
      d.endpoint ≠ d'.endpoint ∧ d.metric ≠ d'.metric ∧ d.pk = d'.pk ∧
      ∀ (env : NodeEnv) (g g' : GraphItem QFloat), convert2GraphItem 60 d = some g →
        convert2GraphItem 60 d' = some g' → itemKey env g = itemKey env g') ∧
    ∃ d d' : MetaData QFloat,
      recvMetricValue (fun _ => none) 100 (some (gauge "host" "cpu" "a=1")) = some d ∧
      recvMetricValue (fun _ => none) 100 (some (gauge "host" "cpu/a=1" "")) = some d' ∧
      d.metric ≠ d'.metric ∧ ¬d.tags.entries.Perm d'.tags.entries ∧ d.pk = d'.pk ∧
      ∀ md5, (convert2JudgeItem 60 d).primaryKey md5 =
        (convert2JudgeItem 60 d').primaryKey md5 := by
  have hpk : pk "idc/web" "cpu" ∅ = pk "idc" "web/cpu" ∅ := by decide +kernel
  have hpk' : (gaugeData "host" "cpu" "a=1").pk = (gaugeData "host" "cpu/a=1" "").pk := by
    decide +kernel
  refine ⟨⟨gaugeData "idc/web" "cpu" "", gaugeData "idc" "web/cpu" "",
      recvMetricValue_gauge (by decide) (by decide) (by decide) (by decide),
      recvMetricValue_gauge (by decide) (by decide) (by decide) (by decide),
      by decide, by decide, hpk, ?_⟩,
    gaugeData "host" "cpu" "a=1", gaugeData "host" "cpu/a=1" "",
    recvMetricValue_gauge (by decide) (by decide) (by decide) (by decide),
    recvMetricValue_gauge (by decide) (by decide) (by decide) (by decide),
    by decide, by decide +kernel, hpk', fun md5 => congrArg md5 hpk'⟩
  intro env g g' hg hg'
  obtain rfl : itemOfGauge "idc/web" "cpu" ∅ = g := Option.some.inj hg
  obtain rfl : itemOfGauge "idc" "web/cpu" ∅ = g' := Option.some.inj hg'
  exact congrArg (fun name => formRrdCacheKey (env.md5 name) GAUGE 60) hpk

end OpenFalcon.Transfer
