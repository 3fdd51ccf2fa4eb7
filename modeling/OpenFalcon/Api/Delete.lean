import OpenFalcon.Transfer.Identity

/-!
# Deleting counters

`DeleteGraphCounter` and `DeleteGraphEndpoint` read rows of the index, make a parameter of each
and pass them to `Delete` of `modules/api/graph`, which calls `Graph.Delete` on the nodes; then
they delete the rows, whatever came of the calls.

A row has the counter as one text.  The parameter has a metric and tags, cut out of it at the
first slash; api reads the tags to find the node, and the node reads them again and removes what
is stored under the name it gets.  A metric may have slashes too, and then the cut is at the
wrong place.  The request removes exactly the series of the row if the metric has no slash, or if
what follows its first slash happens to be the text of tags; otherwise the row goes away and its
data stay, or the data of another series go (`delete_exact_iff`).
-/

namespace OpenFalcon.Api

open Numeric Common Text Assoc OpenFalcon.Graph Transfer

variable {F Node : Type}

/-! ## The source -/

/-- A row of `endpoint_counter` with its endpoint, as the two handlers select it. -/
structure DBRow where
  endpoint : String
  counterId : Int
  counter : String
  type : String
  step : Int

/-- `model.GraphDeleteParam`. -/
structure GraphDeleteParam where
  endpoint : String
  metric : String
  tags : String
  dsType : String
  step : Int
deriving DecidableEq

/-- The parameter of a row: metric and tags by `SplitN(row.Counter, "/", 2)`. -/
def deleteParam (row : DBRow) : GraphDeleteParam :=
  match cut '/' row.counter.toList with
  | none => ⟨row.endpoint, row.counter, "", row.type, row.step⟩
  | some (metric, tags) =>
    ⟨row.endpoint, String.ofList metric, String.ofList tags, row.type, row.step⟩

/-- The primary key `Delete` routes a parameter by, if its tags can be read. -/
def GraphDeleteParam.pk (para : GraphDeleteParam) : Option String :=
  match splitTagsString para.tags with
  | .ok tags => some (pk2 para.endpoint (counter para.metric tags))
  | .error _ => none

/-- The map `nodes` of `Delete`: the parameters by their primary keys. -/
def deleteNodes (params : List GraphDeleteParam) : GoMap String (List GraphDeleteParam) :=
  groupBy GraphDeleteParam.pk params

/-- `Delete` of api: the calls of `Graph.Delete`, each with the node it is for. -/
def delete (ring : String → Node) {params : List GraphDeleteParam}
    (visit : Visit (deleteNodes params)) : List (Node × List GraphDeleteParam) :=
  visit.entries.map fun e => (ring e.1, e.2)

section Graph

variable [Float64 F]

/-- The item `Graph.Delete` makes of a parameter, if its tags can be read. -/
def GraphDeleteParam.item (param : GraphDeleteParam) : Option (GraphItem F) :=
  match splitTagsString param.tags with
  | .ok tags =>
    some ⟨param.endpoint, param.metric, tags, Float64.ofRat 0, 0, param.dsType, param.step, 0, "",
      ""⟩
  | .error _ => none

variable (F) in
/-- `Delete` of graph: the items it passes to `RemoveItem`. -/
def graphDelete (params : List GraphDeleteParam) : List (GraphItem F) :=
  params.filterMap GraphDeleteParam.item

end Graph

/-- What a handler does: the calls it attempts, the ids of the counters and the endpoints it
deletes from MySQL. -/
structure Deletion (Node : Type) where
  calls : List (Node × List GraphDeleteParam)
  counterIds : List Int
  endpoints : List String

/-- The parameters of the rows that were selected. -/
def deleteParams (rows : List DBRow) : List GraphDeleteParam := rows.map deleteParam

/-- `DeleteGraphCounter`, from the rows it selected; `committed` says whether MySQL carried out
the transaction. -/
def deleteGraphCounter (ring : String → Node) (rows : List DBRow)
    (visit : Visit (deleteNodes (deleteParams rows))) (committed : Bool) : Deletion Node :=
  if rows.isEmpty then ⟨[], [], []⟩
  else ⟨delete ring visit, if committed then rows.map DBRow.counterId else [], []⟩

/-- `DeleteGraphEndpoint`, for the endpoints `inputs` and the rows it selected. -/
def deleteGraphEndpoint (ring : String → Node) (inputs : List String) (rows : List DBRow)
    (visit : Visit (deleteNodes (deleteParams rows))) (committed : Bool) : Deletion Node where
  calls := if rows.isEmpty then [] else delete ring visit
  counterIds := if committed then rows.map DBRow.counterId else []
  endpoints := if committed then inputs else []

/-! ## What is removed -/

/-- What `RemoveItem` of an item takes away at a node: the index entries of a checksum, the
cached points of a key, and a file. -/
structure Target (Node : Type) where
  node : Node
  checksum : String
  key : String
  file : String
deriving DecidableEq

/-- What `RemoveItem` of the item takes away at the node. -/
def targetOf (env : NodeEnv) (node : Node) (item : GraphItem F) : Target Node :=
  ⟨node, checksum env item, itemKey env item,
    rrdFileName env.cfg.storage (checksum env item) item.dsType item.step⟩

/-- The target with a given name. -/
def targetNamed (env : NodeEnv) (ring : String → Node) (name dsType : String) (step : Int) :
    Target Node :=
  ⟨ring name, env.md5 name, formRrdCacheKey (env.md5 name) dsType step,
    rrdFileName env.cfg.storage (env.md5 name) dsType step⟩

variable (F) in
/-- All that the calls take away. -/
def targets [Float64 F] (env : NodeEnv) (calls : List (Node × List GraphDeleteParam)) :
    List (Target Node) :=
  calls.flatMap fun call => (graphDelete F call.2).map (targetOf env call.1)

/-- What a row takes away. -/
def rowTarget (env : NodeEnv) (ring : String → Node) (row : DBRow) : Option (Target Node) :=
  (deleteParam row).pk.map fun name => targetNamed env ring name row.type row.step

variable (ring : String → Node)

theorem delete_nil (visit : Visit (deleteNodes [])) : delete ring visit = [] := by
  have hnil : visit.entries = [] := visit.perm.eq_nil
  rw [delete, hnil, List.map_nil]

theorem calls_deleteGraphCounter (rows : List DBRow)
    (visit : Visit (deleteNodes (deleteParams rows))) (committed : Bool) :
    (deleteGraphCounter ring rows visit committed).calls = delete ring visit := by
  cases rows with
  | nil => exact (delete_nil ring visit).symm
  | cons row rows => rfl

theorem calls_deleteGraphEndpoint (inputs : List String) (rows : List DBRow)
    (visit : Visit (deleteNodes (deleteParams rows))) (committed : Bool) :
    (deleteGraphEndpoint ring inputs rows visit committed).calls = delete ring visit := by
  cases rows with
  | nil => exact (delete_nil ring visit).symm
  | cons row rows => rfl

theorem deleteParam_dsType (row : DBRow) :
    (deleteParam row).dsType = row.type ∧ (deleteParam row).step = row.step := by
  unfold deleteParam
  split <;> exact ⟨rfl, rfl⟩

section Targets

variable [Float64 F]

/-- Both sides read the tags alike: a node that is sent a parameter removes what has the name the
parameter was routed by. -/
theorem map_item_of_pk {env : NodeEnv} {para : GraphDeleteParam} {name : String}
    (h : para.pk = some name) (ring : String → Node) :
    (para.item : Option (GraphItem F)).map (targetOf env (ring name)) =
      some (targetNamed env ring name para.dsType para.step) := by
  cases htags : splitTagsString para.tags with
  | error err => simp [GraphDeleteParam.pk, htags] at h
  | ok tags =>
    simp only [GraphDeleteParam.pk, htags, Option.some.injEq] at h
    subst h
    simp only [GraphDeleteParam.item, htags, Option.map_some, targetOf, targetNamed, itemKey,
      checksum, pk_eq_pk2]

/-- **A request takes away what its rows do**, each once, whatever the order of the calls. -/
theorem perm_targets_delete (env : NodeEnv) (ring : String → Node) (rows : List DBRow)
    (visit : Visit (deleteNodes (deleteParams rows))) :
    (targets F env (delete ring visit)).Perm (rows.filterMap (rowTarget env ring)) := by
  let take : String → GraphDeleteParam → Option (Target Node) := fun name para =>
    (para.item : Option (GraphItem F)).map (targetOf env (ring name))
  have htargets : targets F env (delete ring visit) =
      (visit.entries.flatMap fun e => e.2.map (take e.1)).filterMap id := by
    simp only [targets, delete, graphDelete, List.flatMap_map, List.filterMap_flatMap,
      List.filterMap_map, List.map_filterMap, Function.id_comp]
    rfl
  have hrows : ((deleteParams rows).filterMap fun para =>
      para.pk.map fun name => take name para).filterMap id =
        rows.filterMap (rowTarget env ring) := by
    rw [List.filterMap_filterMap, deleteParams, List.filterMap_map]
    refine List.filterMap_congr fun row _ => ?_
    unfold rowTarget
    simp only [Function.comp_apply]
    cases hpk : (deleteParam row).pk with
    | none => rfl
    | some name =>
      have hrow := deleteParam_dsType row
      simp only [Option.map_some, Option.bind_some, id_eq, take, map_item_of_pk hpk ring, hrow.1,
        hrow.2]
  rw [htargets, ← hrows]
  exact ((visit.perm.flatMap_right _).trans
    (perm_spread_groupBy take GraphDeleteParam.pk (deleteParams rows))).filterMap id

end Targets

/-! ## The name a row is read as -/

/-- The row the index has of an item. -/
def rowOf (id : Int) (item : GraphItem F) : DBRow :=
  let row := updateIndexFromOneItem item
  ⟨row.endpoint, id, row.counter, row.dsType, row.step⟩

/-- **A counter with a slash** is read as itself exactly if what follows its first slash is the
text of tags. -/
theorem pk_deleteParam_slash {row : DBRow} {start rest : String}
    (hrow : row.counter = start ++ "/" ++ rest) (hstart : '/' ∉ start.toList) :
    (deleteParam row).pk = some (pk2 row.endpoint row.counter) ↔
      ∃ tags, CleanTags tags ∧ tags.entries ≠ [] ∧ rest = sortedTags tags := by
  have hparam : deleteParam row = ⟨row.endpoint, start, rest, row.type, row.step⟩ := by
    rw [deleteParam, hrow, toList_slash, cut_append_cons hstart]
    simp only [String.ofList_toList]
  rw [hparam]
  constructor
  · intro h
    cases htags : splitTagsString rest with
    | error err => simp [GraphDeleteParam.pk, htags] at h
    | ok tags =>
      simp only [GraphDeleteParam.pk, htags, Option.some.injEq, pk2, hrow] at h
      have hcounter : counter start tags = start ++ "/" ++ rest := (String.append_right_inj _).mp h
      have hne : tags.entries ≠ [] := by
        intro hnil
        rw [counter_of_nil hnil] at hcounter
        exact ne_slash start rest hcounter
      refine ⟨tags, ?_, hne, ?_⟩
      · rw [eq_dictedTagstring_of_splitTagsString htags]
        exact cleanTags_dictedTagstring rest
      · rw [counter_of_ne_nil hne] at hcounter
        exact ((String.append_right_inj _).mp hcounter).symm
  · rintro ⟨tags, hclean, hne, rfl⟩
    obtain ⟨tags', hsplit, hperm⟩ := hclean.exists_splitTagsString
    simp only [GraphDeleteParam.pk, hsplit, counter_congr start hperm, counter_of_ne_nil hne, hrow]

/-- **A counter without a slash** is read as itself. -/
theorem pk_deleteParam_of_notMem {row : DBRow} (hrow : '/' ∉ row.counter.toList) :
    (deleteParam row).pk = some (pk2 row.endpoint row.counter) := by
  have hparam : deleteParam row = ⟨row.endpoint, row.counter, "", row.type, row.step⟩ := by
    rw [deleteParam, cut_eq_none_iff.mpr hrow]
  rw [hparam]
  rfl

/-- What a row has of a name can be told from it: the metric has no slash, or what follows its
first slash is, with the tags, the text of tags itself. -/
def Recoverable (metric : String) (tags : Tags) : Prop :=
  '/' ∉ metric.toList ∨
    ∃ start rest tags', metric = start ++ "/" ++ rest ∧ '/' ∉ start.toList ∧
      CleanTags tags' ∧ tags'.entries ≠ [] ∧ counter rest tags = sortedTags tags'

/-- **The row of a counter is read as that counter exactly if it is recoverable.** -/
theorem pk_deleteParam_iff {row : DBRow} {metric : String} {tags : Tags}
    (hclean : CleanTags tags) (hrow : row.counter = counter metric tags) :
    (deleteParam row).pk = some (pk2 row.endpoint row.counter) ↔ Recoverable metric tags := by
  by_cases hmetric : '/' ∈ metric.toList
  · obtain ⟨pre, post, hcut, hpre⟩ := List.eq_append_cons_of_mem hmetric
    obtain ⟨start, rest, rfl, hstart⟩ : ∃ start rest, metric = start ++ "/" ++ rest ∧
        '/' ∉ start.toList :=
      ⟨String.ofList pre, String.ofList post, String.toList_inj.mp (by simpa using hcut),
        by simpa using hpre⟩
    rw [counter_slash] at hrow
    rw [pk_deleteParam_slash hrow hstart]
    constructor
    · rintro ⟨tags', hclean', hne, hrest⟩
      exact Or.inr ⟨start, rest, tags', rfl, hstart, hclean', hne, hrest⟩
    · rintro (hno | ⟨start', rest', tags', heq, hstart', hclean', hne, hrest⟩)
      · exact absurd hmetric hno
      · -- the first slash is at one place
        have hlist := congrArg String.toList heq
        rw [toList_slash, toList_slash] at hlist
        obtain ⟨-, hrest'⟩ := eq_of_append_cons_eq hstart hstart' hlist
        rw [String.toList_inj] at hrest'
        exact ⟨tags', hclean', hne, hrest' ▸ hrest⟩
  · refine iff_of_true ?_ (Or.inl hmetric)
    by_cases hnil : tags.entries = []
    · rw [counter_of_nil hnil] at hrow
      exact pk_deleteParam_of_notMem (hrow ▸ hmetric)
    · rw [counter_of_ne_nil hnil] at hrow
      exact (pk_deleteParam_slash hrow hmetric).mpr ⟨tags, hclean, hnil, rfl⟩

/-! ## The request -/

section

variable [Float64 F] {parseFloat : String → Option F} {ring : String → Node} {env : NodeEnv}
  {row : DBRow}

omit [Float64 F] in
theorem targetOf_eq_targetNamed {minStep : Int} {d : MetaData F} {g : GraphItem F}
    (h : IsGraphItem minStep d g) :
    targetOf env (graphNode ring d) g = targetNamed env ring d.pk g.dsType g.step := by
  rw [targetOf, targetNamed, itemKey, h.checksum_eq, graphNode]

omit [Float64 F] in
/-- A target tells its name, where the checksum does. -/
theorem rowTarget_eq_some_iff {name : String}
    (hcollide : ∀ name', (deleteParam row).pk = some name' → env.md5 name' = env.md5 name →
      name' = name)
    :
    rowTarget env ring row = some (targetNamed env ring name row.type row.step) ↔
      (deleteParam row).pk = some name := by
  constructor
  · intro h
    obtain ⟨name', hname', htarget⟩ := Option.map_eq_some_iff.mp h
    have hmd5 : env.md5 name' = env.md5 name := congrArg Target.checksum htarget
    rw [hname', hcollide name' hname' hmd5]
  · intro h
    rw [rowTarget, h, Option.map_some]

variable (F) in
/-- With the row a request takes away what it does without, and the target. -/
def Exact (env : NodeEnv) (own : Target Node) (withRow without : Deletion Node) : Prop :=
  (targets F env withRow.calls).Perm (own :: targets F env without.calls)

/-- A row adds its own target to a request exactly if it is read as that target. -/
theorem perm_targets_row_iff (env : NodeEnv) (ring : String → Node) {before after : List DBRow}
    (own : Target Node) (visit : Visit (deleteNodes (deleteParams (before ++ row :: after))))
    (visit' : Visit (deleteNodes (deleteParams (before ++ after)))) :
    (targets F env (delete ring visit)).Perm (own :: targets F env (delete ring visit')) ↔
      rowTarget env ring row = some own := by
  have hwith := perm_targets_delete (F := F) env ring _ visit
  have hwithout := (perm_targets_delete (F := F) env ring _ visit').cons own
  rw [hwith.congr_left, hwithout.congr_right, perm_cons_filterMap_iff]

/-- **Deleting the row of a counter removes that counter, and nothing else, exactly if its name is
recoverable.**  `d` is accepted, `g` is the item of it that graph received and indexed; the row
is one of any request, and the calls are made in any order.  Of `md5` it is assumed that it does
not collide on the name of `d` and the name that the row is read as. -/
theorem delete_exact_iff (env : NodeEnv) (ring : String → Node) {now minStep : Int}
    {v : Option (MetricValue F)} {d : MetaData F} {g : GraphItem F}
    (haccepted : recvMetricValue parseFloat now v = some d) (hitem : IsGraphItem minStep d g)
    (id : Int)
    (hcollide : ∀ name, (deleteParam (rowOf id g)).pk = some name → env.md5 name = env.md5 d.pk →
      name = d.pk)
    (inputs inputs' : List String) (before after : List DBRow)
    (visit : Visit (deleteNodes (deleteParams (before ++ rowOf id g :: after))))
    (visit' : Visit (deleteNodes (deleteParams (before ++ after)))) (committed : Bool) :
    (Exact F env (targetOf env (graphNode ring d) g)
        (deleteGraphCounter ring (before ++ rowOf id g :: after) visit committed)
        (deleteGraphCounter ring (before ++ after) visit' committed) ∧
      Exact F env (targetOf env (graphNode ring d) g)
        (deleteGraphEndpoint ring inputs (before ++ rowOf id g :: after) visit committed)
        (deleteGraphEndpoint ring inputs' (before ++ after) visit' committed)) ↔
      Recoverable d.metric d.tags := by
  have hrow : (rowOf id g).counter = counter d.metric d.tags := by
    show (updateIndexFromOneItem g).counter = _
    rw [counter_updateIndexFromOneItem, hitem.metric, counter_congr _ hitem.tags]
  have hname : pk2 (rowOf id g).endpoint (rowOf id g).counter = d.pk := by
    show pk2 g.endpoint _ = _
    rw [hrow, hitem.endpoint, MetaData.pk, pk_eq_pk2]
  have hown : rowTarget env ring (rowOf id g) = some (targetOf env (graphNode ring d) g) ↔
      Recoverable d.metric d.tags := by
    rw [targetOf_eq_targetNamed hitem,
      ← pk_deleteParam_iff (cleanTags_of_recvMetricValue haccepted) hrow, hname]
    exact rowTarget_eq_some_iff hcollide
  simp only [Exact, calls_deleteGraphCounter, calls_deleteGraphEndpoint, perm_targets_row_iff,
    and_self, hown]

end

/-! ## Examples -/

/-- A counter with tags is deleted with the other counter of a request. -/
theorem delete_exact_tagged :
    Exact QFloat (nameEnv "host/cpu/a=1")
      (targetOf (nameEnv "host/cpu/a=1") "host/cpu/a=1"
        (itemOfGauge "host" "cpu" (dictedTagstring "a=1")))
      (deleteGraphCounter (fun s => s)
        ([⟨"host", 1, "mem", GAUGE, 60⟩] ++
          rowOf 2 (itemOfGauge "host" "cpu" (dictedTagstring "a=1")) :: [])
        (Visit.asWritten _) true)
      (deleteGraphCounter (fun s => s) ([⟨"host", 1, "mem", GAUGE, 60⟩] ++ [])
        (Visit.asWritten _) true) := by
  have hpk : (deleteParam (rowOf 2 (itemOfGauge "host" "cpu" (dictedTagstring "a=1")))).pk =
      some (gaugeData "host" "cpu" "a=1").pk := by decide +kernel
  have haccepted : recvMetricValue (fun _ => none) 100 (some (gauge "host" "cpu" "a=1")) = _ :=
    recvMetricValue_gauge (by decide) (by decide) (by decide) (by decide)
  exact ((delete_exact_iff (nameEnv "host/cpu/a=1") (fun s => s) haccepted
    (isGraphItem_gauge "host" "cpu" "a=1" (List.Perm.refl _)) 2
    (fun name hname _ => Option.some.inj (hname.symm.trans hpk)) [] [] _ [] _ _ true).mpr
      (Or.inl (by decide))).1

/-- The rows of `net/if.in` and `cpu/` are deleted.  The first is not sent to any node, as `if.in`
is no text of tags; for the second the data of `cpu` are removed. -/
theorem counters_with_slash_not_deleted :
    (∃ d : MetaData QFloat,
      recvMetricValue (fun _ => none) 100 (some (gauge "host" "net/if.in" "")) = some d ∧
      IsGraphItem 60 d (itemOfGauge "host" "net/if.in" ∅) ∧
      (deleteGraphCounter (fun s => s) [rowOf 1 (itemOfGauge "host" "net/if.in" ∅)]
        (Visit.asWritten _) true).calls = [] ∧
      (deleteGraphCounter (fun s => s) [rowOf 1 (itemOfGauge "host" "net/if.in" ∅)]
        (Visit.asWritten _) true).counterIds = [1]) ∧
    ∃ d : MetaData QFloat,
      recvMetricValue (fun _ => none) 100 (some (gauge "host" "cpu/" "")) = some d ∧
      IsGraphItem 60 d (itemOfGauge "host" "cpu/" ∅) ∧
      targets QFloat (nameEnv "host/cpu") (deleteGraphCounter (fun s => s)
        [rowOf 1 (itemOfGauge "host" "cpu/" ∅)] (Visit.asWritten _) true).calls =
          [targetOf (nameEnv "host/cpu") "host/cpu" (itemOfGauge "host" "cpu" ∅)] ∧
      targetOf (nameEnv "host/cpu") "host/cpu" (itemOfGauge "host" "cpu" ∅) ≠
        targetOf (nameEnv "host/cpu") (graphNode (fun s => s) d) (itemOfGauge "host" "cpu/" ∅) := by
  refine ⟨⟨_, recvMetricValue_gauge (by decide) (by decide) (by decide) (by decide),
      isGraphItem_gauge "host" "net/if.in" "" (List.Perm.refl _), ?_, rfl⟩,
    _, recvMetricValue_gauge (by decide) (by decide) (by decide) (by decide),
    isGraphItem_gauge "host" "cpu/" "" (List.Perm.refl _), ?_, ?_⟩
  · decide +kernel
  · decide +kernel
  · decide +kernel

end OpenFalcon.Api
