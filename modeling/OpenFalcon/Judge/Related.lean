import OpenFalcon.Judge.History
import OpenFalcon.Assoc.Collect
import OpenFalcon.Common.Model

/-!
# Which rules an item is judged by

`CheckStrategy` and `CheckExpression` of `modules/judge/store/judge.go`, the maps they
read, as `modules/judge/cron/strategy.go` builds them, and the metric filter in front of
them in `modules/judge/rpc/receiver.go`.

Both maps are indexed by texts.  A strategy stands under `hostname/metric`, an expression
under `metric/k=v`, once for each of its tags.  An item finds a rule by the same texts
made from its own fields, and what it finds is filtered by the tags only; the host and the
metric are taken to be right because the text was.  They are, unless one text can be read
in two ways.

* `checkExpression_perm_iff`: the expressions judged are the matching ones, exactly if the
  item has no tag `endpoint` that disagrees with its endpoint where it matters, and no
  expression of another metric shares a text with it.
* `judgedStrategies_eq_iff`: the same for strategies, with the filter in front.
-/

namespace OpenFalcon.Judge

open Numeric Common Assoc

variable {F : Type} {exp : Expression F} {item : JudgeItem F} {expressions : List (Expression F)}
  {key : String}

/-- The item carries the tags, with the same values. -/
def carries (itemTags tags : Tags) : Bool :=
  tags.entries.all fun tag => itemTags.lookup tag.1 = some tag.2

theorem carries_iff {itemTags tags : Tags} :
    carries itemTags tags = true ↔ ∀ k v, tags.lookup k = some v → itemTags.lookup k = some v := by
  rw [carries, List.all_eq_true]
  constructor
  · intro h k v hkv
    simpa using h ⟨k, v⟩ (AList.mem_lookup_iff.mp hkv)
  · rintro h ⟨k, v⟩ hkv
    simpa using h k v (AList.mem_lookup_iff.mpr hkv)

/-! ## Expressions -/

/-- The text `metric/k=v`. -/
def expressionKey (metric : String) (tag : Σ _ : String, String) : String :=
  metric ++ "/" ++ tag.1 ++ "=" ++ tag.2

/-- `rebuildExpressionMap`: every expression under the text of each of its tags. -/
def rebuildExpressionMap (visit : ∀ exp : Expression F, Visit exp.tags)
    (expressions : List (Expression F)) : GoMap String (List (Expression F)) :=
  indexBy (fun p => expressionKey p.1.metric p.2) Prod.fst
    (expressions.flatMap fun exp => (visit exp).entries.map fun tag => (exp, tag))

/-- `buildKeysFromMetricAndTags`. -/
def buildKeysFromMetricAndTags (item : JudgeItem F) (visit : Visit item.tags) : List String :=
  visit.entries.map (fun tag => item.metric ++ "/" ++ tag.1 ++ "=" ++ tag.2) ++
    [item.metric ++ "/endpoint=" ++ item.endpoint]

/-- `copyItemTags`: the pseudo tag `endpoint`, and the item's own tags over it. -/
def copyItemTags (item : JudgeItem F) : Tags :=
  overrideAll ((∅ : Tags).insert "endpoint" item.endpoint) item.tags.entries

/-- `filterRelatedExpressions`. -/
def filterRelatedExpressions (expressions : List (Expression F)) (item : JudgeItem F) :
    List (Expression F) :=
  expressions.filter fun exp =>
    carries (if (exp.tags.lookup "endpoint").isSome then copyItemTags item else item.tags)
      exp.tags

/-- `CheckExpression`: the expressions handed to `judgeItemWithExpression`, in order.  An
id that was handled once is skipped. -/
def checkExpression (expressionMap : GoMap String (List (Expression F))) (keys : List String)
    (item : JudgeItem F) : List (Expression F) :=
  firstWins Expression.id [] (keys.flatMap fun key =>
    filterRelatedExpressions ((expressionMap.lookup key).getD []) item)

/-- The expressions of a reply: rows of one table, so with distinct ids, each with a tag. -/
structure Expressions (F : Type) where
  list : List (Expression F)
  nodup : (list.map Expression.id).Nodup
  tags_ne_empty : ∀ exp ∈ list, exp.tags.entries ≠ []

/-- An expression is meant for an item: its metric is the item's, and every tag is
satisfied, `endpoint` by the item's endpoint and any other by the item's own tag. -/
def matchesExpression (exp : Expression F) (item : JudgeItem F) : Bool :=
  exp.metric = item.metric ∧ exp.tags.entries.all fun tag =>
    if tag.1 = "endpoint" then tag.2 = item.endpoint
    else item.tags.lookup tag.1 = some tag.2

theorem lookup_copyItemTags (item : JudgeItem F) (k : String) :
    (copyItemTags item).lookup k =
      (item.tags.lookup k).or (if k = "endpoint" then some item.endpoint else none) := by
  rw [copyItemTags, lookup_overrideAll _ item.tags (List.Perm.refl _)]
  by_cases hk : k = "endpoint"
  · subst hk
    rw [AList.lookup_insert, if_pos rfl]
  · rw [AList.lookup_insert_ne hk, AList.lookup_empty, if_neg hk]

/-- The filter compares with the merged tags, whichever map it looks into. -/
theorem mem_filterRelatedExpressions :
    exp ∈ filterRelatedExpressions expressions item ↔
      exp ∈ expressions ∧ carries (copyItemTags item) exp.tags = true := by
  rw [filterRelatedExpressions, List.mem_filter]
  refine and_congr_right fun _ => ?_
  split_ifs with hendpoint
  · rfl
  · rw [carries_iff, carries_iff]
    refine forall_congr' fun k => forall_congr' fun v => imp_congr_right fun hkv => ?_
    have hk : k ≠ "endpoint" := by
      rintro rfl
      exact hendpoint (by rw [hkv]; rfl)
    rw [lookup_copyItemTags, if_neg hk, Option.or_none]

theorem endpointKey_eq (item : JudgeItem F) :
    item.metric ++ "/endpoint=" ++ item.endpoint =
      expressionKey item.metric ⟨"endpoint", item.endpoint⟩ := by
  have htext : "/endpoint=" = "/" ++ "endpoint" ++ "=" := by decide
  rw [expressionKey, htext]
  simp only [String.append_assoc]

theorem mem_buildKeysFromMetricAndTags {visit : Visit item.tags} :
    key ∈ buildKeysFromMetricAndTags item visit ↔
      ∃ k v, (item.tags.lookup k = some v ∨ (k = "endpoint" ∧ v = item.endpoint)) ∧
        key = expressionKey item.metric ⟨k, v⟩ := by
  rw [buildKeysFromMetricAndTags, List.mem_append, List.mem_singleton, List.mem_map,
    endpointKey_eq]
  constructor
  · rintro (⟨⟨k, v⟩, hmem, rfl⟩ | rfl)
    · exact ⟨k, v, Or.inl (visit.mem_entries.mp hmem), rfl⟩
    · exact ⟨_, _, Or.inr ⟨rfl, rfl⟩, rfl⟩
  · rintro ⟨k, v, hlookup | ⟨rfl, rfl⟩, rfl⟩
    · exact Or.inl ⟨⟨k, v⟩, visit.mem_entries.mpr hlookup, rfl⟩
    · exact Or.inr rfl

theorem mem_getD_rebuildExpressionMap {visit : ∀ exp : Expression F, Visit exp.tags} :
    exp ∈ ((rebuildExpressionMap visit expressions).lookup key).getD [] ↔
      exp ∈ expressions ∧ ∃ k v, exp.tags.lookup k = some v ∧
        expressionKey exp.metric ⟨k, v⟩ = key := by
  rw [rebuildExpressionMap, getD_lookup_indexBy, List.mem_map]
  constructor
  · rintro ⟨⟨exp', k, v⟩, hmem, rfl⟩
    obtain ⟨hmem, hkey⟩ := List.mem_filter.mp hmem
    obtain ⟨exp'', hexp, htag⟩ := List.mem_flatMap.mp hmem
    obtain ⟨tag, htag, heq⟩ := List.mem_map.mp htag
    obtain ⟨rfl, rfl⟩ := Prod.mk.inj heq
    exact ⟨hexp, k, v, (visit exp'').mem_entries.mp htag, by simpa using hkey⟩
  · rintro ⟨hexp, k, v, hkv, hkey⟩
    refine ⟨(exp, ⟨k, v⟩), List.mem_filter.mpr ⟨?_, by simpa using hkey⟩, rfl⟩
    exact List.mem_flatMap.mpr ⟨exp, hexp,
      List.mem_map.mpr ⟨⟨k, v⟩, (visit exp).mem_entries.mpr hkv, rfl⟩⟩

/-- An expression and an item share a text: the one is indexed under it and the other
looked up by it. -/
def SharesText (exp : Expression F) (item : JudgeItem F) : Prop :=
  ∃ k v k' v', exp.tags.lookup k = some v ∧
    (item.tags.lookup k' = some v' ∨ (k' = "endpoint" ∧ v' = item.endpoint)) ∧
    expressionKey exp.metric ⟨k, v⟩ = expressionKey item.metric ⟨k', v'⟩

/-- **What is judged**: the expressions whose tags the merged tags carry and that share a
text with the item. -/
theorem mem_checkExpression (exprs : Expressions F) (visit : ∀ exp : Expression F, Visit exp.tags)
    (item : JudgeItem F) (visitItem : Visit item.tags) :
    exp ∈ checkExpression (rebuildExpressionMap visit exprs.list)
        (buildKeysFromMetricAndTags item visitItem) item ↔
      exp ∈ exprs.list ∧ carries (copyItemTags item) exp.tags = true ∧ SharesText exp item := by
  have hfound : ∀ exp, exp ∈ (buildKeysFromMetricAndTags item visitItem).flatMap (fun key =>
        filterRelatedExpressions
          (((rebuildExpressionMap visit exprs.list).lookup key).getD []) item) ↔
      exp ∈ exprs.list ∧ carries (copyItemTags item) exp.tags = true ∧ SharesText exp item := by
    intro exp
    simp only [List.mem_flatMap, mem_buildKeysFromMetricAndTags, mem_filterRelatedExpressions,
      mem_getD_rebuildExpressionMap]
    constructor
    · rintro ⟨key, ⟨k', v', hitem, rfl⟩, ⟨hexp, k, v, hkv, hkey⟩, hcarries⟩
      exact ⟨hexp, hcarries, k, v, k', v', hkv, hitem, hkey⟩
    · rintro ⟨hexp, hcarries, k, v, k', v', hkv, hitem, hkey⟩
      exact ⟨_, ⟨k', v', hitem, rfl⟩, ⟨hexp, k, v, hkv, hkey⟩, hcarries⟩
  rw [checkExpression, mem_firstWins_of_injOn, hfound]
  intro exp hexp exp' hexp' hid
  exact List.inj_on_of_nodup_map exprs.nodup ((hfound exp).mp hexp).1 ((hfound exp').mp hexp').1 hid

/-- Of the item's own metric, an expression that the merged tags carry is found. -/
theorem sharesText_of_carries (hne : exp.tags.entries ≠ []) (hmetric : exp.metric = item.metric)
    (hcarries : carries (copyItemTags item) exp.tags = true) : SharesText exp item := by
  obtain ⟨⟨k, v⟩, hmem⟩ := List.exists_mem_of_ne_nil _ hne
  have hkv : exp.tags.lookup k = some v := AList.mem_lookup_iff.mpr hmem
  refine ⟨k, v, k, v, hkv, ?_, by rw [hmetric]⟩
  have hitem := carries_iff.mp hcarries k v hkv
  rw [lookup_copyItemTags] at hitem
  cases hown : item.tags.lookup k with
  | some w =>
    rw [hown] at hitem
    exact Or.inl hitem
  | none =>
    rw [hown, Option.none_or] at hitem
    split_ifs at hitem with hk
    exact Or.inr ⟨hk, (Option.some.inj hitem).symm⟩

theorem matchesExpression_iff :
    matchesExpression exp item = true ↔
      exp.metric = item.metric ∧
        (∀ v, exp.tags.lookup "endpoint" = some v → v = item.endpoint) ∧
        ∀ k v, k ≠ "endpoint" → exp.tags.lookup k = some v → item.tags.lookup k = some v := by
  rw [matchesExpression, decide_eq_true_iff, List.all_eq_true]
  refine and_congr_right fun _ => ⟨fun h => ⟨?_, ?_⟩, fun h => ?_⟩
  · intro v hv
    simpa using h ⟨"endpoint", v⟩ (AList.mem_lookup_iff.mp hv)
  · intro k v hk hkv
    simpa [hk] using h ⟨k, v⟩ (AList.mem_lookup_iff.mp hkv)
  · rintro ⟨k, v⟩ hmem
    have hkv : exp.tags.lookup k = some v := AList.mem_lookup_iff.mpr hmem
    by_cases hk : k = "endpoint"
    · subst hk
      simpa using h.1 v hkv
    · simpa [hk] using h.2 k v hk hkv

/-- What the merged tags carry, tag by tag: the item's own tag `endpoint` is looked at
first. -/
theorem carries_copyItemTags_iff :
    carries (copyItemTags item) exp.tags = true ↔
      (∀ v, exp.tags.lookup "endpoint" = some v →
        v = (item.tags.lookup "endpoint").getD item.endpoint) ∧
      ∀ k v, k ≠ "endpoint" → exp.tags.lookup k = some v → item.tags.lookup k = some v := by
  have hend : (copyItemTags item).lookup "endpoint" =
      some ((item.tags.lookup "endpoint").getD item.endpoint) := by
    rw [lookup_copyItemTags, if_pos rfl]
    cases item.tags.lookup "endpoint" <;> rfl
  have hother : ∀ k, k ≠ "endpoint" → (copyItemTags item).lookup k = item.tags.lookup k := by
    intro k hk
    rw [lookup_copyItemTags, if_neg hk, Option.or_none]
  rw [carries_iff]
  constructor
  · intro h
    refine ⟨fun v hv => ?_, fun k v hk hkv => ?_⟩
    · exact Option.some.inj ((h _ v hv).symm.trans hend)
    · rw [← hother k hk]
      exact h k v hkv
  · rintro ⟨h, h'⟩ k v hkv
    by_cases hk : k = "endpoint"
    · subst hk
      rw [hend, ← h v hkv]
    · rw [hother k hk]
      exact h' k v hk hkv

/-- Where the expression asks for an endpoint and the item has a tag of that name, and
the other tags fit, the tag and the endpoint give the same answer. -/
def EndpointTagAgrees (exp : Expression F) (item : JudgeItem F) : Prop :=
  ∀ v w, exp.tags.lookup "endpoint" = some v → item.tags.lookup "endpoint" = some w →
    (∀ k v', k ≠ "endpoint" → exp.tags.lookup k = some v' → item.tags.lookup k = some v') →
    (v = w ↔ v = item.endpoint)

/-- The two readings of the tags agree exactly where the tag `endpoint` does. -/
theorem carries_iff_matches_iff_endpointTagAgrees (hmetric : exp.metric = item.metric) :
    (carries (copyItemTags item) exp.tags = true ↔ matchesExpression exp item = true) ↔
      EndpointTagAgrees exp item := by
  rw [carries_copyItemTags_iff, matchesExpression_iff]
  constructor
  · intro h v w hv hw hothers
    have hval : ∀ v', exp.tags.lookup "endpoint" = some v' → v' = v := fun v' hv' =>
      Option.some.inj (hv'.symm.trans hv)
    rw [hw, Option.getD_some] at h
    constructor
    · rintro rfl
      exact (h.mp ⟨hval, hothers⟩).2.1 v hv
    · rintro rfl
      exact (h.mpr ⟨hmetric, hval, hothers⟩).1 _ hv
  · intro h
    constructor
    · rintro ⟨hend, hothers⟩
      refine ⟨hmetric, fun v hv => ?_, hothers⟩
      cases hw : item.tags.lookup "endpoint" with
      | none => rw [hend v hv, hw]; rfl
      | some w =>
        refine (h v w hv hw hothers).mp ?_
        rw [hend v hv, hw]; rfl
    · rintro ⟨-, hend, hothers⟩
      refine ⟨fun v hv => ?_, hothers⟩
      cases hw : item.tags.lookup "endpoint" with
      | none => exact hend v hv
      | some w => exact (h v w hv hw hothers).mpr (hend v hv)

/-- **The matching expressions are judged, each once**, whatever the iteration orders,
exactly if for every expression of the item's metric the tag `endpoint` agrees with the
endpoint, and no expression of another metric whose tags the item carries shares a text
with it. -/
theorem checkExpression_perm_iff (exprs : Expressions F)
    (visit : ∀ exp : Expression F, Visit exp.tags) (item : JudgeItem F)
    (visitItem : Visit item.tags) :
    (checkExpression (rebuildExpressionMap visit exprs.list)
        (buildKeysFromMetricAndTags item visitItem) item).Perm
        (exprs.list.filter fun exp => matchesExpression exp item) ↔
      ∀ exp ∈ exprs.list,
        (exp.metric = item.metric → EndpointTagAgrees exp item) ∧
        (exp.metric ≠ item.metric → carries (copyItemTags item) exp.tags = true →
          ¬SharesText exp item) := by
  have hnodup : (checkExpression (rebuildExpressionMap visit exprs.list)
      (buildKeysFromMetricAndTags item visitItem) item).Nodup :=
    List.Nodup.of_map Expression.id (nodup_map_firstWins [] _)
  have hnodup' : (exprs.list.filter fun exp => matchesExpression exp item).Nodup :=
    (List.Nodup.of_map Expression.id exprs.nodup).filter _
  rw [List.perm_ext_iff_of_nodup hnodup hnodup']
  simp only [mem_checkExpression, List.mem_filter]
  refine forall_congr' fun exp => ?_
  rw [and_congr_right_iff]
  refine imp_congr_right fun hexp => ?_
  by_cases hmetric : exp.metric = item.metric
  · have hshares : carries (copyItemTags item) exp.tags = true ∧ SharesText exp item ↔
        carries (copyItemTags item) exp.tags = true :=
      and_iff_left_of_imp (sharesText_of_carries (exprs.tags_ne_empty exp hexp) hmetric)
    rw [hshares, carries_iff_matches_iff_endpointTagAgrees hmetric]
    exact ⟨fun h => ⟨fun _ => h, fun hne => absurd hmetric hne⟩, fun h => h.1 hmetric⟩
  · have hnot : ¬matchesExpression exp item = true := fun h =>
      hmetric (matchesExpression_iff.mp h).1
    rw [iff_false_right hnot, not_and]
    exact ⟨fun h => ⟨fun heq => absurd heq hmetric, fun _ => h⟩, fun h => h.2 hmetric⟩

/-- Two expressions, one on an endpoint and one on a tag whose name has a slash. -/
def sampleExpressions : Expressions QFloat where
  list :=
    [⟨1, "cpu", AList.singleton "endpoint" "host", "max(#1)", ">", .num 80, 3, 0, "", 1⟩,
      ⟨2, "cpu", AList.singleton "a/b" "c", "max(#1)", ">", .num 80, 3, 0, "", 1⟩]
  nodup := by decide
  tags_ne_empty := by simp [AList.singleton]

/-- The ids of the sample expressions an item is judged by, and of those meant for it. -/
def sampleIds (item : JudgeItem QFloat) : List Int × List Int :=
  ((checkExpression (rebuildExpressionMap (fun exp => Visit.asWritten exp.tags)
      sampleExpressions.list)
    (buildKeysFromMetricAndTags item (Visit.asWritten item.tags)) item).map Expression.id,
   (sampleExpressions.list.filter fun exp => matchesExpression exp item).map Expression.id)

/-- A point of `host` with a tag `endpoint=web` is not judged by the expression on
`endpoint=host`: the tag hides the endpoint.  A point of the metric `cpu/a` is judged by an
expression on the metric `cpu`: the text `cpu/a/b=c` is read in two ways. -/
theorem expression_missed_and_foreign_expression_judged :
    sampleIds ⟨"host", "cpu", .num 90, 60, .GAUGE, AList.singleton "endpoint" "web"⟩ =
        ([], [1]) ∧
      sampleIds ⟨"host", "cpu/a", .num 90, 60, .GAUGE,
        (AList.singleton "a/b" "c").insert "b" "c"⟩ = ([2], []) := by
  decide +kernel

/-! ## Strategies -/

/-- The strategies of a reply, each with the host it is listed for. -/
def listed (hostStrategies : List (HostStrategy F)) : List (String × Strategy F) :=
  hostStrategies.flatMap fun hs => hs.strategies.map fun strategy => (hs.hostname, strategy)

/-- `rebuildStrategyMap`: every strategy under the text `hostname/metric`. -/
def rebuildStrategyMap (hostStrategies : List (HostStrategy F)) :
    GoMap String (List (Strategy F)) :=
  indexBy (fun p => p.1 ++ "/" ++ p.2.metric) Prod.snd (listed hostStrategies)

/-- `syncFilter`: the metrics of everything in the two maps. -/
def syncFilter (strategyMap : GoMap String (List (Strategy F)))
    (expressionMap : GoMap String (List (Expression F))) : GoMap String String :=
  let m := (strategyMap.entries.flatMap Sigma.snd).foldl
    (fun m strategy => m.insert strategy.metric strategy.metric) ∅
  (expressionMap.entries.flatMap Sigma.snd).foldl
    (fun m expression => m.insert expression.metric expression.metric) m

/-- `CheckStrategy`: the strategies handed to `judgeItemWithStrategy`, in order. -/
def checkStrategy (strategyMap : GoMap String (List (Strategy F))) (item : JudgeItem F) :
    List (Strategy F) :=
  match strategyMap.lookup (item.endpoint ++ "/" ++ item.metric) with
  | none => []
  | some strategies => strategies.filter fun s => carries item.tags s.tags

/-- `Send` and then `CheckStrategy`, for an item its list accepts: a metric that is not in
the filter is dropped. -/
def sendAndCheckStrategy (filterMap : GoMap String String)
    (strategyMap : GoMap String (List (Strategy F))) (item : JudgeItem F) : List (Strategy F) :=
  if (filterMap.lookup item.metric).isSome then checkStrategy strategyMap item else []

/-- A listed strategy is meant for an item: its host is the item's endpoint, its metric the
item's metric, and the item carries its tags. -/
def matchesStrategy (item : JudgeItem F) (p : String × Strategy F) : Bool :=
  p.1 = item.endpoint ∧ p.2.metric = item.metric ∧ carries item.tags p.2.tags

theorem isSome_lookup_foldl_insert {α : Type} (metric : α → String) (l : List α)
    (m : GoMap String String) (k : String) :
    ((l.foldl (fun m a => m.insert (metric a) (metric a)) m).lookup k).isSome ↔
      k ∈ l.map metric ∨ (m.lookup k).isSome := by
  induction l generalizing m with
  | nil => simp
  | cons a l ih =>
    rw [List.foldl_cons, ih, List.map_cons, List.mem_cons]
    by_cases hk : k = metric a
    · subst hk
      simp [AList.lookup_insert]
    · rw [AList.lookup_insert_ne hk]
      simp [hk]

/-- **The filter lets through the metrics of the strategies and of the expressions that
have a tag.** -/
theorem isSome_lookup_syncFilter (hostStrategies : List (HostStrategy F))
    (visit : ∀ exp : Expression F, Visit exp.tags) (expressions : List (Expression F))
    (metric : String) :
    ((syncFilter (rebuildStrategyMap hostStrategies)
        (rebuildExpressionMap visit expressions)).lookup metric).isSome ↔
      (∃ p ∈ listed hostStrategies, p.2.metric = metric) ∨
        ∃ exp ∈ expressions, exp.tags.entries ≠ [] ∧ exp.metric = metric := by
  have hstrategies : metric ∈ ((rebuildStrategyMap hostStrategies).entries.flatMap
      Sigma.snd).map Strategy.metric ↔ ∃ p ∈ listed hostStrategies, p.2.metric = metric := by
    simp only [List.mem_map, rebuildStrategyMap, mem_entries_indexBy]
    constructor
    · rintro ⟨s, ⟨p, hp, rfl⟩, hmetric⟩
      exact ⟨p, hp, hmetric⟩
    · rintro ⟨p, hp, hmetric⟩
      exact ⟨p.2, ⟨p, hp, rfl⟩, hmetric⟩
  have hexpressions : metric ∈ ((rebuildExpressionMap visit expressions).entries.flatMap
      Sigma.snd).map Expression.metric ↔
      ∃ exp ∈ expressions, exp.tags.entries ≠ [] ∧ exp.metric = metric := by
    simp only [List.mem_map (f := Expression.metric), rebuildExpressionMap, mem_entries_indexBy]
    simp only [List.mem_map, List.mem_flatMap]
    constructor
    · rintro ⟨exp, ⟨p, ⟨exp', hexp, tag, htag, rfl⟩, rfl⟩, hmetric⟩
      refine ⟨exp', hexp, ?_, hmetric⟩
      exact List.ne_nil_of_mem ((visit exp').perm.mem_iff.mp htag)
    · rintro ⟨exp, hexp, hne, hmetric⟩
      obtain ⟨tag, htag⟩ := List.exists_mem_of_ne_nil _ hne
      exact ⟨exp, ⟨(exp, tag), ⟨exp, hexp, tag, (visit exp).perm.mem_iff.mpr htag, rfl⟩, rfl⟩,
        hmetric⟩
  rw [syncFilter, isSome_lookup_foldl_insert, isSome_lookup_foldl_insert, hstrategies,
    hexpressions]
  simp [or_comm]

/-- What `CheckStrategy` finds: the strategies whose text is the item's, and whose tags it
carries. -/
theorem checkStrategy_rebuildStrategyMap (hostStrategies : List (HostStrategy F))
    (item : JudgeItem F) :
    checkStrategy (rebuildStrategyMap hostStrategies) item =
      ((listed hostStrategies).filter fun p =>
        p.1 ++ "/" ++ p.2.metric = item.endpoint ++ "/" ++ item.metric ∧
          carries item.tags p.2.tags).map Prod.snd := by
  have hgetD : checkStrategy (rebuildStrategyMap hostStrategies) item =
      (((rebuildStrategyMap hostStrategies).lookup
        (item.endpoint ++ "/" ++ item.metric)).getD []).filter
          fun s => carries item.tags s.tags := by
    rw [checkStrategy]
    cases (rebuildStrategyMap hostStrategies).lookup (item.endpoint ++ "/" ++ item.metric) <;> rfl
  rw [hgetD, rebuildStrategyMap, getD_lookup_indexBy, List.filter_map, List.filter_filter]
  congr 1
  refine List.filter_congr fun p _ => ?_
  simp [Bool.and_comm]

/-- No strategy listed for another host or metric, whose tags the item carries, has the
item's text. -/
def NoForeignText (hostStrategies : List (HostStrategy F)) (item : JudgeItem F) : Prop :=
  ∀ p ∈ listed hostStrategies, p.1 ≠ item.endpoint ∨ p.2.metric ≠ item.metric →
    carries item.tags p.2.tags = true →
    p.1 ++ "/" ++ p.2.metric ≠ item.endpoint ++ "/" ++ item.metric

theorem checkStrategy_eq_iff (hostStrategies : List (HostStrategy F)) (item : JudgeItem F) :
    checkStrategy (rebuildStrategyMap hostStrategies) item =
        ((listed hostStrategies).filter (matchesStrategy item)).map Prod.snd ↔
      NoForeignText hostStrategies item := by
  rw [checkStrategy_rebuildStrategyMap]
  constructor
  · intro heq p hp hforeign hcarries htext
    -- the matching ones are among those found, and there are as many
    have hsub := List.monotone_filter_right (listed hostStrategies)
      (p := matchesStrategy item) (q := fun p =>
        p.1 ++ "/" ++ p.2.metric = item.endpoint ++ "/" ++ item.metric ∧
          carries item.tags p.2.tags) (by
        intro p hmatch
        obtain ⟨hhost, hmetric, hcarries⟩ := of_decide_eq_true hmatch
        simp [hhost, hmetric, hcarries])
    have hsame := hsub.eq_of_length (by simpa using (congrArg List.length heq).symm)
    have hfound : p ∈ (listed hostStrategies).filter (matchesStrategy item) := by
      rw [hsame]
      exact List.mem_filter.mpr ⟨hp, by simp [htext, hcarries]⟩
    obtain ⟨hhost, hmetric, -⟩ := of_decide_eq_true (List.mem_filter.mp hfound).2
    exact hforeign.elim (fun h => h hhost) fun h => h hmetric
  · intro h
    congr 1
    refine List.filter_congr fun p hp => ?_
    rw [matchesStrategy, decide_eq_decide]
    constructor
    · rintro ⟨htext, hcarries⟩
      by_cases hown : p.1 = item.endpoint ∧ p.2.metric = item.metric
      · exact ⟨hown.1, hown.2, hcarries⟩
      · exact absurd htext (h p hp (not_and_or.mp hown) hcarries)
    · rintro ⟨hhost, hmetric, hcarries⟩
      exact ⟨by rw [hhost, hmetric], hcarries⟩

/-- **The matching strategies are judged, one judgement for each listing**, and the filter
drops no item that a strategy matches, exactly if the item is dropped by the filter or no
strategy of another host or metric has its text. -/
theorem sendAndCheckStrategy_eq_iff (hostStrategies : List (HostStrategy F))
    (visit : ∀ exp : Expression F, Visit exp.tags) (expressions : List (Expression F))
    (item : JudgeItem F) :
    (sendAndCheckStrategy
          (syncFilter (rebuildStrategyMap hostStrategies) (rebuildExpressionMap visit expressions))
          (rebuildStrategyMap hostStrategies) item =
        ((listed hostStrategies).filter (matchesStrategy item)).map Prod.snd ∧
      ((∃ p ∈ listed hostStrategies, matchesStrategy item p = true) →
        ((syncFilter (rebuildStrategyMap hostStrategies)
          (rebuildExpressionMap visit expressions)).lookup item.metric).isSome)) ↔
      (((∃ p ∈ listed hostStrategies, p.2.metric = item.metric) ∨
          ∃ exp ∈ expressions, exp.tags.entries ≠ [] ∧ exp.metric = item.metric) →
        NoForeignText hostStrategies item) := by
  have hkeeps : (∃ p ∈ listed hostStrategies, matchesStrategy item p = true) →
      ((syncFilter (rebuildStrategyMap hostStrategies)
        (rebuildExpressionMap visit expressions)).lookup item.metric).isSome := by
    rintro ⟨p, hp, hmatch⟩
    exact (isSome_lookup_syncFilter _ _ _ _).mpr (Or.inl ⟨p, hp, (of_decide_eq_true hmatch).2.1⟩)
  rw [and_iff_left hkeeps, sendAndCheckStrategy, ← isSome_lookup_syncFilter _ visit]
  split_ifs with hfilter
  · rw [checkStrategy_eq_iff]
    exact ⟨fun h _ => h, fun h => h hfilter⟩
  · -- dropped: no listed strategy has the metric, so none matches
    refine ⟨fun _ hin => absurd hin hfilter, fun _ => ?_⟩
    rw [List.filter_eq_nil_iff.mpr fun p hp hmatch => hfilter (hkeeps ⟨p, hp, hmatch⟩)]
    rfl

/-- The strategies of the host `a/b`, for the item below. -/
def sampleHostStrategies : List (HostStrategy QFloat) :=
  [⟨"a/b", [⟨1, "c", ∅, "max(#1)", ">", .num 80, 3, 0, "", none⟩]⟩,
    ⟨"d", [⟨2, "b/c", ∅, "max(#1)", ">", .num 80, 3, 0, "", none⟩]⟩]

/-- A point of the metric `b/c` of the host `a` is judged by the strategy that is listed for
the metric `c` of the host `a/b`. -/
theorem foreign_strategy_judged :
    (sendAndCheckStrategy (syncFilter (rebuildStrategyMap sampleHostStrategies) ∅)
        (rebuildStrategyMap sampleHostStrategies)
        ⟨"a", "b/c", .num 90, 60, .GAUGE, ∅⟩).map Strategy.id = [1] ∧
      (((listed sampleHostStrategies).filter
        (matchesStrategy ⟨"a", "b/c", .num 90, 60, .GAUGE, ∅⟩)).map Prod.snd).map
          Strategy.id = [] := by
  decide +kernel

end OpenFalcon.Judge
