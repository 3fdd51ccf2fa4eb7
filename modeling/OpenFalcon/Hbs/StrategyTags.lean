import OpenFalcon.Hbs.Caches
import OpenFalcon.Hbs.Expression
import OpenFalcon.Judge.Related
import OpenFalcon.Transfer.Receive

/-!
# Two readings of one tag text

A strategy is stored with a tag text, and items are reported with one.  The heartbeat server
reads the first in `QueryStrategies`, transfer the second with `DictedTagstring`, and the
judge asks whether every tag of the strategy is a tag of the item.  Both split at commas and
cut at the first `=`, and in both the last value of a key wins; but only the second drops the
spaces.

So a text read in both ways matches itself exactly if no space is left in what the first
reading keeps: there is none in front of an `=`, and a value with one is replaced by a later
piece with the same key (`ReadAlike`).  Otherwise the strategy is listed, and no item that is
reported with its own text is judged by it (`strategy_matches_own_text_iff`).
-/

namespace OpenFalcon.Hbs

open Numeric Common Assoc Text Judge Transfer

variable {F : Type} {s : Strategy F}

/-- The pairs of a text: its pieces between commas that have an `=`, cut there. -/
def pairsOf (s : List Char) : List (List Char × List Char) :=
  (records ',' '=' s).filterMap id

/-- No key has a space, and a value with one stands before another piece of its key. -/
def ReadAlike (s : String) : Prop :=
  ∀ before k v after, pairsOf s.toList = before ++ (k, v) :: after →
    ' ' ∉ k ∧ (' ' ∈ v → ∃ v', (k, v') ∈ after)

/-! ## The last value of a key -/

/-- **The last value of a key** is that of a pair with no pair of the key after it. -/
theorem lastValue_eq_some_iff {pairs : List (List Char × List Char)} {k v : String} :
    lastValue pairs k = some v ↔
      ∃ before after, pairs = before ++ (k.toList, v.toList) :: after ∧
        ∀ q ∈ after, q.1 ≠ k.toList := by
  have hkey : ∀ q : List Char × List Char, String.ofList q.1 = k ↔ q.1 = k.toList := by
    intro q
    rw [← String.toList_inj, String.toList_ofList]
  rw [lastValue, Option.map_eq_some_iff]
  constructor
  · rintro ⟨q, hfind, rfl⟩
    obtain ⟨hq, after, before, hsplit, hafter⟩ := List.find?_eq_some_iff_append.mp hfind
    have hpair : (k.toList, (String.ofList q.2).toList) = q := by
      rw [String.toList_ofList, ← (hkey q).mp (of_decide_eq_true hq)]
    refine ⟨before.reverse, after.reverse, ?_, fun p hp => ?_⟩
    · rw [hpair, ← List.reverse_inj, hsplit]
      simp
    · have hne := hafter p (List.mem_reverse.mp hp)
      rw [Ne, ← hkey p]
      simpa using hne
  · rintro ⟨before, after, rfl, hafter⟩
    refine ⟨(k.toList, v.toList), List.find?_eq_some_iff_append.mpr ⟨?_, ?_⟩, ?_⟩
    · simp
    · refine ⟨after.reverse, before.reverse, by simp, fun q hq => ?_⟩
      have hne := hafter q (List.mem_reverse.mp hq)
      rw [Ne, ← hkey q] at hne
      simpa using hne
    · rw [String.ofList_toList]

theorem exists_lastValue {pairs : List (List Char × List Char)} {q : List Char × List Char}
    (h : q ∈ pairs) : ∃ v, lastValue pairs (String.ofList q.1) = some v := by
  have hfind : (pairs.reverse.find? fun p => String.ofList p.1 = String.ofList q.1).isSome := by
    rw [List.find?_isSome]
    exact ⟨q, List.mem_reverse.mpr h, by simp⟩
  obtain ⟨p, hp⟩ := Option.isSome_iff_exists.mp hfind
  exact ⟨String.ofList p.2, by rw [lastValue, hp]; rfl⟩

/-! ## Two readings -/

theorem lookup_queryTags (s k : String) :
    (queryTags s).lookup k = lastValue (pairsOf s.toList) k := by
  rw [queryTags]
  split_ifs with hs
  · subst hs
    rfl
  · exact lookup_overrideAll_pairEntries _ k

/-- The second reading drops the spaces of every pair. -/
theorem lookup_dictedTagstring (s k : String) :
    (dictedTagstring s).lookup k =
      lastValue ((pairsOf s.toList).map
        (Prod.map (List.filter (· ≠ ' ')) (List.filter (· ≠ ' ')))) k := by
  have hpairs : (records ',' '=' (dropSpaces s)).filterMap id =
      (pairsOf s.toList).map (Prod.map (List.filter (· ≠ ' ')) (List.filter (· ≠ ' '))) := by
    rw [dropSpaces, records_filter (by decide) (by decide), pairsOf, List.filterMap_map,
      List.map_filterMap]
    rfl
  rw [dictedTagstring]
  split_ifs with hs
  · subst hs
    rfl
  · rw [lookup_overrideAll_pairEntries, hpairs]

theorem filter_spaces_eq_self {l : List Char} (h : ' ' ∉ l) : l.filter (· ≠ ' ') = l := by
  rw [List.filter_eq_self]
  intro c hc
  rw [decide_eq_true_eq]
  rintro rfl
  exact h hc

/-- **The first reading of a text is part of the second** exactly if no space is left in
it. -/
theorem queryTags_subset_dictedTagstring_iff (s : String) :
    (∀ k v, (queryTags s).lookup k = some v → (dictedTagstring s).lookup k = some v) ↔
      ReadAlike s := by
  simp only [lookup_queryTags]
  constructor
  · intro h before k v after hsplit
    -- what the second reading has is without spaces
    have hclean : ∀ k v, lastValue (pairsOf s.toList) k = some v →
        ' ' ∉ k.toList ∧ ' ' ∉ v.toList := fun k v hkv =>
      (cleanTags_dictedTagstring s k v (h k v hkv)).2
    obtain ⟨w, hw⟩ : ∃ w, lastValue (pairsOf s.toList) (String.ofList k) = some w :=
      exists_lastValue (q := (k, v)) (by rw [hsplit]; simp)
    refine ⟨by simpa using (hclean _ _ hw).1, fun hspace => ?_⟩
    by_contra hlater
    have hlast : lastValue (pairsOf s.toList) (String.ofList k) = some (String.ofList v) := by
      refine lastValue_eq_some_iff.mpr ⟨before, after, by simpa using hsplit, fun q hq hkey => ?_⟩
      rw [String.toList_ofList] at hkey
      exact hlater ⟨q.2, by rw [← hkey]; exact hq⟩
    exact (hclean _ _ hlast).2 (by simpa using hspace)
  · intro h k v hkv
    obtain ⟨before, after, hsplit, hafter⟩ := lastValue_eq_some_iff.mp hkv
    obtain ⟨hk, hv⟩ := h before _ _ after hsplit
    have hv' : ' ' ∉ v.toList := fun hspace => by
      obtain ⟨v', hv'⟩ := hv hspace
      exact hafter _ hv' rfl
    rw [lookup_dictedTagstring, hsplit, List.map_append, List.map_cons, Prod.map_apply,
      filter_spaces_eq_self hk, filter_spaces_eq_self hv']
    refine lastValue_eq_some_iff.mpr ⟨_, _, rfl, fun q hq => ?_⟩
    obtain ⟨q, hmem, rfl⟩ := List.mem_map.mp hq
    -- the keys after it have no spaces either, so dropping spaces does not make one of them `k`
    obtain ⟨middle, rest, hrest⟩ := List.append_of_mem hmem
    have hq' : ' ' ∉ q.1 :=
      (h (before ++ (k.toList, v.toList) :: middle) q.1 q.2 rest (by simp [hsplit, hrest])).1
    rw [Prod.map_fst, filter_spaces_eq_self hq']
    exact hafter q hmem

/-! ## From the tables to the judge -/

/-- What is listed of a row is its metric and the first reading of its text. -/
theorem tags_of_mem_getStrategies {scanFloat : String → Option F} {hour : String} {now : Int}
    {t : Tables} {joined : Rows (hostTemplateRows t)}
    {visit : Visit (init scanFloat hour now t joined).hostTemplateIds} {order : Int → RangeOrder F}
    {hs : HostStrategy F} {row : StrategyRow}
    (hhs : hs ∈ getStrategies (init scanFloat hour now t joined) visit order)
    (hs' : s ∈ hs.strategies) (hrow : row ∈ t.strategy) (hid : row.id = s.id) :
    s.metric = row.metric ∧ s.tags = queryTags row.tags := by
  obtain ⟨hid', tids, host, -, -, -, hstrategies⟩ := exists_of_mem_getStrategies hhs
  rw [hstrategies] at hs'
  obtain ⟨tid, -, pid, -, lastTid, s, rfl, hlookup, -⟩ := exists_of_mem_calcInheritStrategies hs'
  obtain ⟨row', hrow', tpl, hloaded⟩ := exists_loadedFrom hlookup
  rw [id_valStrategy, hloaded.id] at hid
  obtain rfl : row = row' := List.inj_on_of_nodup_map t.strategy_id hrow hrow' hid
  exact ⟨by rw [metric_valStrategy, hloaded.metric], by rw [tags_valStrategy, hloaded.tags]⟩

/-- A strategy listed for a host is found by an item of the host and its metric exactly if
the item carries its tags. -/
theorem mem_checkStrategy_iff {hostStrategies : List (HostStrategy F)} {hs : HostStrategy F}
    (hhs : hs ∈ hostStrategies) (hs' : s ∈ hs.strategies) {item : JudgeItem F}
    (hendpoint : item.endpoint = hs.hostname) (hmetric : item.metric = s.metric) :
    s ∈ checkStrategy (rebuildStrategyMap hostStrategies) item ↔
      carries item.tags s.tags = true := by
  rw [checkStrategy_rebuildStrategyMap, List.mem_map]
  constructor
  · rintro ⟨p, hp, rfl⟩
    exact (of_decide_eq_true (List.mem_filter.mp hp).2).2
  · intro hcarries
    refine ⟨(hs.hostname, s), List.mem_filter.mpr ⟨?_, ?_⟩, rfl⟩
    · exact List.mem_flatMap.mpr ⟨hs, hhs, List.mem_map.mpr ⟨s, hs', rfl⟩⟩
    · rw [decide_eq_true_eq]
      exact ⟨by rw [hendpoint, hmetric], hcarries⟩

/-- **Strategy tags and data tags are read alike** exactly for texts without a space that
stays.  For every text the pairs of the first reading are in the second exactly then; and so
is a strategy, listed for a host and stored with the text, found by an item of the host and
its metric that was accepted with the text. -/
theorem strategy_matches_own_text_iff [Float64 F] (text : String) :
    ((∀ k v, (queryTags text).lookup k = some v → (dictedTagstring text).lookup k = some v) ↔
      ReadAlike text) ∧
    ∀ (scanFloat : String → Option F) (hour : String) (now : Int) (t : Tables)
      (joined : Rows (hostTemplateRows t))
      (visit : Visit (init scanFloat hour now t joined).hostTemplateIds)
      (order : Int → RangeOrder F),
      ∀ hs ∈ getStrategies (init scanFloat hour now t joined) visit order,
      ∀ s ∈ hs.strategies, ∀ row ∈ t.strategy, row.id = s.id → row.tags = text →
      ∀ (parseFloat : String → Option F) (clock minStep : Int) (v : MetricValue F)
        (d : MetaData F), recvMetricValue parseFloat clock (some v) = some d →
        v.endpoint = hs.hostname → v.metric = row.metric → v.tags = text →
        (s ∈ checkStrategy
            (rebuildStrategyMap (getStrategies (init scanFloat hour now t joined) visit order))
            (convert2JudgeItem minStep d) ↔
          ReadAlike text) := by
  refine ⟨queryTags_subset_dictedTagstring_iff text, ?_⟩
  intro scanFloat hour now t joined visit order hs hhs s hs' row hrow hid htext
    parseFloat clock minStep v d hrecv hendpoint hmetric htags
  obtain ⟨v', vv, hv', -, -, rfl⟩ := recvMetricValue_eq_some_iff.mp hrecv
  obtain rfl := Option.some.inj hv'
  obtain ⟨hsmetric, hstags⟩ := tags_of_mem_getStrategies hhs hs' hrow hid
  have hitem : (convert2JudgeItem minStep (dataOf clock v vv)).tags = dictedTagstring text := by
    rw [← htags]
    rfl
  rw [mem_checkStrategy_iff hhs hs' hendpoint (hmetric.trans hsmetric.symm), hitem, carries_iff,
    hstags, htext]
  exact queryTags_subset_dictedTagstring_iff text

/-- A host whose template has one strategy, stored with a space after the comma. -/
def spacedTables : Tables where
  host := [⟨7, "web", 0, 0⟩]
  grpHost := [(1, 7)]
  grpTpl := [(1, 2)]
  tpl := [⟨2, "disk", 0, 0, "root"⟩]
  strategy :=
    [⟨5, "df.bytes.free", "mount=/, fstype=ext4", "all(#3)", "<", "5", 3, 0, "", "", "", 2⟩]
  host_id := List.nodup_singleton _
  host_hostname := List.nodup_singleton _
  tpl_id := List.nodup_singleton _
  strategy_id := List.nodup_singleton _

/-- What `GetStrategies` says of them. -/
def spacedStrategies : List (HostStrategy QFloat) :=
  getStrategies (init (fun _ => some (.num 5)) "12:00" 100 spacedTables (Rows.stored _))
    (Visit.asWritten _) fun _ => storedOrder

/-- A value of the host and metric, reported with the same text. -/
def spacedValue : MetricValue QFloat where
  endpoint := "web"
  metric := "df.bytes.free"
  value := .int 3
  step := 60
  type := Graph.GAUGE
  tags := "mount=/, fstype=ext4"
  timestamp := 90

/-- The strategy asks for a tag whose name begins with a space.  The value is accepted, and
none of the strategies listed for its host and metric is found for it. -/
theorem spaced_text_not_matched :
    (queryTags "mount=/, fstype=ext4").lookup " fstype" = some "ext4" ∧
      (dictedTagstring "mount=/, fstype=ext4").lookup " fstype" = none ∧
      spacedStrategies.map (fun hs => (hs.hostname, hs.strategies.map fun s => (s.id, s.metric))) =
        [("web", [(5, "df.bytes.free")])] ∧
      (recvMetricValue (fun _ => none) 100 (some spacedValue)).map (fun d =>
        (checkStrategy (rebuildStrategyMap spacedStrategies) (convert2JudgeItem 30 d)).length) =
        some 0 := by
  refine ⟨?_, ?_, ?_, ?_⟩ <;> decide +kernel

end OpenFalcon.Hbs
