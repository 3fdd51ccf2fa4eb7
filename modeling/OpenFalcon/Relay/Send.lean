import OpenFalcon.Relay.Counter
import OpenFalcon.Transfer.Receive

/-!
# The intake of the Prometheus relay

`P8sRelay.Send` of `modules/falcon2p8s/rpc/receiver.go` makes metric and tag names that Prometheus
accepts: it replaces the other characters by underscores and puts `F_` before a digit at the
beginning.  To find out whether there is one, it looks at the first character of the name.

A metric has one, since the intake of transfer refuses an empty metric.  A tag key need not: the tag
text `=v` is accepted there, as a tag with the empty key.  So the relay survives an item, and queues
it under names that Prometheus accepts, exactly if no tag of the text begins with its `=`, or the
item is dropped before its tags are looked at (`relay_survives_iff`).

The loop over the tags deletes and adds keys of the map it ranges over.  Go visits every key that
was there at the beginning and is still there when its turn comes, and may or may not visit those
that were added; so the keys it visits are a list that has all the first ones in it.
-/

namespace OpenFalcon.Relay

open Numeric Common Text OpenFalcon.Graph OpenFalcon.Transfer

variable {F : Type}

/-! ## The source -/

/-- `P8sItem` as it is sent. -/
structure P8sItem (F : Type) where
  endpoint : String
  metric : String
  tags : Tags
  value : F
  timestamp : Int
  metricType : MetricType
  step : Int

/-- The type of an item for Prometheus; there is none for `DERIVE`. -/
def p8sType (counterType : String) : Option MetricType :=
  if counterType = GAUGE then some .gauge
  else if counterType = COUNTER then some .counter
  else none

/-- `convert2P8sRelayItem` of transfer.  `fixed3` is what is left of a value that is written with
three decimals and read again. -/
def convert2P8sRelayItem (fixed3 : F → F) (minStep : Int) (d : MetaData F) : Option (P8sItem F) :=
  (p8sType d.counterType).map fun metricType =>
    { endpoint := d.endpoint
      metric := d.metric
      tags := d.tags
      value := fixed3 d.value
      timestamp := alignTs d.timestamp (stepAtLeast minStep d.step)
      metricType := metricType
      step := stepAtLeast minStep d.step }

/-- The characters of a metric. -/
def metricChar (c : Char) : Bool := c.isAlphanum || c = '_' || c = ':'

/-- The characters of a tag key. -/
def tagChar (c : Char) : Bool := c.isAlphanum || c = '_'

/-- `ReplaceAllString` with an underscore, on one character. -/
def replaceOther (ok : Char → Bool) (c : Char) : Char := if ok c then c else '_'

/-- `F_` before a digit; without a first character the look at it panics. -/
def guardDigit : List Char → Option (List Char)
  | [] => none
  | c :: cs => if c.isDigit then some ('F' :: '_' :: c :: cs) else some (c :: cs)

/-- A name of the given characters. -/
def cleanName (ok : Char → Bool) (name : String) : Option String :=
  (guardDigit (name.toList.map (replaceOther ok))).map String.ofList

/-- One round of the loop over the tags; a key that is not there any more is not visited. -/
def tagStep (tags : Tags) (key : String) : Option Tags :=
  (tags.lookup key).elim (some tags) fun value =>
    (cleanName tagChar key).map fun key' => (tags.erase key).insert key' value

/-- The loop over the tags, for the keys it visits. -/
def tagLoop (tags : Tags) (visited : List String) : Option Tags :=
  visited.foldlM tagStep tags

/-- An item as it is queued for the workers. -/
structure QueuedItem (F : Type) extends P8sItem F where
  tagKeys : List String
  tagValues : List String
  pk : String
  pkWithTagValue : String

/-- `utils.PK`. -/
def itemPK (metric : String) (tagKeys : List String) : String :=
  if tagKeys.isEmpty then metric else metric ++ "/" ++ ",".intercalate tagKeys

/-- `utils.PKWithTagValue`. -/
def pkWithTagValue (metric : String) (tags : Tags) : String :=
  if tags.entries.isEmpty then metric else metric ++ "/" ++ sortedTags tags

/-- The item with its new names, and what is computed from them. -/
def P8sItem.queued (item : P8sItem F) (metric : String) (tags : Tags) : QueuedItem F where
  endpoint := item.endpoint
  metric := metric
  tags := tags
  value := item.value
  timestamp := item.timestamp
  metricType := item.metricType
  step := item.step
  tagKeys := sortedKeys tags
  tagValues := (sortedKeys tags).map fun key => (tags.lookup key).getD ""
  pk := itemPK metric (sortedKeys tags)
  pkWithTagValue := pkWithTagValue metric tags

/-- What becomes of an item. -/
inductive Outcome (F : Type) where
  | dropped
  | panics
  | queued (item : QueuedItem F)

/-- The outcome of a step that may panic. -/
def Outcome.ofOption {α : Type} (x : Option α) (k : α → Outcome F) : Outcome F := x.elim .panics k

/-- A counter with a negative value, which is dropped. -/
def P8sItem.isNegative [Float64 F] (item : P8sItem F) : Bool :=
  item.metricType = .counter && Float64.lt item.value (Float64.ofRat 0)

/-- The goroutine of `P8sRelay.Send` for one item, where `visited` is what the loop over the tags
visits. -/
def send [Float64 F] (item : P8sItem F) (visited : List String) : Outcome F :=
  if item.isNegative then .dropped
  else
    .ofOption (cleanName metricChar item.metric) fun metric =>
      .ofOption (tagLoop (item.tags.insert "hostname" item.endpoint) visited) fun tags =>
        .queued (item.queued metric tags)

/-- The loop visits every key that is there when it begins. -/
def Visits (item : P8sItem F) (visited : List String) : Prop :=
  ∀ key ∈ item.tags.insert "hostname" item.endpoint, key ∈ visited

/-! ## Names -/

/-- A name of the given characters, the first of which is not a digit. -/
def IsName (ok : Char → Bool) (name : String) : Prop :=
  ∃ c cs, name.toList = c :: cs ∧ (ok c = true ∧ c.isDigit = false) ∧ ∀ c' ∈ cs, ok c' = true

/-- The relay goes on, and what it queued has names that Prometheus accepts. -/
def Outcome.Survives : Outcome F → Prop
  | .dropped => True
  | .panics => False
  | .queued item => IsName metricChar item.metric ∧ ∀ key ∈ item.tags, IsName tagChar key

/-- A class of characters that names can be made of. -/
structure NameChars (ok : Char → Bool) : Prop where
  underscore : ok '_' = true
  letter : ok 'F' = true

theorem nameChars_metricChar : NameChars metricChar := ⟨by decide, by decide⟩

theorem nameChars_tagChar : NameChars tagChar := ⟨by decide, by decide⟩

section Names

variable {ok : Char → Bool} {name : String}

theorem cleanName_empty (ok : Char → Bool) : cleanName ok "" = none := rfl

theorem ok_replaceOther (hok : NameChars ok) (c : Char) : ok (replaceOther ok c) = true := by
  rw [replaceOther]
  split_ifs with hc
  · exact hc
  · exact hok.underscore

/-- **A name that is not empty can be cleaned.** -/
theorem exists_cleanName (hok : NameChars ok) (hname : name ≠ "") :
    ∃ name', cleanName ok name = some name' ∧ IsName ok name' := by
  have hne : name.toList ≠ [] := fun hnil => hname (String.toList_eq_nil_iff.mp hnil)
  obtain ⟨c, cs, hcs⟩ := List.exists_cons_of_ne_nil hne
  have hfirst := ok_replaceOther hok c
  have hrest : ∀ c' ∈ cs.map (replaceOther ok), ok c' = true := by
    intro c' hc'
    obtain ⟨d, -, rfl⟩ := List.mem_map.mp hc'
    exact ok_replaceOther hok d
  rw [cleanName, hcs, List.map_cons, guardDigit]
  split_ifs with hdigit
  · refine ⟨_, rfl, 'F', _, String.toList_ofList, ⟨hok.letter, by decide⟩, ?_⟩
    rw [List.forall_mem_cons, List.forall_mem_cons]
    exact ⟨hok.underscore, hfirst, hrest⟩
  · exact ⟨_, rfl, _, _, String.toList_ofList, ⟨hfirst, eq_false_of_ne_true hdigit⟩, hrest⟩

theorem IsName.ne_empty (h : IsName ok name) : name ≠ "" := by
  rintro rfl
  obtain ⟨c, cs, hcs, -⟩ := h
  cases hcs

end Names

/-! ## The loop over the tags -/

section

variable {tags tags' : Tags} {key : String} {visited : List String}

theorem tagStep_of_notMem (hkey : key ∉ tags) : tagStep tags key = some tags := by
  rw [tagStep, AList.lookup_eq_none.mpr hkey, Option.elim_none]

theorem exists_tagStep (hkey : key ∈ tags) (hne : key ≠ "") :
    ∃ key' value, IsName tagChar key' ∧
      tagStep tags key = some ((tags.erase key).insert key' value) := by
  obtain ⟨value, hvalue⟩ := Option.isSome_iff_exists.mp (AList.lookup_isSome.mpr hkey)
  obtain ⟨key', hclean, hname⟩ := exists_cleanName nameChars_tagChar hne
  refine ⟨key', value, hname, ?_⟩
  rw [tagStep, hvalue, Option.elim_some, hclean, Option.map_some]

theorem tagStep_empty (hkey : "" ∈ tags) : tagStep tags "" = none := by
  obtain ⟨value, hvalue⟩ := Option.isSome_iff_exists.mp (AList.lookup_isSome.mpr hkey)
  rw [tagStep, hvalue, Option.elim_some, cleanName_empty, Option.map_none]

theorem mem_erase_insert {key' value : String} {k : String} :
    k ∈ (tags.erase key).insert key' value ↔ k = key' ∨ k ≠ key ∧ k ∈ tags := by
  rw [AList.mem_insert, AList.mem_erase]

/-- **The loop panics if there is an empty key**: no other visit takes it away. -/
theorem tagLoop_eq_none (hempty : "" ∈ tags) (hvisited : "" ∈ visited) :
    tagLoop tags visited = none := by
  induction visited generalizing tags with
  | nil => exact absurd hvisited List.not_mem_nil
  | cons key visited ih =>
    rw [tagLoop, List.foldlM_cons]
    by_cases hkey : key = ""
    · rw [hkey, tagStep_empty hempty]
      rfl
    · have hlater : "" ∈ visited := (List.mem_cons.mp hvisited).resolve_left (Ne.symm hkey)
      by_cases hmem : key ∈ tags
      · obtain ⟨key', value, -, hstep⟩ := exists_tagStep hmem hkey
        rw [hstep]
        exact ih (mem_erase_insert.mpr (Or.inr ⟨Ne.symm hkey, hempty⟩)) hlater
      · rw [tagStep_of_notMem hmem]
        exact ih hempty hlater

/-- **Without an empty key the loop comes to its end, and every key is a name**: a key that is not a
name yet is still to be visited. -/
theorem exists_tagLoop (hne : "" ∉ tags)
    (hvisited : ∀ key ∈ tags, IsName tagChar key ∨ key ∈ visited) :
    ∃ tags', tagLoop tags visited = some tags' ∧ ∀ key ∈ tags', IsName tagChar key := by
  induction visited generalizing tags with
  | nil =>
    exact ⟨tags, rfl, fun key hkey => (hvisited key hkey).resolve_right List.not_mem_nil⟩
  | cons key visited ih =>
    rw [tagLoop, List.foldlM_cons]
    by_cases hmem : key ∈ tags
    · have hkey : key ≠ "" := fun hempty => hne (hempty ▸ hmem)
      obtain ⟨key', value, hname, hstep⟩ := exists_tagStep hmem hkey
      rw [hstep]
      refine ih (fun hempty => ?_) fun k hk => ?_
      · rcases mem_erase_insert.mp hempty with heq | ⟨-, hmem⟩
        · exact hname.ne_empty heq.symm
        · exact hne hmem
      · rcases mem_erase_insert.mp hk with rfl | ⟨hother, hk⟩
        · exact Or.inl hname
        · refine (hvisited k hk).imp_right fun hin => ?_
          exact (List.mem_cons.mp hin).resolve_left hother
    · rw [tagStep_of_notMem hmem]
      refine ih hne fun k hk => (hvisited k hk).imp_right fun hin => ?_
      exact (List.mem_cons.mp hin).resolve_left fun heq => hmem (heq ▸ hk)

end

/-! ## Items -/

section

variable [Float64 F] {item : P8sItem F} {visited : List String}

/-- An item with a metric is survived exactly if it is dropped or has no empty key. -/
theorem survives_iff (hmetric : item.metric ≠ "") (hvisited : Visits item visited) :
    (send item visited).Survives ↔ item.isNegative = true ∨ "" ∉ item.tags := by
  rw [send]
  by_cases hdropped : item.isNegative = true
  · rw [if_pos hdropped]
    exact iff_of_true trivial (Or.inl hdropped)
  · obtain ⟨metric, hclean, hname⟩ := exists_cleanName nameChars_metricChar hmetric
    have hhost : ("" : String) ∈ item.tags.insert "hostname" item.endpoint ↔ "" ∈ item.tags := by
      rw [AList.mem_insert]
      exact or_iff_right (by decide)
    rw [if_neg hdropped, hclean, Outcome.ofOption, Option.elim_some]
    by_cases hempty : "" ∈ item.tags
    · rw [tagLoop_eq_none (hhost.mpr hempty) (hvisited "" (hhost.mpr hempty))]
      exact iff_of_false id fun h => h.elim hdropped fun hne => hne hempty
    · obtain ⟨tags, hloop, hkeys⟩ := exists_tagLoop (fun h => hempty (hhost.mp h))
        fun key hkey => Or.inr (hvisited key hkey)
      rw [hloop]
      exact iff_of_true ⟨hname, hkeys⟩ (Or.inr hempty)

omit [Float64 F] in
/-- A tag text has a tag with the empty key exactly if one of its tags begins with the `=`. -/
theorem empty_mem_dictedTagstring (tags : String) :
    "" ∈ dictedTagstring tags ↔ ∃ tag ∈ (dropSpaces tags).splitOn ',', tag.head? = some '=' := by
  rw [mem_dictedTagstring]
  constructor
  · rintro ⟨v, hv⟩
    obtain ⟨tag, htag, hcut⟩ := List.mem_map.mp hv
    refine ⟨tag, htag, ?_⟩
    rw [(cut_eq_some_iff.mp hcut).1]
    rfl
  · rintro ⟨tag, htag, hhead⟩
    obtain ⟨v, rfl⟩ := List.head?_eq_some_iff.mp hhead
    exact ⟨v, List.mem_map.mpr ⟨_, htag, cut_append_cons List.not_mem_nil v⟩⟩

omit [Float64 F] in
theorem empty_notMem_dictedTagstring (tags : String) :
    "" ∉ dictedTagstring tags ↔ ∀ tag ∈ (dropSpaces tags).splitOn ',', tag.head? ≠ some '=' := by
  rw [empty_mem_dictedTagstring]
  push Not
  exact Iff.rfl

omit [Float64 F] in
theorem p8sType_eq_counter_iff {counterType : String} {metricType : MetricType}
    (h : p8sType counterType = some metricType) :
    metricType = .counter ↔ counterType = COUNTER := by
  rw [p8sType] at h
  split_ifs at h with hgauge hcounter
  · obtain rfl := Option.some_inj.mp h
    refine iff_of_false (by decide) ?_
    rw [hgauge]
    decide
  · obtain rfl := Option.some_inj.mp h
    exact iff_of_true rfl hcounter

/-- **The relay survives an item of transfer exactly if none of its tags begins with the `=`, or it
is a counter with a negative value.** -/
theorem relay_survives_iff {parseFloat : String → Option F} {now : Int} {v : MetricValue F}
    {d : MetaData F} (hrecv : recvMetricValue parseFloat now (some v) = some d) {fixed3 : F → F}
    {minStep : Int} (hconvert : convert2P8sRelayItem fixed3 minStep d = some item)
    (hvisited : Visits item visited) :
    (send item visited).Survives ↔
      (v.type = COUNTER ∧ Float64.lt (fixed3 d.value) (Float64.ofRat 0) = true) ∨
        ∀ tag ∈ (dropSpaces v.tags).splitOn ',', tag.head? ≠ some '=' := by
  obtain ⟨v', vv, hv', hchecks, -, rfl⟩ := recvMetricValue_eq_some_iff.mp hrecv
  cases hv'
  obtain ⟨metricType, htype, rfl⟩ := Option.map_eq_some_iff.mp hconvert
  have hmetric : v.metric ≠ "" := hchecks.metric_ne_empty
  rw [survives_iff hmetric hvisited]
  refine or_congr ?_ ?_
  · rw [P8sItem.isNegative, Bool.and_eq_true, decide_eq_true_iff]
    exact and_congr_left fun _ => p8sType_eq_counter_iff htype
  · exact empty_notMem_dictedTagstring v.tags

end

/-! ## Two items -/

/-- A gauge with the given tags, as an agent sends it. -/
def gaugeWith (tags : String) : MetricValue QFloat :=
  ⟨"host", "2xx.rate", .float (.num 7), 60, GAUGE, tags, 60⟩

/-- What the relay gets of it. -/
def relayed (tags : String) : P8sItem QFloat :=
  ⟨"host", "2xx.rate", dictedTagstring tags, .num 7, 60, .gauge, 60⟩

theorem recvMetricValue_gaugeWith {tags : String} (hsize : 8 + tags.utf8ByteSize ≤ 510) :
    recvMetricValue (fun _ => none) 100 (some (gaugeWith tags)) =
      some (dataOf 100 (gaugeWith tags) (.num 7)) := by
  have hhostname : "2xx.rate" ≠ "kernel.hostname" := by decide
  have hmetric : "2xx.rate" ≠ "" := by decide
  have hendpoint : "host" ≠ "" := by decide
  have hstep : (0 : Int) < 60 := by decide
  exact recvMetricValue_eq_some_iff.mpr ⟨gaugeWith tags, .num 7, rfl,
    ⟨hhostname, hmetric, hendpoint, Or.inr (Or.inl rfl), rfl, hstep, hsize, rfl⟩, rfl, rfl⟩

theorem convert2P8sRelayItem_gaugeWith (tags : String) :
    convert2P8sRelayItem id 30 (dataOf 100 (gaugeWith tags) (.num 7)) = some (relayed tags) :=
  rfl

/-- An item with names that need cleaning is survived. -/
theorem relay_survives_uncleaned :
    Visits (relayed "1st-try=a,b.c=d") ["hostname", "1st-try", "b.c"] ∧
      (send (relayed "1st-try=a,b.c=d") ["hostname", "1st-try", "b.c"]).Survives := by
  have hvisited : Visits (relayed "1st-try=a,b.c=d") ["hostname", "1st-try", "b.c"] := by
    show ∀ key ∈ ((relayed "1st-try=a,b.c=d").tags.insert "hostname" "host").keys, key ∈ _
    decide +kernel
  refine ⟨hvisited, (relay_survives_iff (recvMetricValue_gaugeWith (by decide))
    (convert2P8sRelayItem_gaugeWith _) hvisited).mpr (Or.inr ?_)⟩
  decide +kernel

/-- A tag without a key, which transfer accepts and forwards, makes the relay panic. -/
theorem relay_panics :
    recvMetricValue (fun _ => none) 100 (some (gaugeWith "=v")) =
        some (dataOf 100 (gaugeWith "=v") (.num 7)) ∧
      convert2P8sRelayItem id 30 (dataOf 100 (gaugeWith "=v") (.num 7)) = some (relayed "=v") ∧
      send (relayed "=v") ["hostname", ""] = .panics ∧
      ¬ (send (relayed "=v") ["hostname", ""]).Survives := by
  have hpanics : send (relayed "=v") ["hostname", ""] = .panics := by
    rw [send, if_neg (by decide +kernel), tagLoop_eq_none]
    · rfl
    · show "" ∈ ((relayed "=v").tags.insert "hostname" "host").keys
      decide +kernel
    · decide
  refine ⟨recvMetricValue_gaugeWith (by decide), convert2P8sRelayItem_gaugeWith _, hpanics, ?_⟩
  rw [hpanics]
  exact id

end OpenFalcon.Relay
