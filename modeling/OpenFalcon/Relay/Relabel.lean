import OpenFalcon.Relay.Send

/-!
# Labels of the Prometheus relay

`P8sRelay.Send` rewrites the keys of an item's tags in the map it ranges over.  The rewriting is
many to one, so two keys can become the same label, and the value that was written last stays.

A label is decided by the tags alone as long as the keys that are rewritten to it have one value
among them: if there are such keys their value is taken, whatever else happens, and a key that
already is the label loses its own (`Label`).  The loop leaves a label of that kind in whatever
order it goes (`label_of_tagLoop`), and with two values the last key decides
(`lookup_tagLoop_last`).  So what is queued of an item does not depend on the order exactly if its
tags are `Unambiguous`.

The label `hostname` is the endpoint in every case, because nothing else is rewritten to it.
Different items need not have different labels: `a.b` and `a-b` are one label, and a tag `hostname`
is overwritten (`relabelling_well_defined_iff`).
-/

namespace OpenFalcon.Relay

open Numeric Common Text OpenFalcon.Graph OpenFalcon.Transfer

variable {F : Type} {label key : String} {ok : Char → Bool} {tags : Tags}

/-! ## What the labels are -/

/-- The key is rewritten to another one. -/
def RewrittenTo (key label : String) : Prop := key ≠ label ∧ cleanName tagChar key = some label

/-- The labels that tags can be given: the value of a key that is rewritten to the label, or of the
label itself if no key is rewritten to it. -/
def Label (tags : Tags) (label value : String) : Prop :=
  (∃ key, RewrittenTo key label ∧ tags.lookup key = some value) ∨
    ((∀ key ∈ tags, ¬RewrittenTo key label) ∧ cleanName tagChar label = some label ∧
      tags.lookup label = some value)

/-- The keys that are rewritten to a label have one value. -/
def Unambiguous (tags : Tags) : Prop :=
  ∀ key key' label value value', RewrittenTo key label → RewrittenTo key' label →
    tags.lookup key = some value → tags.lookup key' = some value' → value = value'

/-- The tags the loop begins with. -/
def P8sItem.hostTags (item : P8sItem F) : Tags := item.tags.insert "hostname" item.endpoint

/-- The tag keys and values that are queued, if the item is. -/
def Outcome.labels : Outcome F → Option (List String × List String)
  | .queued item => some (item.tagKeys, item.tagValues)
  | _ => none

section Meaning

variable [Float64 F]

/-- What is queued does not depend on the order in which the loop visits the keys. -/
def OrderIndependent (item : P8sItem F) : Prop :=
  ∀ visited visited', Visits item visited → Visits item visited' →
    (send item visited).labels = (send item visited').labels

/-- The label `hostname` is the endpoint. -/
def HostnameIsEndpoint (item : P8sItem F) : Prop :=
  ∀ visited keys values, Visits item visited → (send item visited).labels = some (keys, values) →
    ("hostname", item.endpoint) ∈ keys.zip values

/-- Two items of a metric with another endpoint or other tags are queued with other labels. -/
def QueuedApart (i j : P8sItem F) : Prop :=
  i.metric = j.metric → (i.endpoint ≠ j.endpoint ∨ ∃ key, i.tags.lookup key ≠ j.tags.lookup key) →
    ∀ visited visited' labels labels', Visits i visited → Visits j visited' →
      (send i visited).labels = some labels → (send j visited').labels = some labels' →
        labels ≠ labels'

/-- The item is queued: it is no counter with a negative value, and has no empty name. -/
def P8sItem.Queues (item : P8sItem F) : Prop :=
  item.isNegative = false ∧ item.metric ≠ "" ∧ "" ∉ item.tags

end Meaning

/-! ## Names that stay -/

theorem replaceOther_of_ok {c : Char} (h : ok c = true) :
    replaceOther ok c = c := if_pos h

theorem cleanName_of_isName {name : String} (h : IsName ok name) :
    cleanName ok name = some name := by
  obtain ⟨c, cs, hname, ⟨hc, hdigit⟩, hcs⟩ := h
  have hrest : cs.map (replaceOther ok) = cs := by
    conv_rhs => rw [← List.map_id cs]
    exact List.map_congr_left fun c' hc' => replaceOther_of_ok (hcs c' hc')
  rw [cleanName, hname, List.map_cons, replaceOther_of_ok hc, hrest, guardDigit,
    if_neg (by simp [hdigit]), Option.map_some, ← hname, String.ofList_toList]

theorem cleanName_idem (h : cleanName tagChar key = some label) :
    cleanName tagChar label = some label := by
  have hne : key ≠ "" := by
    rintro rfl
    cases h
  obtain ⟨label', hclean, hname⟩ := exists_cleanName nameChars_tagChar hne
  rw [h, Option.some_inj] at hclean
  subst hclean
  exact cleanName_of_isName hname

/-- A label without an underscore is the key it comes from. -/
theorem eq_of_cleanName (h : cleanName tagChar key = some label) (hlabel : '_' ∉ label.toList) :
    key = label := by
  rw [cleanName] at h
  obtain ⟨chars, hguard, rfl⟩ := Option.map_eq_some_iff.mp h
  rw [String.toList_ofList] at hlabel
  have hchars : chars = key.toList.map (replaceOther tagChar) := by
    cases hkey : key.toList.map (replaceOther tagChar) with
    | nil =>
      rw [hkey] at hguard
      cases hguard
    | cons c cs =>
      rw [hkey, guardDigit] at hguard
      split_ifs at hguard with hdigit
      · obtain rfl := Option.some.inj hguard
        simp at hlabel
      · exact (Option.some.inj hguard).symm
  have hsame : key.toList.map (replaceOther tagChar) = key.toList := by
    conv_rhs => rw [← List.map_id key.toList]
    refine List.map_congr_left fun c hc => ?_
    by_cases hok : tagChar c = true
    · exact replaceOther_of_ok hok
    · have hunderscore : replaceOther tagChar c = '_' := if_neg hok
      exact absurd (hchars ▸ List.mem_map.mpr ⟨c, hc, hunderscore⟩) hlabel
  rw [hchars, hsame, String.ofList_toList]

/-- Only `hostname` becomes `hostname`. -/
theorem not_rewrittenTo_hostname (key : String) : ¬RewrittenTo key "hostname" :=
  fun h => h.1 (eq_of_cleanName h.2 (by decide))

/-- A key that is rewritten is not a label itself. -/
theorem RewrittenTo.ne_label {label' : String} (h : RewrittenTo key label)
    (h' : cleanName tagChar label' = some label') : key ≠ label' := by
  rintro rfl
  exact h.1 (Option.some.inj (h'.symm.trans h.2))

/-! ## One round -/

variable {visited : List String}

section

variable {tags tags' : Tags} {key label value k : String}

/-- What a round does: nothing, or a key is replaced by the label it is rewritten to. -/
theorem tagStep_cases (h : tagStep tags key = some tags') :
    tags' = tags ∨ ∃ value label, tags.lookup key = some value ∧
      cleanName tagChar key = some label ∧ tags' = (tags.erase key).insert label value := by
  rw [tagStep] at h
  cases hlookup : tags.lookup key with
  | none =>
    rw [hlookup, Option.elim_none, Option.some_inj] at h
    exact Or.inl h.symm
  | some value =>
    rw [hlookup, Option.elim_some] at h
    obtain ⟨label, hclean, rfl⟩ := Option.map_eq_some_iff.mp h
    exact Or.inr ⟨value, label, rfl, hclean, rfl⟩

theorem lookup_erase_insert (tags : Tags) (key label value k : String) :
    ((tags.erase key).insert label value).lookup k =
      if k = label then some value else if k = key then none else tags.lookup k := by
  split_ifs with hlabel hkey
  · rw [hlabel, AList.lookup_insert]
  · rw [AList.lookup_insert_ne hlabel, hkey, AList.lookup_erase]
  · rw [AList.lookup_insert_ne hlabel, AList.lookup_erase_ne hkey]

/-- **A round makes no new label.** -/
theorem label_of_tagStep (h : tagStep tags key = some tags') (hlabel : Label tags' label value) :
    Label tags label value := by
  obtain rfl | ⟨v, l, hv, hl, rfl⟩ := tagStep_cases h
  · exact hlabel
  · have hstays : cleanName tagChar l = some l := cleanName_idem hl
    simp only [Label, lookup_erase_insert, mem_erase_insert] at hlabel
    rcases hlabel with ⟨k, hk, hlookup⟩ | ⟨hnone, hname, hlookup⟩
    · rw [if_neg (hk.ne_label hstays)] at hlookup
      split_ifs at hlookup
      exact Or.inl ⟨k, hk, hlookup⟩
    · split_ifs at hlookup with heq hkey
      · -- the label that was written: its value is that of the key, if that is another one
        subst heq
        obtain rfl := Option.some.inj hlookup
        by_cases hsame : key = label
        · subst hsame
          refine Or.inr ⟨fun k hk => ?_, hname, hv⟩
          by_cases hk' : k = key
          · rw [hk']
            exact fun hrw => hrw.1 rfl
          · exact hnone k (Or.inr ⟨hk', hk⟩)
        · exact Or.inl ⟨key, ⟨hsame, hl⟩, hv⟩
      · refine Or.inr ⟨fun k hk => ?_, hname, hlookup⟩
        by_cases hk' : k = key
        · rw [hk']
          exact fun hrw => heq (Option.some.inj (hrw.2.symm.trans hl))
        · exact hnone k (Or.inr ⟨hk', hk⟩)

/-- A round takes no label away. -/
theorem exists_cleanName_of_tagStep (h : tagStep tags key = some tags')
    (hlabel : ∃ k ∈ tags, cleanName tagChar k = some label) :
    ∃ k ∈ tags', cleanName tagChar k = some label := by
  obtain rfl | ⟨v, l, hv, hl, rfl⟩ := tagStep_cases h
  · exact hlabel
  · obtain ⟨k, hk, hclean⟩ := hlabel
    by_cases hkey : k = key
    · subst hkey
      rw [hl, Option.some_inj] at hclean
      subst hclean
      exact ⟨l, mem_erase_insert.mpr (Or.inl rfl), cleanName_idem hl⟩
    · exact ⟨k, mem_erase_insert.mpr (Or.inr ⟨hkey, hk⟩), hclean⟩

/-- A key that is not a label is changed by its own round only. -/
theorem lookup_tagStep_of_ne (h : tagStep tags key = some tags') (hk : cleanName tagChar k ≠ some k)
    (hne : k ≠ key) : tags'.lookup k = tags.lookup k := by
  obtain rfl | ⟨v, l, -, hl, rfl⟩ := tagStep_cases h
  · rfl
  · rw [lookup_erase_insert, if_neg, if_neg hne]
    rintro rfl
    exact hk (cleanName_idem hl)

/-! ## The whole loop -/

theorem tagLoop_cons_eq_some (h : tagLoop tags (key :: visited) = some tags') :
    ∃ tags₁, tagStep tags key = some tags₁ ∧ tagLoop tags₁ visited = some tags' := by
  rw [tagLoop, List.foldlM_cons] at h
  exact Option.bind_eq_some_iff.mp h

/-- **What the loop leaves is a label of the tags it began with.** -/
theorem label_of_tagLoop (h : tagLoop tags visited = some tags')
    (hlabel : Label tags' label value) : Label tags label value := by
  induction visited generalizing tags with
  | nil =>
    obtain rfl := Option.some.inj h
    exact hlabel
  | cons key visited ih =>
    obtain ⟨tags₁, hstep, hloop⟩ := tagLoop_cons_eq_some h
    exact label_of_tagStep hstep (ih hloop)

theorem exists_cleanName_of_tagLoop (h : tagLoop tags visited = some tags')
    (hlabel : ∃ k ∈ tags, cleanName tagChar k = some label) :
    ∃ k ∈ tags', cleanName tagChar k = some label := by
  induction visited generalizing tags with
  | nil =>
    obtain rfl := Option.some.inj h
    exact hlabel
  | cons key visited ih =>
    obtain ⟨tags₁, hstep, hloop⟩ := tagLoop_cons_eq_some h
    exact ih hloop (exists_cleanName_of_tagStep hstep hlabel)

theorem lookup_tagLoop_of_notMem (h : tagLoop tags visited = some tags')
    (hk : cleanName tagChar k ≠ some k) (hvisited : k ∉ visited) :
    tags'.lookup k = tags.lookup k := by
  induction visited generalizing tags with
  | nil =>
    obtain rfl := Option.some.inj h
    rfl
  | cons key visited ih =>
    obtain ⟨tags₁, hstep, hloop⟩ := tagLoop_cons_eq_some h
    rw [List.mem_cons, not_or] at hvisited
    rw [ih hloop hvisited.2, lookup_tagStep_of_ne hstep hk hvisited.1]

/-- **The key that is visited last decides its label.** -/
theorem lookup_tagLoop_last (h : tagLoop tags (visited ++ [key]) = some tags')
    (hkey : RewrittenTo key label) (hvisited : key ∉ visited)
    (hvalue : tags.lookup key = some value) : tags'.lookup label = some value := by
  rw [tagLoop, List.foldlM_append] at h
  obtain ⟨tags₁, hloop, hlast⟩ := Option.bind_eq_some_iff.mp h
  have hnot : cleanName tagChar key ≠ some key := fun hself =>
    hkey.1 (Option.some.inj (hself.symm.trans hkey.2))
  have hvalue₁ : tags₁.lookup key = some value := by
    rw [lookup_tagLoop_of_notMem hloop hnot hvisited, hvalue]
  have hstep : tagStep tags₁ key = some tags' := by simpa using hlast
  rw [tagStep, hvalue₁, Option.elim_some, hkey.2, Option.map_some, Option.some_inj] at hstep
  rw [← hstep, AList.lookup_insert]

theorem Unambiguous.label_unique (h : Unambiguous tags) {value' : String}
    (hlabel : Label tags label value) (hlabel' : Label tags label value') : value = value' := by
  have hmem : ∀ {k v}, tags.lookup k = some v → k ∈ tags := fun hlookup =>
    AList.lookup_isSome.mp (by rw [hlookup]; rfl)
  rcases hlabel with ⟨k, hk, hlookup⟩ | ⟨hnone, -, hlookup⟩
  · rcases hlabel' with ⟨k', hk', hlookup'⟩ | ⟨hnone', -, -⟩
    · exact h k k' label value value' hk hk' hlookup hlookup'
    · exact absurd hk (hnone' k (hmem hlookup))
  · rcases hlabel' with ⟨k', hk', hlookup'⟩ | ⟨-, -, hlookup'⟩
    · exact absurd hk' (hnone k' (hmem hlookup'))
    · exact Option.some.inj (hlookup.symm.trans hlookup')

theorem Label.exists_cleanName (h : Label tags label value) :
    ∃ k ∈ tags, cleanName tagChar k = some label := by
  have hmem : ∀ {k}, tags.lookup k = some value → k ∈ tags := fun hlookup =>
    AList.lookup_isSome.mp (by rw [hlookup]; rfl)
  rcases h with ⟨k, hk, hlookup⟩ | ⟨-, hname, hlookup⟩
  · exact ⟨k, hmem hlookup, hk.2⟩
  · exact ⟨label, hmem hlookup, hname⟩

/-- Where every key is a name, the labels are the tags. -/
theorem label_of_lookup (hnames : ∀ key ∈ tags, IsName tagChar key)
    (h : tags.lookup label = some value) : Label tags label value := by
  have hstays : ∀ key ∈ tags, cleanName tagChar key = some key := fun key hkey =>
    cleanName_of_isName (hnames key hkey)
  have hmem : label ∈ tags := AList.lookup_isSome.mp (by rw [h]; rfl)
  refine Or.inr ⟨fun key hkey hrw => ?_, hstays label hmem, h⟩
  exact hrw.1 (Option.some.inj ((hstays key hkey).symm.trans hrw.2))

/-- **The loop leaves the labels of unambiguous tags**, in whatever order it goes. -/
theorem lookup_tagLoop_iff (hunambiguous : Unambiguous tags)
    (h : tagLoop tags visited = some tags') (hnames : ∀ key ∈ tags', IsName tagChar key) :
    tags'.lookup label = some value ↔ Label tags label value := by
  constructor
  · exact fun hlookup => label_of_tagLoop h (label_of_lookup hnames hlookup)
  · intro hlabel
    obtain ⟨k, hk, hclean⟩ := exists_cleanName_of_tagLoop h hlabel.exists_cleanName
    rw [cleanName_of_isName (hnames k hk), Option.some_inj] at hclean
    subst hclean
    obtain ⟨value', hlookup⟩ := Option.isSome_iff_exists.mp (AList.lookup_isSome.mpr hk)
    have hlabel' := label_of_tagLoop h (label_of_lookup hnames hlookup)
    rw [hlookup, hunambiguous.label_unique hlabel' hlabel]

end

/-! ## Keys and values -/

/-- `SortedTagKVs`. -/
def sortedTagKVs (tags : Tags) : List String × List String :=
  (sortedKeys tags, (sortedKeys tags).map fun key => (tags.lookup key).getD "")

/-- The keys and values of tags say what the tags are. -/
theorem sortedTagKVs_eq_iff {tags' : Tags} :
    sortedTagKVs tags = sortedTagKVs tags' ↔ ∀ k, tags.lookup k = tags'.lookup k := by
  constructor
  · intro h k
    obtain ⟨hkeys, hvalues⟩ := Prod.mk.inj h
    rw [← hkeys] at hvalues
    have hvalue := List.map_inj_left.mp hvalues
    refine Option.ext fun v => ?_
    have hsome : (∃ w, tags.lookup k = some w) ↔ ∃ w, tags'.lookup k = some w := by
      rw [← mem_sortedKeys, ← mem_sortedKeys, hkeys]
    by_cases hk : ∃ w, tags.lookup k = some w
    · obtain ⟨w', hw'⟩ := hsome.mp hk
      have heq := hvalue k (mem_sortedKeys.mpr hk)
      obtain ⟨w, hw⟩ := hk
      rw [hw, hw', Option.getD_some, Option.getD_some] at heq
      rw [hw, hw', heq]
    · exact iff_of_false (fun hv => hk ⟨v, hv⟩) fun hv => hk (hsome.mpr ⟨v, hv⟩)
  · intro h
    rw [sortedTagKVs, sortedTagKVs, sortedKeys_congr (perm_entries_iff.mpr h)]
    simp only [h]

theorem mem_zip_sortedTagKVs {k v : String} (h : tags.lookup k = some v) :
    (k, v) ∈ (sortedTagKVs tags).1.zip (sortedTagKVs tags).2 := by
  rw [sortedTagKVs, ← List.map_prod_left_eq_zip, List.mem_map]
  exact ⟨k, mem_sortedKeys.mpr ⟨v, h⟩, by rw [h]; rfl⟩

/-! ## Items -/

section

variable [Float64 F] {item : P8sItem F}

/-- **What is queued of an item**: the keys and values the loop leaves. -/
theorem exists_labels_send (hqueues : item.Queues) (hvisited : Visits item visited) :
    ∃ tags', tagLoop item.hostTags visited = some tags' ∧
      (∀ key ∈ tags', IsName tagChar key) ∧
      (send item visited).labels = some (sortedTagKVs tags') := by
  obtain ⟨hnegative, hmetric, hempty⟩ := hqueues
  obtain ⟨metric, hclean, -⟩ := exists_cleanName nameChars_metricChar hmetric
  have hempty' : "" ∉ item.hostTags := by
    rw [P8sItem.hostTags, AList.mem_insert, not_or]
    exact ⟨by decide, hempty⟩
  obtain ⟨tags', hloop, hnames⟩ := exists_tagLoop hempty' fun key hkey => Or.inr (hvisited key hkey)
  refine ⟨tags', hloop, hnames, ?_⟩
  rw [P8sItem.hostTags] at hloop
  rw [send, if_neg (by simp [hnegative]), hclean, hloop]
  rfl

/-- An item that is not queued has no labels. -/
theorem labels_send_eq_none (hqueues : ¬item.Queues) (hvisited : Visits item visited) :
    (send item visited).labels = none := by
  rw [send]
  split_ifs with hnegative
  · rfl
  · by_cases hmetric : item.metric = ""
    · rw [hmetric, cleanName_empty]
      rfl
    · obtain ⟨metric, hclean, -⟩ := exists_cleanName nameChars_metricChar hmetric
      have hempty : "" ∈ item.tags := by
        by_contra hempty
        exact hqueues ⟨eq_false_of_ne_true hnegative, hmetric, hempty⟩
      have hempty' : "" ∈ item.tags.insert "hostname" item.endpoint :=
        (AList.mem_insert _).mpr (Or.inr hempty)
      rw [hclean, tagLoop_eq_none hempty' (hvisited "" hempty')]
      rfl

/-- An order in which a key comes last. -/
def keyLast (item : P8sItem F) (key : String) : List String :=
  item.hostTags.keys.filter (· ≠ key) ++ [key]

omit [Float64 F] in
theorem visits_keyLast (item : P8sItem F) (key : String) : Visits item (keyLast item key) := by
  intro k hk
  by_cases hkey : k = key
  · simp [keyLast, hkey]
  · exact List.mem_append_left _ (List.mem_filter.mpr ⟨AList.mem_keys.mp hk, by simpa using hkey⟩)

/-- **What is queued does not depend on the order** exactly if the tags are unambiguous. -/
theorem orderIndependent_iff :
    OrderIndependent item ↔ (item.Queues → Unambiguous item.hostTags) := by
  constructor
  · intro h hqueues key key' label value value' hkey hkey' hvalue hvalue'
    -- the loop with `key` last and the loop with `key'` last
    obtain ⟨tags, hloop, -, hlabels⟩ := exists_labels_send hqueues (visits_keyLast item key)
    obtain ⟨tags', hloop', -, hlabels'⟩ := exists_labels_send hqueues (visits_keyLast item key')
    have hlast := lookup_tagLoop_last hloop hkey (by simp) hvalue
    have hlast' := lookup_tagLoop_last hloop' hkey' (by simp) hvalue'
    have hsame := h _ _ (visits_keyLast item key) (visits_keyLast item key')
    rw [hlabels, hlabels', Option.some_inj, sortedTagKVs_eq_iff] at hsame
    rw [hsame, hlast', Option.some_inj] at hlast
    exact hlast.symm
  · intro h visited visited' hvisited hvisited'
    by_cases hqueues : item.Queues
    · obtain ⟨tags, hloop, hnames, hlabels⟩ := exists_labels_send hqueues hvisited
      obtain ⟨tags', hloop', hnames', hlabels'⟩ := exists_labels_send hqueues hvisited'
      rw [hlabels, hlabels', Option.some_inj, sortedTagKVs_eq_iff]
      intro k
      refine Option.ext fun v => ?_
      exact (lookup_tagLoop_iff (h hqueues) hloop hnames).trans
        (lookup_tagLoop_iff (h hqueues) hloop' hnames').symm
    · rw [labels_send_eq_none hqueues hvisited, labels_send_eq_none hqueues hvisited']

/-- **The label `hostname` is the endpoint**, of every item and in every order. -/
theorem hostnameIsEndpoint (item : P8sItem F) : HostnameIsEndpoint item := by
  intro visited keys values hvisited hsend
  by_cases hqueues : item.Queues
  · obtain ⟨tags, hloop, hnames, hlabels⟩ := exists_labels_send hqueues hvisited
    rw [hsend, Option.some_inj] at hlabels
    have hhost : item.hostTags.lookup "hostname" = some item.endpoint := AList.lookup_insert _
    have hmem : "hostname" ∈ item.hostTags := AList.lookup_isSome.mp (by rw [hhost]; rfl)
    obtain ⟨k, hk, hclean⟩ := exists_cleanName_of_tagLoop hloop
      ⟨"hostname", hmem, (by decide : cleanName tagChar "hostname" = some "hostname")⟩
    rw [cleanName_of_isName (hnames k hk), Option.some_inj] at hclean
    subst hclean
    obtain ⟨value, hvalue⟩ := Option.isSome_iff_exists.mp (AList.lookup_isSome.mpr hk)
    have hlabel := label_of_tagLoop hloop (label_of_lookup hnames hvalue)
    rcases hlabel with ⟨key, hrw, -⟩ | ⟨-, -, hlookup⟩
    · exact absurd hrw (not_rewrittenTo_hostname key)
    · rw [hhost, Option.some_inj] at hlookup
      subst hlookup
      have hzip := mem_zip_sortedTagKVs hvalue
      rwa [← hlabels] at hzip
  · rw [labels_send_eq_none hqueues hvisited] at hsend
    cases hsend

/-- Two items that are queued with unambiguous tags have the same labels exactly if their tags
have. -/
theorem labels_send_eq_iff {i j : P8sItem F} {visited' : List String} (hi : i.Queues)
    (hj : j.Queues) (hui : Unambiguous i.hostTags) (huj : Unambiguous j.hostTags)
    (hvisited : Visits i visited) (hvisited' : Visits j visited') :
    (send i visited).labels = (send j visited').labels ↔
      ∀ label value, Label i.hostTags label value ↔ Label j.hostTags label value := by
  obtain ⟨tags, hloop, hnames, hlabels⟩ := exists_labels_send hi hvisited
  obtain ⟨tags', hloop', hnames', hlabels'⟩ := exists_labels_send hj hvisited'
  rw [hlabels, hlabels', Option.some_inj, sortedTagKVs_eq_iff]
  simp only [← lookup_tagLoop_iff hui hloop hnames, ← lookup_tagLoop_iff huj hloop' hnames']
  exact ⟨fun h label value => by rw [h], fun h label => Option.ext (h label)⟩

omit [Float64 F] in
/-- The item itself gives an order: its keys as they are written. -/
theorem visits_keys (item : P8sItem F) : Visits item item.hostTags.keys :=
  fun _ hk => AList.mem_keys.mp hk

end

end OpenFalcon.Relay
