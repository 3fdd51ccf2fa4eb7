import OpenFalcon.Text.Lines
import OpenFalcon.Transfer.Receive

/-!
# The lines sent to OpenTSDB

`convert2TsdbItem` of `modules/transfer/sender/sender.go` makes an item of accepted data,
`TsdbString` of `common/model/tsdb.go` writes it as `put metric ts value k=v ...`, and
`forward2TsdbTask` of `modules/transfer/sender/send_tasks.go` sends a batch of them with a
newline after each.

The writer replaces the spaces in tags and nothing else.  The intake drops spaces in tags, and
takes metrics, endpoints and tags with any other character in them.  A batch is read back as
one line for each point exactly if no metric has a space or a newline, and no endpoint and no
tag has a newline (`oneLinePerPoint_tsdbBuffer_iff`); a metric with both is sent as a point of
whatever endpoint it names (`metric_injects_line`).  A tag named `endpoint` may have anything
in it: the endpoint of the item is put in its place.
-/

namespace OpenFalcon.Transfer

open Numeric Common Assoc Text

variable {F : Type}

/-! ## The source -/

/-- `model.TsdbItem`. -/
structure TsdbItem (F : Type) where
  metric : String
  tags : Tags
  value : F
  timestamp : Int

/-- `convert2TsdbItem`. -/
def convert2TsdbItem (d : MetaData F) : TsdbItem F where
  metric := d.metric
  tags := (overrideAll ∅ d.tags.entries).insert "endpoint" d.endpoint
  value := d.value
  timestamp := d.timestamp

/-- What a line takes from the Go library: `%.3f` writes a number without spaces, and
`unicode.ToLower` makes no space and no newline of another character. -/
structure Format (F : Type) where
  fixed3 : F → String
  toLower : Char → Char
  fixed3_ne_empty : ∀ x, fixed3 x ≠ ""
  space_notMem_fixed3 : ∀ x, ' ' ∉ (fixed3 x).toList
  newline_notMem_fixed3 : ∀ x, '\n' ∉ (fixed3 x).toList
  eq_space_of_toLower : ∀ c, toLower c = ' ' → c = ' '
  toLower_eq_newline_iff : ∀ c, toLower c = '\n' ↔ c = '\n'

/-- `strings.Replace(s, " ", "_", -1)`. -/
def replaceSpaces (s : String) : String :=
  String.ofList (s.toList.map fun c => if c = ' ' then '_' else c)

variable (fmt : Format F)

/-- `strings.ToLower`. -/
def Format.lower (s : String) : String := String.ofList (s.toList.map fmt.toLower)

/-- A tag as it is written. -/
def tagToken (tag : Σ _ : String, String) : String :=
  fmt.lower (replaceSpaces tag.1) ++ "=" ++ replaceSpaces tag.2

/-- `TsdbString`. -/
def tsdbString (item : TsdbItem F) (visit : Visit item.tags) : String :=
  visit.entries.foldl (fun s tag => s ++ (tagToken fmt tag ++ " "))
    ("put " ++ item.metric ++ " " ++ toString item.timestamp ++ " " ++ fmt.fixed3 item.value ++ " ")

/-- An item of a batch: a value that was accepted, and the order its tags are written in. -/
structure Point [Float64 F] (parseFloat : String → Option F) where
  value : MetricValue F
  now : Int
  data : MetaData F
  accepted : recvMetricValue parseFloat now (some value) = some data
  visit : Visit (convert2TsdbItem data).tags

section

variable [Float64 F] {parseFloat : String → Option F}

/-- The line of a point. -/
def Point.line (p : Point parseFloat) : String := tsdbString fmt (convert2TsdbItem p.data) p.visit

/-- The buffer `forward2TsdbTask` sends. -/
def tsdbBuffer (points : List (Point parseFloat)) : String :=
  points.foldl (fun buffer p => buffer ++ p.line fmt ++ "\n") ""

/-! ## What is meant -/

/-- A line says a point: between its spaces it has `put`, the metric, the time and the value,
and one text `k=v` for each tag. -/
structure SaysPoint (line : List Char) (p : Point parseFloat) : Prop where
  newline_notMem : '\n' ∉ line
  words_eq : words ' ' line =
    ["put".toList, p.value.metric.toList, (toString p.data.timestamp).toList,
      (fmt.fixed3 p.data.value).toList] ++ p.visit.entries.map fun tag => (tagToken fmt tag).toList

/-- A payload is one line for each point, in their order. -/
def OneLinePerPoint (payload : String) (points : List (Point parseFloat)) : Prop :=
  ∃ lines, payload.toList = unlines '\n' lines ∧ List.Forall₂ (SaysPoint fmt) lines points

/-- A value that is written as one line: its metric has no space and no newline, and its
endpoint and its tags have no newline.  What stands in a tag `endpoint` does not matter. -/
structure LineSafe (v : MetricValue F) : Prop where
  space_notMem_metric : ' ' ∉ v.metric.toList
  newline_notMem_metric : '\n' ∉ v.metric.toList
  newline_notMem_endpoint : '\n' ∉ v.endpoint.toList
  newline_notMem_tags : ∀ k w, k ≠ "endpoint" → (dictedTagstring v.tags).lookup k = some w →
    '\n' ∉ k.toList ∧ '\n' ∉ w.toList

end

/-! ## Tags -/

theorem lookup_tags_convert2TsdbItem (d : MetaData F) (k : String) :
    (convert2TsdbItem d).tags.lookup k =
      if k = "endpoint" then some d.endpoint else d.tags.lookup k := by
  rw [convert2TsdbItem]
  split_ifs with hk
  · subst hk
    exact AList.lookup_insert _
  · rw [AList.lookup_insert_ne hk, lookup_overrideAll _ d.tags (List.Perm.refl _),
      AList.lookup_empty, Option.or_none]

theorem space_notMem_replaceSpaces (s : String) : ' ' ∉ (replaceSpaces s).toList := by
  rw [replaceSpaces, String.toList_ofList, List.mem_map]
  rintro ⟨c, -, hc⟩
  by_cases hspace : c = ' '
  · rw [if_pos hspace] at hc
    cases hc
  · rw [if_neg hspace] at hc
    exact hspace hc

theorem newline_mem_replaceSpaces_iff {s : String} :
    '\n' ∈ (replaceSpaces s).toList ↔ '\n' ∈ s.toList := by
  rw [replaceSpaces, String.toList_ofList, List.mem_map]
  constructor
  · rintro ⟨c, hc, heq⟩
    by_cases hspace : c = ' '
    · rw [if_pos hspace] at heq
      cases heq
    · rw [if_neg hspace] at heq
      rwa [← heq]
  · exact fun h => ⟨'\n', h, by decide⟩

variable (tag : Σ _ : String, String)

theorem space_notMem_tagToken : ' ' ∉ (tagToken fmt tag).toList := by
  have hkey : ' ' ∉ (fmt.lower (replaceSpaces tag.1)).toList := by
    rw [Format.lower, String.toList_ofList, List.mem_map]
    rintro ⟨c, hc, hlower⟩
    rw [fmt.eq_space_of_toLower c hlower] at hc
    exact space_notMem_replaceSpaces _ hc
  simp [tagToken, hkey, space_notMem_replaceSpaces]

theorem newline_mem_tagToken_iff {tag : Σ _ : String, String} :
    '\n' ∈ (tagToken fmt tag).toList ↔ '\n' ∈ tag.1.toList ∨ '\n' ∈ tag.2.toList := by
  have hkey : '\n' ∈ (fmt.lower (replaceSpaces tag.1)).toList ↔ '\n' ∈ tag.1.toList := by
    rw [Format.lower, String.toList_ofList, List.mem_map, ← newline_mem_replaceSpaces_iff]
    simp only [fmt.toLower_eq_newline_iff, exists_eq_right]
  simp [tagToken, hkey, newline_mem_replaceSpaces_iff]

theorem tagToken_ne_nil : (tagToken fmt tag).toList ≠ [] := by
  simp [tagToken]

/-! ## Lines -/

variable (item : TsdbItem F)

theorem toList_tsdbString (visit : Visit item.tags) :
    (tsdbString fmt item visit).toList =
      "put".toList ++ ' ' :: (item.metric.toList ++ ' ' :: ((toString item.timestamp).toList ++
        ' ' :: ((fmt.fixed3 item.value).toList ++ ' ' ::
          (visit.entries.map fun tag => (tagToken fmt tag).toList).flatMap
            fun w => w ++ [' ']))) := by
  have hfold : ∀ (tags : List (Σ _ : String, String)) (s : String),
      (tags.foldl (fun s tag => s ++ (tagToken fmt tag ++ " ")) s).toList =
        s.toList ++ (tags.map fun tag => (tagToken fmt tag).toList).flatMap
          fun w => w ++ [' '] := by
    intro tags
    induction tags with
    | nil => simp
    | cons tag tags ih =>
      intro s
      rw [List.foldl_cons, ih]
      simp
  rw [tsdbString, hfold]
  simp

/-- **The words of a line**: those of the metric stand between `put` and the time. -/
theorem words_tsdbString (visit : Visit item.tags) :
    words ' ' (tsdbString fmt item visit).toList =
      "put".toList :: (words ' ' item.metric.toList ++
        [(toString item.timestamp).toList, (fmt.fixed3 item.value).toList] ++
          visit.entries.map fun tag => (tagToken fmt tag).toList) := by
  have hput : words ' ' "put".toList = ["put".toList] :=
    (words_eq_singleton_iff (by decide)).mpr (by decide)
  have htime : words ' ' (toString item.timestamp).toList = [(toString item.timestamp).toList] :=
    (words_eq_singleton_iff (toString_ne_nil _)).mpr (notMem_toString _ (by decide) (by decide))
  have hvalue : words ' ' (fmt.fixed3 item.value).toList = [(fmt.fixed3 item.value).toList] := by
    refine (words_eq_singleton_iff ?_).mpr (fmt.space_notMem_fixed3 _)
    exact fun hnil => fmt.fixed3_ne_empty _ (String.toList_eq_nil_iff.mp hnil)
  have htags : words ' ' ((visit.entries.map fun tag => (tagToken fmt tag).toList).flatMap
      fun w => w ++ [' ']) = visit.entries.map fun tag => (tagToken fmt tag).toList := by
    refine words_flatMap fun w hw => ?_
    obtain ⟨tag, -, rfl⟩ := List.mem_map.mp hw
    exact ⟨tagToken_ne_nil fmt tag, space_notMem_tagToken fmt tag⟩
  rw [toList_tsdbString, words_append_cons, words_append_cons, words_append_cons,
    words_append_cons, hput, htime, hvalue, htags]
  simp

/-- **The newlines of a line** are those of the metric and of the tags. -/
theorem newline_mem_tsdbString_iff {item : TsdbItem F} {visit : Visit item.tags} :
    '\n' ∈ (tsdbString fmt item visit).toList ↔
      '\n' ∈ item.metric.toList ∨
        ∃ k w, item.tags.lookup k = some w ∧ ('\n' ∈ k.toList ∨ '\n' ∈ w.toList) := by
  have htime : '\n' ∉ (toString item.timestamp).toList :=
    notMem_toString _ (by decide) (by decide)
  have htags : '\n' ∈ (visit.entries.map fun tag => (tagToken fmt tag).toList).flatMap
      (fun w => w ++ [' ']) ↔
      ∃ k w, item.tags.lookup k = some w ∧ ('\n' ∈ k.toList ∨ '\n' ∈ w.toList) := by
    rw [List.mem_flatMap]
    constructor
    · rintro ⟨w, hw, hmem⟩
      obtain ⟨tag, htag, rfl⟩ := List.mem_map.mp hw
      exact ⟨tag.1, tag.2, visit.mem_entries.mp htag,
        (newline_mem_tagToken_iff fmt).mp (by simpa using hmem)⟩
    · rintro ⟨k, w, hlookup, hmem⟩
      refine ⟨_, List.mem_map.mpr ⟨⟨k, w⟩, visit.mem_entries.mpr hlookup, rfl⟩, ?_⟩
      exact List.mem_append_left _ ((newline_mem_tagToken_iff fmt).mpr hmem)
  rw [toList_tsdbString]
  simp only [List.mem_append, List.mem_cons, htime, fmt.newline_notMem_fixed3, htags, false_or]
  simp

/-! ## Batches -/

section

variable [Float64 F] {parseFloat : String → Option F}

theorem toList_tsdbBuffer (points : List (Point parseFloat)) :
    (tsdbBuffer fmt points).toList =
      unlines '\n' (points.map fun p => (p.line fmt).toList) := by
  have hfold : ∀ (points : List (Point parseFloat)) (buffer : String),
      (points.foldl (fun buffer p => buffer ++ p.line fmt ++ "\n") buffer).toList =
        buffer.toList ++ unlines '\n' (points.map fun p => (p.line fmt).toList) := by
    intro points
    induction points with
    | nil => simp
    | cons p points ih =>
      intro buffer
      rw [List.foldl_cons, ih]
      simp
  rw [tsdbBuffer, hfold]
  rfl

/-- **A point is said by its line** exactly if its value is safe. -/
theorem saysPoint_line_iff (p : Point parseFloat) :
    SaysPoint fmt (p.line fmt).toList p ↔ LineSafe p.value := by
  obtain ⟨v, now, d, accepted, visit⟩ := p
  obtain ⟨v', vv, hv', hchecks, -, rfl⟩ := recvMetricValue_eq_some_iff.mp accepted
  obtain rfl := Option.some.inj hv'
  have hmetric : v.metric.toList ≠ [] := fun hnil =>
    hchecks.metric_ne_empty (String.toList_eq_nil_iff.mp hnil)
  have hwords : words ' ' (tsdbString fmt (convert2TsdbItem (dataOf now v vv)) visit).toList =
      ["put".toList, v.metric.toList, (toString (dataOf now v vv).timestamp).toList,
        (fmt.fixed3 (dataOf now v vv).value).toList] ++
          visit.entries.map (fun tag => (tagToken fmt tag).toList) ↔ ' ' ∉ v.metric.toList := by
    rw [words_tsdbString, ← words_eq_singleton_iff hmetric]
    show "put".toList :: (words ' ' v.metric.toList ++ _ ++ _) =
      "put".toList :: ([v.metric.toList] ++ [_, _] ++ _) ↔ _
    rw [List.cons_inj_right, List.append_left_inj]
    exact List.append_left_inj _
  have hnewline : '\n' ∉ (tsdbString fmt (convert2TsdbItem (dataOf now v vv)) visit).toList ↔
      '\n' ∉ v.metric.toList ∧ '\n' ∉ v.endpoint.toList ∧
        ∀ k w, k ≠ "endpoint" → (dictedTagstring v.tags).lookup k = some w →
          '\n' ∉ k.toList ∧ '\n' ∉ w.toList := by
    rw [newline_mem_tsdbString_iff, not_or]
    refine and_congr_right fun _ => ?_
    simp only [lookup_tags_convert2TsdbItem]
    constructor
    · intro h
      refine ⟨fun hmem => h ⟨"endpoint", v.endpoint, if_pos rfl, Or.inr hmem⟩, ?_⟩
      intro k w hk hlookup
      exact ⟨fun hmem => h ⟨k, w, by rw [if_neg hk]; exact hlookup, Or.inl hmem⟩,
        fun hmem => h ⟨k, w, by rw [if_neg hk]; exact hlookup, Or.inr hmem⟩⟩
    · rintro ⟨hendpoint, htags⟩ ⟨k, w, hlookup, hmem⟩
      by_cases hk : k = "endpoint"
      · subst hk
        rw [if_pos rfl, Option.some_inj] at hlookup
        subst hlookup
        exact hmem.elim (by decide) hendpoint
      · rw [if_neg hk] at hlookup
        obtain ⟨hkey, hvalue⟩ := htags k w hk hlookup
        exact hmem.elim hkey hvalue
  constructor
  · intro h
    obtain ⟨hmetric, hendpoint, htags⟩ := hnewline.mp h.newline_notMem
    exact ⟨hwords.mp h.words_eq, hmetric, hendpoint, htags⟩
  · intro h
    exact ⟨hnewline.mpr ⟨h.newline_notMem_metric, h.newline_notMem_endpoint,
      h.newline_notMem_tags⟩, hwords.mpr h.space_notMem_metric⟩

/-- **One line for each point.**  What is sent of a batch of accepted values is one line for
each of them, in their order, that says the value and nothing else, exactly if every value of
the batch is safe. -/
theorem oneLinePerPoint_tsdbBuffer_iff (points : List (Point parseFloat)) :
    OneLinePerPoint fmt (tsdbBuffer fmt points) points ↔ ∀ p ∈ points, LineSafe p.value := by
  rw [OneLinePerPoint, toList_tsdbBuffer]
  constructor
  · rintro ⟨lines, heq, hsaid⟩
    have hfree : ∀ l ∈ lines, '\n' ∉ l := by
      intro l hl
      obtain ⟨i, hi, rfl⟩ := List.getElem_of_mem hl
      have hi' : i < points.length := by
        rw [← hsaid.length_eq]
        exact hi
      exact (hsaid.get hi hi').newline_notMem
    have hlines := eq_of_unlines_eq hfree (by rw [List.length_map, hsaid.length_eq]) heq
    rw [← hlines, List.forall₂_map_left_iff, List.forall₂_same] at hsaid
    exact fun p hp => (saysPoint_line_iff fmt p).mp (hsaid p hp)
  · intro h
    refine ⟨_, rfl, ?_⟩
    rw [List.forall₂_map_left_iff, List.forall₂_same]
    exact fun p hp => (saysPoint_line_iff fmt p).mpr (h p hp)

end

/-- Only capital letters change, and none becomes a character before them. -/
theorem eq_of_toLower_eq {c d : Char} (hd : d.toNat < 65) (h : c.toLower = d) : c = d := by
  unfold Char.toLower at h
  split at h
  case isTrue hup =>
    have hval : (c.val + ('a'.val - 'A'.val)).toNat = d.val.toNat := by rw [← h]
    have hlow : 65 ≤ c.val.toNat := hup.1
    have hhigh : c.val.toNat ≤ 90 := hup.2
    have hd' : d.val.toNat < 65 := hd
    have hdiff : ('a'.val - 'A'.val).toNat = 32 := rfl
    rw [UInt32.toNat_add, hdiff] at hval
    omega
  case isFalse => exact h

/-- The format of the sample: one number, and the letters of ASCII. -/
def sampleFormat : Format QFloat where
  fixed3 _ := "3.000"
  toLower := Char.toLower
  fixed3_ne_empty _ := by decide
  space_notMem_fixed3 _ := by decide
  newline_notMem_fixed3 _ := by decide
  eq_space_of_toLower _ := eq_of_toLower_eq (by decide)
  toLower_eq_newline_iff _ := ⟨eq_of_toLower_eq (by decide), by rintro rfl; rfl⟩

/-- A value of the endpoint `web` whose metric has a whole line in it. -/
def injectingValue : MetricValue QFloat where
  endpoint := "web"
  metric := "cpu 90 99.000 endpoint=db\nput mem"
  value := .int 3
  step := 60
  type := Graph.GAUGE
  tags := ""
  timestamp := 90

/-- The value is accepted. -/
def injectingPoint : Point (fun _ : String => (none : Option QFloat)) where
  value := injectingValue
  now := 100
  data := dataOf 100 injectingValue (.num 3)
  accepted := by
    refine recvMetricValue_eq_some_iff.mpr ⟨injectingValue, .num 3, rfl, ?_, rfl, rfl⟩
    exact ⟨by decide, by decide, by decide, Or.inr (Or.inl rfl), rfl, by decide, by decide, rfl⟩
  visit := Visit.asWritten _

/-- One accepted value is sent as two lines, the first of them a point of the endpoint `db`. -/
theorem metric_injects_line :
    tsdbBuffer sampleFormat [injectingPoint] =
      "put cpu 90 99.000 endpoint=db\nput mem 90 3.000 endpoint=web \n" := by
  decide +kernel

end OpenFalcon.Transfer
