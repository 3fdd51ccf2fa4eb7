import OpenFalcon.Sql.Table
import OpenFalcon.Text.Cut

/-!
# Temporary graphs

`DashboardTmpGraphCreate` and `DashboardTmpGraphQuery` of
`modules/api/app/controller/dashboard_graph/dashboard_graph_controller.go`.  A request has a list
of endpoints and a list of counters.  They are sorted, each list is joined by `|`, and the row of
the two texts is found again by a checksum of both, with a colon between them; a request for lists
that were asked for before gets the row that is there.  `DashboardTmpGraphQuery` splits the texts
again.

Nothing is escaped, in neither join.  A name with a `|` comes back as two, and two requests with
other lists have one checksum if a colon of a name can be taken for the one between the lists; then
the second gets the lists of the first.  The row keeps of a text what its column holds of it, which
`insert ignore` cuts without an error.  These are all the ways to lose a list
(`tmpGraphs_roundTrip_iff`).
-/

namespace OpenFalcon.Api

open Sql Text

/-! ## The source -/

/-- A row of `tmp_graph`. -/
structure TmpGraphRow where
  endpoints : String
  counters : String
  ck : String

/-- The table `tmp_graph`, with its unique key. -/
abbrev TmpGraphs := UniqueTable TmpGraphRow TmpGraphRow.ck

/-- `APITmpGraphCreateReqData`: both lists are required. -/
structure TmpGraphCreate where
  endpoints : List String
  counters : List String
  endpoints_ne : endpoints ≠ []
  counters_ne : counters ≠ []

/-- `sort.Strings`. -/
def sortStrings (l : List String) : List String := l.insertionSort (· ≤ ·)

/-- `strings.Join` by `TMP_GRAPH_FILED_DELIMITER`. -/
def joinDelimiter (l : List String) : String := "|".intercalate l

/-- `strings.Split` at `TMP_GRAPH_FILED_DELIMITER`. -/
def splitDelimiter (s : String) : List String := (s.toList.splitOn '|').map String.ofList

section Handlers

variable (md5 column : String → String)

/-- `es_string`. -/
def TmpGraphCreate.endpointsText (inputs : TmpGraphCreate) : String :=
  joinDelimiter (sortStrings inputs.endpoints)

/-- `cs_string`. -/
def TmpGraphCreate.countersText (inputs : TmpGraphCreate) : String :=
  joinDelimiter (sortStrings inputs.counters)

/-- What the checksum is of. -/
def TmpGraphCreate.text (inputs : TmpGraphCreate) : String :=
  inputs.endpointsText ++ ":" ++ inputs.countersText

/-- The row that is inserted.  `column` is what the column of the database keeps of a text. -/
def TmpGraphCreate.row (inputs : TmpGraphCreate) : TmpGraphRow :=
  ⟨column inputs.endpointsText, column inputs.countersText, md5 inputs.text⟩

/-- `DashboardTmpGraphCreate`: the table afterwards, and the id that is returned.  A row that is
there is left alone, but for its time. -/
def dashboardTmpGraphCreate (t : TmpGraphs) (inputs : TmpGraphCreate) : TmpGraphs × Option ℕ :=
  let t' := (t.insert? (inputs.row md5 column)).getD t
  (t', (t'.findCol (md5 inputs.text)).map Prod.fst)

/-- Requests one after the other: the table afterwards, and the id that each got. -/
def createAll : TmpGraphs → List TmpGraphCreate → TmpGraphs × List (Option ℕ)
  | t, [] => (t, [])
  | t, inputs :: rest =>
    let p := dashboardTmpGraphCreate md5 column t inputs
    let q := createAll p.1 rest
    (q.1, p.2 :: q.2)

end Handlers

/-- `DashboardTmpGraphQuery`: the endpoints and the counters of an id. -/
def dashboardTmpGraphQuery (t : TmpGraphs) (id : ℕ) : Option (List String × List String) :=
  (t.find id).map fun tmp_graph =>
    (splitDelimiter tmp_graph.endpoints, splitDelimiter tmp_graph.counters)

/-! ## Joining and splitting -/

variable {l : List String}

theorem mem_sortStrings {e : String} : e ∈ sortStrings l ↔ e ∈ l :=
  List.mem_insertionSort _

theorem sortStrings_ne_nil (h : l ≠ []) : sortStrings l ≠ [] := by
  intro hnil
  have hlength := List.length_insertionSort (· ≤ ·) l
  rw [← sortStrings, hnil] at hlength
  exact h (List.length_eq_zero_iff.mp hlength.symm)

theorem joinDelimiter_splitDelimiter (s : String) : joinDelimiter (splitDelimiter s) = s := by
  rw [← String.toList_inj, joinDelimiter, String.toList_intercalate, splitDelimiter, List.map_map]
  have hid : (String.toList ∘ String.ofList) = id := funext fun l => String.toList_ofList
  rw [hid, List.map_id]
  exact List.intercalate_splitOn '|'

/-- **The split undoes a join** exactly if no name has the delimiter in it. -/
theorem splitDelimiter_joinDelimiter_iff {l : List String} (hl : l ≠ []) :
    splitDelimiter (joinDelimiter l) = l ↔ ∀ e ∈ l, '|' ∉ e.toList := by
  constructor
  · intro h e he
    rw [← h] at he
    obtain ⟨w, hw, rfl⟩ := List.mem_map.mp he
    rw [String.toList_ofList]
    exact notMem_of_mem_splitOn hw
  · intro h
    have hsplit : (joinDelimiter l).toList.splitOn '|' = l.map String.toList := by
      rw [joinDelimiter, String.toList_intercalate]
      refine List.splitOn_intercalate '|' (fun w hw => ?_) (by simpa using hl)
      obtain ⟨e, he, rfl⟩ := List.mem_map.mp hw
      exact h e he
    rw [splitDelimiter, hsplit, List.map_map]
    have hid : (String.ofList ∘ String.toList) = id := funext fun s => String.ofList_toList
    rw [hid, List.map_id]

/-! ## Runs -/

section

variable {md5 column : String → String}

/-- **What one request does**: no row is lost, there is one row with the checksum, under the id
that is returned, and a row that was not there is the one of the request. -/
theorem dashboardTmpGraphCreate_spec (md5 column : String → String) (t : TmpGraphs)
    (inputs : TmpGraphCreate) :
    (∀ id r, t.find id = some r →
        (dashboardTmpGraphCreate md5 column t inputs).1.find id = some r) ∧
      (∃ id r, (dashboardTmpGraphCreate md5 column t inputs).2 = some id ∧
        (dashboardTmpGraphCreate md5 column t inputs).1.find id = some r ∧
          r.ck = md5 inputs.text) ∧
      ∀ id r, (dashboardTmpGraphCreate md5 column t inputs).1.find id = some r →
        t.find id = some r ∨ r = inputs.row md5 column := by
  have hck : (inputs.row md5 column).ck = md5 inputs.text := rfl
  rw [dashboardTmpGraphCreate]
  cases hinsert : t.insert? (inputs.row md5 column) with
  | none =>
    obtain ⟨⟨id, r⟩, hfound⟩ :=
      Option.ne_none_iff_exists'.mp (UniqueTable.insert?_eq_none_iff.mp hinsert)
    rw [hck] at hfound
    obtain ⟨hfind, hcol⟩ := UniqueTable.findCol_eq_some_iff.mp hfound
    simp only [Option.getD_none, hfound, Option.map_some]
    exact ⟨fun id r h => h, ⟨id, r, rfl, hfind, hcol⟩, fun id r h => Or.inl h⟩
  | some t' =>
    obtain ⟨-, htable⟩ := UniqueTable.insert?_eq_some hinsert
    have hfind : t'.find t.next = some (inputs.row md5 column) := by
      rw [htable, Table.find_insert_next]
    have hfound : t'.findCol (md5 inputs.text) = some (t.next, inputs.row md5 column) :=
      UniqueTable.findCol_eq_some_iff.mpr ⟨hfind, hck⟩
    simp only [Option.getD_some, hfound, Option.map_some]
    refine ⟨fun id r h => ?_, ⟨_, _, rfl, hfind, hck⟩, fun id r h => ?_⟩
    · rw [htable]
      exact Table.find_insert_of_find h _
    · rw [htable] at h
      rcases Table.eq_or_find_of_find_insert h with ⟨-, rfl⟩ | h
      · exact Or.inr rfl
      · exact Or.inl h

/-- **What a run does**: the same, for every request of it. -/
theorem createAll_spec (md5 column : String → String) (t : TmpGraphs) (reqs : List TmpGraphCreate) :
    (∀ id r, t.find id = some r → (createAll md5 column t reqs).1.find id = some r) ∧
      (∀ p ∈ reqs.zip (createAll md5 column t reqs).2, ∃ id r, p.2 = some id ∧
        (createAll md5 column t reqs).1.find id = some r ∧ r.ck = md5 p.1.text) ∧
      (∀ id r, (createAll md5 column t reqs).1.find id = some r →
        t.find id = some r ∨ ∃ inputs ∈ reqs, r = inputs.row md5 column) ∧
      (createAll md5 column t reqs).2.length = reqs.length := by
  induction reqs generalizing t with
  | nil => exact ⟨fun id r h => h, by simp, fun id r h => Or.inl h, rfl⟩
  | cons inputs reqs ih =>
    obtain ⟨hkeep, ⟨id, r, hid, hfind, hck⟩, hnew⟩ :=
      dashboardTmpGraphCreate_spec md5 column t inputs
    obtain ⟨hkeep', hids, hnew', hlength⟩ := ih (dashboardTmpGraphCreate md5 column t inputs).1
    refine ⟨fun id r h => hkeep' id r (hkeep id r h), ?_, ?_, ?_⟩
    · intro p hp
      rw [createAll, List.zip_cons_cons] at hp
      rcases List.mem_cons.mp hp with rfl | hp
      · exact ⟨id, r, hid, hkeep' id r hfind, hck⟩
      · exact hids p hp
    · intro id r h
      rcases hnew' id r h with h | ⟨inputs', hmem, hr⟩
      · rcases hnew id r h with h | hr
        · exact Or.inl h
        · exact Or.inr ⟨inputs, List.mem_cons_self, hr⟩
      · exact Or.inr ⟨inputs', List.mem_cons_of_mem _ hmem, hr⟩
    · rw [createAll, List.length_cons, List.length_cons, hlength]

variable {reqs : List TmpGraphCreate} {inputs : TmpGraphCreate}

/-- The row of a request of a run is that of a request with the same checksum. -/
theorem exists_row_createAll (hmd5 : Function.Injective md5) (h : inputs ∈ reqs) :
    ∃ id, (inputs, some id) ∈ reqs.zip (createAll md5 column UniqueTable.empty reqs).2 ∧
      ∃ first ∈ reqs, first.text = inputs.text ∧
        (createAll md5 column UniqueTable.empty reqs).1.find id =
          some (first.row md5 column) := by
  obtain ⟨-, hids, hnew, hlength⟩ := createAll_spec md5 column .empty reqs
  rw [← List.map_fst_zip (le_of_eq hlength.symm)] at h
  obtain ⟨⟨inputs, oid⟩, hp, rfl⟩ := List.mem_map.mp h
  obtain ⟨id, r, rfl, hfind, hck⟩ := hids _ hp
  refine ⟨id, hp, ?_⟩
  rcases hnew id r hfind with hempty | ⟨first, hmem, rfl⟩
  · exact absurd hempty (by simp [UniqueTable.empty])
  · exact ⟨first, hmem, hmd5 hck, hfind⟩

theorem row_eq_of_text_eq {id id' : ℕ} {first first' : TmpGraphCreate} {t : TmpGraphs}
    (hfind : t.find id = some (first.row md5 column))
    (hfind' : t.find id' = some (first'.row md5 column)) (htext : first.text = first'.text) :
    id = id' ∧ first.row md5 column = first'.row md5 column := by
  obtain rfl := t.unique id id' _ _ hfind hfind' (congrArg md5 htext)
  exact ⟨rfl, Option.some.inj (hfind.symm.trans hfind')⟩

variable (md5 column reqs)

/-- After the run, the id of every request is answered with its sorted lists. -/
def RoundTrips : Prop :=
  ∀ p ∈ reqs.zip (createAll md5 column UniqueTable.empty reqs).2, ∃ id, p.2 = some id ∧
    dashboardTmpGraphQuery (createAll md5 column UniqueTable.empty reqs).1 id =
      some (sortStrings p.1.endpoints, sortStrings p.1.counters)

/-- A request whose texts can be split again: no name has the delimiter in it, and the columns keep
the texts. -/
structure Splits (inputs : TmpGraphCreate) : Prop where
  endpoints : ∀ e ∈ inputs.endpoints, '|' ∉ e.toList
  counters : ∀ c ∈ inputs.counters, '|' ∉ c.toList
  endpointsText : column inputs.endpointsText = inputs.endpointsText
  countersText : column inputs.countersText = inputs.countersText

variable {md5 column reqs}

/-- A text of a row that splits into the names is the text of the names, kept whole. -/
theorem splitDelimiter_column_iff {names l : List String} (hnames : names ≠ []) :
    splitDelimiter (column (joinDelimiter l)) = sortStrings names ↔
      column (joinDelimiter l) = joinDelimiter (sortStrings names) ∧
        ∀ e ∈ names, '|' ∉ e.toList := by
  have hsorted := splitDelimiter_joinDelimiter_iff (sortStrings_ne_nil hnames)
  simp only [mem_sortStrings] at hsorted
  constructor
  · intro h
    have hjoin : column (joinDelimiter l) = joinDelimiter (sortStrings names) := by
      rw [← h, joinDelimiter_splitDelimiter]
    exact ⟨hjoin, hsorted.mp (by rw [← hjoin, h])⟩
  · rintro ⟨hjoin, hclean⟩
    rw [hjoin, hsorted.mpr hclean]

/-- What the answer for an id has to do with the row it is from. -/
theorem dashboardTmpGraphQuery_eq_some_iff {t : TmpGraphs} {id : ℕ} {first : TmpGraphCreate}
    (hfind : t.find id = some (first.row md5 column)) :
    dashboardTmpGraphQuery t id = some (sortStrings inputs.endpoints, sortStrings inputs.counters) ↔
      (column first.endpointsText = inputs.endpointsText ∧ ∀ e ∈ inputs.endpoints, '|' ∉ e.toList) ∧
        column first.countersText = inputs.countersText ∧
          ∀ c ∈ inputs.counters, '|' ∉ c.toList := by
  rw [dashboardTmpGraphQuery, hfind, Option.map_some, Option.some_inj, Prod.mk.injEq]
  exact and_congr (splitDelimiter_column_iff inputs.endpoints_ne)
    (splitDelimiter_column_iff inputs.counters_ne)

/-- Requests of a run that round-trips have rows of their own texts. -/
theorem RoundTrips.exists_row (h : RoundTrips md5 column reqs) (hmd5 : Function.Injective md5)
    (hmem : inputs ∈ reqs) :
    Splits column inputs ∧ ∃ (id : ℕ) (first : TmpGraphCreate), first.text = inputs.text ∧
      first.endpointsText = inputs.endpointsText ∧
        (createAll md5 column UniqueTable.empty reqs).1.find id =
          some (first.row md5 column) := by
  -- The row is that of `first`, and `first` has the same row.
  have hanswer : ∀ {inputs}, inputs ∈ reqs → ∃ id first, first ∈ reqs ∧ first.text = inputs.text ∧
      (createAll md5 column UniqueTable.empty reqs).1.find id = some (first.row md5 column) ∧
      (column first.endpointsText = inputs.endpointsText ∧ ∀ e ∈ inputs.endpoints, '|' ∉ e.toList) ∧
        column first.countersText = inputs.countersText ∧
          ∀ c ∈ inputs.counters, '|' ∉ c.toList := by
    intro inputs hmem
    obtain ⟨id, hzip, first, hfirst, htext, hfind⟩ := exists_row_createAll hmd5 hmem
    obtain ⟨id', hid, hquery⟩ := h _ hzip
    obtain rfl := Option.some.inj hid
    exact ⟨id, first, hfirst, htext, hfind, (dashboardTmpGraphQuery_eq_some_iff hfind).mp hquery⟩
  obtain ⟨id, first, hfirst, htext, hfind, ⟨hE, hcleanE⟩, hC, hcleanC⟩ := hanswer hmem
  obtain ⟨id', first', -, htext', hfind', ⟨hE', -⟩, hC', -⟩ := hanswer hfirst
  obtain ⟨-, hrow⟩ := row_eq_of_text_eq hfind' hfind htext'
  have hownE : first.endpointsText = inputs.endpointsText := by
    rw [← hE', ← hE]
    exact congrArg TmpGraphRow.endpoints hrow
  have hownC : first.countersText = inputs.countersText := by
    rw [← hC', ← hC]
    exact congrArg TmpGraphRow.counters hrow
  refine ⟨⟨hcleanE, hcleanC, ?_, ?_⟩, id, first, htext, hownE, hfind⟩
  · rw [← hownE, hE, hownE]
  · rw [← hownC, hC, hownC]

end

/-- **Temporary graphs round-trip** exactly if the texts of each request can be split again and
requests with one text for the checksum have the same endpoints.  For every run from the empty
table. -/
theorem tmpGraphs_roundTrip_iff {md5 : String → String} (hmd5 : Function.Injective md5)
    (column : String → String) (reqs : List TmpGraphCreate) :
    RoundTrips md5 column reqs ↔
      (∀ inputs ∈ reqs, Splits column inputs) ∧
        ∀ inputs ∈ reqs, ∀ inputs' ∈ reqs, inputs.text = inputs'.text →
          inputs.endpointsText = inputs'.endpointsText := by
  constructor
  · intro h
    refine ⟨fun inputs hmem => (h.exists_row hmd5 hmem).1, fun inputs hmem inputs' hmem' heq => ?_⟩
    obtain ⟨hsplits, id, first, htext, hE, hfind⟩ := h.exists_row hmd5 hmem
    obtain ⟨hsplits', id', first', htext', hE', hfind'⟩ := h.exists_row hmd5 hmem'
    obtain ⟨-, hrow⟩ := row_eq_of_text_eq hfind hfind' (by rw [htext, htext', heq])
    rw [← hsplits.endpointsText, ← hsplits'.endpointsText, ← hE, ← hE']
    exact congrArg TmpGraphRow.endpoints hrow
  · rintro ⟨hsplits, htexts⟩ ⟨inputs, oid⟩ hp
    obtain ⟨-, hids, hnew, -⟩ := createAll_spec md5 column .empty reqs
    have hmem : inputs ∈ reqs := (List.of_mem_zip hp).1
    obtain ⟨id, r, rfl, hfind, hck⟩ := hids _ hp
    refine ⟨id, rfl, ?_⟩
    rcases hnew id r hfind with hempty | ⟨first, hfirst, rfl⟩
    · exact absurd hempty (by simp [UniqueTable.empty])
    · have htext : first.text = inputs.text := hmd5 hck
      have hE := htexts first hfirst inputs hmem htext
      have hC : first.countersText = inputs.countersText := by
        rw [TmpGraphCreate.text, TmpGraphCreate.text, hE] at htext
        exact String.append_right_inj _ |>.mp htext
      have hkept := hsplits inputs hmem
      refine (dashboardTmpGraphQuery_eq_some_iff hfind).mpr
        ⟨⟨?_, hkept.endpoints⟩, ?_, hkept.counters⟩
      · rw [hE, hkept.endpointsText]
      · rw [hC, hkept.countersText]

/-- A request for one endpoint and one counter. -/
def oneGraph (endpoint counter : String) : TmpGraphCreate :=
  ⟨[endpoint], [counter], List.cons_ne_nil _ _, List.cons_ne_nil _ _⟩

/-- A name with the delimiter comes back as two.  Two requests have one text, and the second gets
the lists of the first. -/
theorem tmpGraphs_mixed_up :
    (createAll id id UniqueTable.empty [oneGraph "a|b" "cpu.idle"]).2 = [some 1] ∧
      dashboardTmpGraphQuery (createAll id id UniqueTable.empty [oneGraph "a|b" "cpu.idle"]).1 1 =
        some (["a", "b"], ["cpu.idle"]) ∧
      (createAll id id UniqueTable.empty
        [oneGraph "a:b" "cpu.idle", oneGraph "a" "b:cpu.idle"]).2 = [some 1, some 1] ∧
      dashboardTmpGraphQuery (createAll id id UniqueTable.empty
        [oneGraph "a:b" "cpu.idle", oneGraph "a" "b:cpu.idle"]).1 1 =
        some (["a:b"], ["cpu.idle"]) := by
  decide +kernel

/-- The condition met, by two requests. -/
theorem tmpGraphs_kept_apart :
    RoundTrips id id [oneGraph "a" "cpu.idle", oneGraph "b" "cpu.idle"] := by
  refine (tmpGraphs_roundTrip_iff Function.injective_id id _).mpr ⟨?_, ?_⟩
  · simp only [List.forall_mem_cons]
    exact ⟨⟨by decide, by decide, rfl, rfl⟩, ⟨by decide, by decide, rfl, rfl⟩, by simp⟩
  · simp only [List.forall_mem_cons]
    decide +kernel

end OpenFalcon.Api
