import OpenFalcon.Common.TagText
import OpenFalcon.Graph.Item
import OpenFalcon.Judge.History

/-!
# The intake of transfer

`RecvMetricValues` of `modules/transfer/receiver/rpc/rpc_transfer.go` checks every value that
agents and other transfers send, and makes a `MetaData` of what it accepts.  The senders of
`modules/transfer/sender` turn that into items for graph and judge, and `convert` back into a
value for another transfer.

Accepting is repeatable.  What was accepted once and converted is accepted again, at any later
time, as the same data (`Admissible.recvMetricValue_convert`), so any number of transfers in a
row change nothing (`forwarding_lossless`).
-/

namespace OpenFalcon.Transfer

open Numeric Common OpenFalcon.Graph OpenFalcon.Judge

variable {F : Type}

/-! ## The source -/

/-- The `interface{}` of a value: what the JSON decoder can leave in it. -/
inductive Value (F : Type) where
  | text (s : String)
  | float (x : F)
  | int (n : Int)
  | other

/-- `model.MetricValue`. -/
structure MetricValue (F : Type) where
  endpoint : String
  metric : String
  value : Value F
  step : Int
  type : String
  tags : String
  timestamp : Int

/-- `model.MetaData`. -/
structure MetaData (F : Type) where
  metric : String
  endpoint : String
  timestamp : Int
  step : Int
  value : F
  counterType : String
  tags : Tags

section

variable [Float64 F] (parseFloat : String → Option F)

/-- The type switch on the value. -/
def Value.number : Value F → Option F
  | .text s => parseFloat s
  | .float x => some x
  | .int n => some (Float64.ofRat n)
  | .other => none

/-- The comparison of an `interface{}` with the empty text. -/
def Value.isEmptyText : Value F → Bool
  | .text s => s = ""
  | _ => false

/-- The time `RecvMetricValues` keeps: one that is not positive or far ahead is replaced. -/
def keptTimestamp (now timestamp : Int) : Int :=
  if timestamp ≤ 0 ∨ timestamp > now * 2 then now else timestamp

/-- One round of the loop of `RecvMetricValues`, at the time `now`: the data of a valid
value. -/
def recvMetricValue (now : Int) : Option (MetricValue F) → Option (MetaData F)
  | none => none
  | some v =>
    if v.metric = "kernel.hostname" then none
    else if v.metric = "" ∨ v.endpoint = "" then none
    else if v.type ≠ COUNTER ∧ v.type ≠ GAUGE ∧ v.type ≠ DERIVE then none
    else if v.value.isEmptyText then none
    else if v.step ≤ 0 then none
    else if v.metric.utf8ByteSize + v.tags.utf8ByteSize > 510 then none
    else
      (v.value.number parseFloat).map fun vv =>
        { metric := v.metric
          endpoint := v.endpoint
          timestamp := keptTimestamp now v.timestamp
          step := v.step
          value := vv
          counterType := v.type
          tags := dictedTagstring v.tags }

/-- `RecvMetricValues`: the data handed to the senders, and the number of invalid values. -/
def recvMetricValues (now : Int) (args : List (Option (MetricValue F))) : List (MetaData F) × ℕ :=
  (args.filterMap (recvMetricValue parseFloat now),
    args.countP fun v => (recvMetricValue parseFloat now v).isNone)

end

/-- `MetaData.PK`. -/
def MetaData.pk (d : MetaData F) : String := Common.pk d.endpoint d.metric d.tags

/-- `convert`: the value sent to another transfer. -/
def convert (v : MetaData F) : MetricValue F where
  metric := v.metric
  endpoint := v.endpoint
  timestamp := v.timestamp
  step := v.step
  type := v.counterType
  tags := sortedTags v.tags
  value := .float v.value

/-- `alignTs`. -/
def alignTs (ts period : Int) : Int := ts - ts.tmod period

/-- The step of an item, at least `MinStep`. -/
def stepAtLeast (minStep step : Int) : Int := if step < minStep then minStep else step

/-- `convert2GraphItem`. -/
def convert2GraphItem (minStep : Int) (d : MetaData F) : Option (GraphItem F) :=
  let step := stepAtLeast minStep d.step
  let item := fun (dsType min : String) =>
    ({ endpoint := d.endpoint
       metric := d.metric
       tags := d.tags
       value := d.value
       timestamp := alignTs d.timestamp step
       dsType := dsType
       step := step
       heartbeat := step * 2
       min := min
       max := "U" } : GraphItem F)
  if d.counterType = GAUGE then some (item d.counterType "U")
  else if d.counterType = COUNTER then some (item DERIVE "0")
  else if d.counterType = DERIVE then some (item DERIVE "0")
  else none

/-- The judge's reading of a counter type. -/
def judgeType (counterType : String) : JudgeType :=
  if counterType = GAUGE then .GAUGE else if counterType = COUNTER then .COUNTER else .DERIVE

/-- The item `Push2JudgeSendQueue` makes. -/
def convert2JudgeItem (minStep : Int) (item : MetaData F) : JudgeItem F where
  endpoint := item.endpoint
  metric := item.metric
  value := item.value
  timestamp := alignTs item.timestamp (stepAtLeast minStep item.step)
  judgeType := judgeType item.counterType
  tags := item.tags

/-! ## What is accepted -/

/-- Data as they leave the intake at the time `now`. -/
structure Admissible (now : Int) (d : MetaData F) : Prop where
  metric_ne_hostname : d.metric ≠ "kernel.hostname"
  metric_ne_empty : d.metric ≠ ""
  endpoint_ne_empty : d.endpoint ≠ ""
  counterType : d.counterType = COUNTER ∨ d.counterType = GAUGE ∨ d.counterType = DERIVE
  step_pos : 0 < d.step
  size_le : d.metric.utf8ByteSize + (sortedTags d.tags).utf8ByteSize ≤ 510
  timestamp_pos : 0 < d.timestamp
  timestamp_le : d.timestamp ≤ now * 2
  clean : CleanTags d.tags

/-- The same data, with the tag map in any order. -/
structure MetaData.Same (d d' : MetaData F) : Prop where
  metric : d.metric = d'.metric
  endpoint : d.endpoint = d'.endpoint
  timestamp : d.timestamp = d'.timestamp
  step : d.step = d'.step
  value : d.value = d'.value
  counterType : d.counterType = d'.counterType
  tags : d.tags.entries.Perm d'.tags.entries

variable {d' d : MetaData F}

theorem MetaData.Same.trans {d'' : MetaData F} (h : d.Same d') (h' : d'.Same d'') :
    d.Same d'' where
  metric := h.metric.trans h'.metric
  endpoint := h.endpoint.trans h'.endpoint
  timestamp := h.timestamp.trans h'.timestamp
  step := h.step.trans h'.step
  value := h.value.trans h'.value
  counterType := h.counterType.trans h'.counterType
  tags := h.tags.trans h'.tags

theorem Admissible.of_same {now : Int} (h : Admissible now d) (hsame : d'.Same d) :
    Admissible now d' := by
  have hclean : CleanTags d'.tags := fun k v hkv =>
    h.clean k v (by rw [← AList.perm_lookup hsame.tags, hkv])
  exact
    { metric_ne_hostname := by rw [hsame.metric]; exact h.metric_ne_hostname
      metric_ne_empty := by rw [hsame.metric]; exact h.metric_ne_empty
      endpoint_ne_empty := by rw [hsame.endpoint]; exact h.endpoint_ne_empty
      counterType := by rw [hsame.counterType]; exact h.counterType
      step_pos := by rw [hsame.step]; exact h.step_pos
      size_le := by rw [hsame.metric, sortedTags_congr hsame.tags]; exact h.size_le
      timestamp_pos := by rw [hsame.timestamp]; exact h.timestamp_pos
      timestamp_le := by rw [hsame.timestamp]; exact h.timestamp_le
      clean := hclean }

section Accept

variable [Float64 F] {parseFloat : String → Option F} {d : MetaData F} {o : Option (MetricValue F)}
  {now : Int} {v : MetricValue F}

/-- The checks of `RecvMetricValues`, all passed. -/
structure Checks (parseFloat : String → Option F) (v : MetricValue F) : Prop where
  metric_ne_hostname : v.metric ≠ "kernel.hostname"
  metric_ne_empty : v.metric ≠ ""
  endpoint_ne_empty : v.endpoint ≠ ""
  type : v.type = COUNTER ∨ v.type = GAUGE ∨ v.type = DERIVE
  value_ne_empty : v.value.isEmptyText = false
  step_pos : 0 < v.step
  size_le : v.metric.utf8ByteSize + v.tags.utf8ByteSize ≤ 510
  number : (v.value.number parseFloat).isSome

/-- The data made of a value. -/
def dataOf (now : Int) (v : MetricValue F) (vv : F) : MetaData F where
  metric := v.metric
  endpoint := v.endpoint
  timestamp := keptTimestamp now v.timestamp
  step := v.step
  value := vv
  counterType := v.type
  tags := dictedTagstring v.tags

theorem recvMetricValue_of_checks (h : Checks parseFloat v) (now : Int) :
    recvMetricValue parseFloat now (some v) =
      (v.value.number parseFloat).map (dataOf now v) := by
  have htype : ¬(v.type ≠ COUNTER ∧ v.type ≠ GAUGE ∧ v.type ≠ DERIVE) := by
    rintro ⟨hc, hg, hd⟩
    rcases h.type with ht | ht | ht
    · exact hc ht
    · exact hg ht
    · exact hd ht
  rw [recvMetricValue, if_neg h.metric_ne_hostname,
    if_neg (not_or.mpr ⟨h.metric_ne_empty, h.endpoint_ne_empty⟩), if_neg htype,
    if_neg (by simp [h.value_ne_empty]), if_neg (not_le.mpr h.step_pos),
    if_neg (not_lt.mpr h.size_le)]
  rfl

theorem checks_of_recvMetricValue (h : recvMetricValue parseFloat now (some v) = some d) :
    Checks parseFloat v := by
  rw [recvMetricValue] at h
  split_ifs at h with hhost hempty htype hvalue hstep hsize
  rw [not_or] at hempty
  obtain ⟨vv, hvv, -⟩ := Option.map_eq_some_iff.mp h
  refine ⟨hhost, hempty.1, hempty.2, ?_, by simpa using hvalue, not_le.mp hstep,
    not_lt.mp hsize, by rw [hvv]; rfl⟩
  by_contra hnone
  rw [not_or, not_or] at hnone
  exact htype hnone

/-- **A value is accepted exactly if it passes the checks**, and what is made of it. -/
theorem recvMetricValue_eq_some_iff :
    recvMetricValue parseFloat now o = some d ↔
      ∃ v vv, o = some v ∧ Checks parseFloat v ∧ v.value.number parseFloat = some vv ∧
        d = dataOf now v vv := by
  constructor
  · intro h
    cases o with
    | none => exact absurd h (by simp [recvMetricValue])
    | some v =>
      have hchecks := checks_of_recvMetricValue h
      rw [recvMetricValue_of_checks hchecks] at h
      obtain ⟨vv, hvv, rfl⟩ := Option.map_eq_some_iff.mp h
      exact ⟨v, vv, rfl, hchecks, hvv, rfl⟩
  · rintro ⟨v, vv, rfl, hchecks, hvv, rfl⟩
    rw [recvMetricValue_of_checks hchecks, hvv, Option.map_some]

/-- The tags of what is accepted are clean, whatever the text was. -/
theorem cleanTags_of_recvMetricValue (h : recvMetricValue parseFloat now o = some d) :
    CleanTags d.tags := by
  obtain ⟨v, vv, -, -, -, rfl⟩ := recvMetricValue_eq_some_iff.mp h
  exact cleanTags_dictedTagstring v.tags

/-- **What leaves the intake is admissible**, if the clock is past the epoch. -/
theorem admissible_of_recvMetricValue (hnow : 0 < now)
    (h : recvMetricValue parseFloat now o = some d) : Admissible now d := by
  obtain ⟨v, vv, -, hv, -, rfl⟩ := recvMetricValue_eq_some_iff.mp h
  have htime : 0 < keptTimestamp now v.timestamp ∧ keptTimestamp now v.timestamp ≤ now * 2 := by
    rw [keptTimestamp]
    split_ifs <;> omega
  exact
    { metric_ne_hostname := hv.metric_ne_hostname
      metric_ne_empty := hv.metric_ne_empty
      endpoint_ne_empty := hv.endpoint_ne_empty
      counterType := hv.type
      step_pos := hv.step_pos
      size_le := (Nat.add_le_add_left (utf8ByteSize_sortedTags_le v.tags) _).trans hv.size_le
      timestamp_pos := htime.1
      timestamp_le := htime.2
      clean := cleanTags_dictedTagstring v.tags }

/-! ## Accepting again -/

/-- **What is admissible is accepted again**, at any later time, as the same data. -/
theorem Admissible.recvMetricValue_convert {now' : Int} (h : Admissible now d) (hle : now ≤ now')
    (parseFloat : String → Option F) :
    ∃ d', recvMetricValue parseFloat now' (some (convert d)) = some d' ∧ d'.Same d := by
  have hchecks : Checks parseFloat (convert d) :=
    { metric_ne_hostname := h.metric_ne_hostname
      metric_ne_empty := h.metric_ne_empty
      endpoint_ne_empty := h.endpoint_ne_empty
      type := h.counterType
      value_ne_empty := rfl
      step_pos := h.step_pos
      size_le := h.size_le
      number := rfl }
  refine ⟨dataOf now' (convert d) d.value, recvMetricValue_of_checks hchecks now', ?_⟩
  have htime : keptTimestamp now' d.timestamp = d.timestamp := by
    have hpos := h.timestamp_pos
    have hbound := h.timestamp_le
    rw [keptTimestamp, if_neg (by omega)]
  exact
    { metric := rfl
      endpoint := rfl
      timestamp := htime
      step := rfl
      value := rfl
      counterType := rfl
      tags := dictedTagstring_sortedTags h.clean }

/-- Transfers in a row, at the given times. -/
def forward (parseFloat : String → Option F) : MetaData F → List Int → Option (MetaData F)
  | d, [] => some d
  | d, now :: times =>
    (recvMetricValue parseFloat now (some (convert d))).bind fun d' => forward parseFloat d' times

/-- Any number of transfers accept admissible data as the same data. -/
theorem Admissible.forward (h : Admissible now d) (parseFloat : String → Option F)
    {times : List Int} (htimes : ∀ t ∈ times, now ≤ t) :
    ∃ d', forward parseFloat d times = some d' ∧ d'.Same d := by
  induction times generalizing d with
  | nil => exact ⟨d, rfl, ⟨rfl, rfl, rfl, rfl, rfl, rfl, List.Perm.refl _⟩⟩
  | cons t times ih =>
    obtain ⟨d₁, hrecv, hsame⟩ :=
      h.recvMetricValue_convert (htimes t List.mem_cons_self) parseFloat
    obtain ⟨d₂, hforward, hsame'⟩ :=
      ih (h.of_same hsame) fun t' ht' => htimes t' (List.mem_cons_of_mem _ ht')
    exact ⟨d₂, by rw [Transfer.forward, hrecv, Option.bind_some, hforward], hsame'.trans hsame⟩

/-- **Forwarding is lossless.**  A value that is accepted at `now` is, converted, accepted by
any number of transfers at later times, as the same data; and its canonical tag text is not
longer than the one it came with. -/
theorem forwarding_lossless {now : Int} (hnow : 0 < now) {v : MetricValue F} {d : MetaData F}
    (h : recvMetricValue parseFloat now (some v) = some d) :
    (sortedTags d.tags).utf8ByteSize ≤ v.tags.utf8ByteSize ∧
      ∀ times : List Int, (∀ t ∈ times, now ≤ t) →
        ∃ d', forward parseFloat d times = some d' ∧ d'.Same d := by
  refine ⟨?_, fun times htimes => (admissible_of_recvMetricValue hnow h).forward _ htimes⟩
  obtain ⟨v', vv, hv', -, -, rfl⟩ := recvMetricValue_eq_some_iff.mp h
  obtain rfl := Option.some.inj hv'
  exact utf8ByteSize_sortedTags_le v.tags

end Accept

/-- A value with spaces, a repeated key and a piece that is no tag in its tags. -/
def sampleValue : MetricValue QFloat where
  endpoint := "host"
  metric := "cpu"
  value := .int 7
  step := 60
  type := GAUGE
  tags := "b=2, a=1,x,b=3"
  timestamp := 0

/-- The sample is accepted, and forwarded twice. -/
theorem forwarding_lossless_two_hops :
    ∃ d : MetaData QFloat, recvMetricValue (fun _ => none) 100 (some sampleValue) = some d ∧
      sortedTags d.tags = "a=1,b=3" ∧
      ∃ d', forward (fun _ => none) d [100, 160] = some d' ∧ d'.Same d := by
  have hrecv : recvMetricValue (fun _ => none) 100 (some sampleValue) =
      some (dataOf 100 sampleValue (.num 7)) := by
    refine recvMetricValue_eq_some_iff.mpr ⟨sampleValue, .num 7, rfl, ?_, rfl, rfl⟩
    exact ⟨by decide, by decide, by decide, Or.inr (Or.inl rfl), rfl, by decide, by decide, rfl⟩
  refine ⟨_, hrecv, by decide +kernel, ?_⟩
  exact (forwarding_lossless (by decide) hrecv).2 [100, 160] (by decide)

end OpenFalcon.Transfer
