import OpenFalcon.Graph.Disk
import OpenFalcon.Text.Fields
import OpenFalcon.Transfer.Receive

/-!
# The telnet intake of transfer

A second way in: `socketTelnetHandle` of `modules/transfer/receiver/socket/socket_telnet.go` reads
lines `update endpoint metric ts value [type] [step]` and makes of each a `MetaData`, as
`RecvMetricValues` does of a value.  The two were written apart.  The line is checked for the
number of its fields, its type and its numbers, and for nothing else: the reserved metric, the
range of the step and of the time and the length of the name are checked on the way of the calls
only, and that way alone knows tsdb and influxdb.

`telnetValue` is the value that says what a line says.  The ways agree on a line exactly if the
checks that are missing would have passed and the backends that are missing are not enabled
(`telnet_agrees_iff`).
-/

namespace OpenFalcon.Transfer

open Numeric Common OpenFalcon.Graph OpenFalcon.Judge

variable {F : Type} {v : MetricValue F} {line : List Char}

/-! ## Backends -/

/-- The backends of the configuration. -/
inductive Backend where
  | graph
  | judge
  | tsdb
  | transfer
  | influxdb
  | p8sRelay
  deriving DecidableEq

/-- The pushes of an intake: the items go to each backend of its list that is enabled. -/
def pushes (enabled : Backend → Bool) (backends : List Backend) (items : List (MetaData F)) :
    List (Backend × List (MetaData F)) :=
  (backends.filter enabled).map fun b => (b, items)

/-- The pushes of `RecvMetricValues`. -/
def rpcPushes (enabled : Backend → Bool) (items : List (MetaData F)) :
    List (Backend × List (MetaData F)) :=
  pushes enabled [.graph, .judge, .tsdb, .transfer, .influxdb, .p8sRelay] items

/-- The pushes of `socketTelnetHandle`. -/
def telnetPushes (enabled : Backend → Bool) (items : List (MetaData F)) :
    List (Backend × List (MetaData F)) :=
  pushes enabled [.graph, .judge, .transfer, .p8sRelay] items

/-- What a backend is given. -/
def pushedTo (b : Backend) (given : List (Backend × List (MetaData F))) : List (MetaData F) :=
  given.flatMap fun p => if p.1 = b then p.2 else []

theorem pushedTo_map {l : List Backend} (hnodup : l.Nodup) (items : List (MetaData F))
    (b : Backend) : pushedTo b (l.map fun b => (b, items)) = if b ∈ l then items else [] := by
  induction l with
  | nil => rfl
  | cons c l ih =>
    rw [List.nodup_cons] at hnodup
    show (if c = b then items else []) ++ pushedTo b (l.map fun b => (b, items)) = _
    rw [ih hnodup.2]
    by_cases hc : c = b
    · subst hc
      rw [if_pos rfl, if_neg hnodup.1, if_pos List.mem_cons_self, List.append_nil]
    · have hmem : b ∈ c :: l ↔ b ∈ l := by
        rw [List.mem_cons, or_iff_right (Ne.symm hc)]
      rw [if_neg hc, List.nil_append]
      simp only [hmem]

variable (enabled : Backend → Bool)

/-- **A backend is given the items exactly if it is enabled and on the list.** -/
theorem pushedTo_pushes {backends : List Backend} (hnodup : backends.Nodup)
    (items : List (MetaData F)) (b : Backend) :
    pushedTo b (pushes enabled backends items) =
      if b ∈ backends ∧ enabled b = true then items else [] := by
  rw [pushes, pushedTo_map (hnodup.filter enabled)]
  simp only [List.mem_filter]

theorem pushedTo_rpcPushes (items : List (MetaData F)) (b : Backend) :
    pushedTo b (rpcPushes enabled items) = if enabled b = true then items else [] := by
  have hmem : b ∈ [Backend.graph, .judge, .tsdb, .transfer, .influxdb, .p8sRelay] := by
    cases b <;> decide
  rw [rpcPushes, pushedTo_pushes enabled (by decide)]
  simp only [hmem, true_and]

/-- The lines reach the enabled backends without tsdb and influxdb. -/
theorem pushedTo_telnetPushes (items : List (MetaData F)) (b : Backend) :
    pushedTo b (telnetPushes enabled items) =
      if (b ≠ .tsdb ∧ b ≠ .influxdb) ∧ enabled b = true then items else [] := by
  have hmem : b ∈ [Backend.graph, .judge, .transfer, .p8sRelay] ↔ b ≠ .tsdb ∧ b ≠ .influxdb := by
    cases b <;> decide
  rw [telnetPushes, pushedTo_pushes enabled (by decide)]
  simp only [hmem]

/-! ## The source -/

/-- `strconv.ParseInt(s, 10, 64)`. -/
def parseInt64 (s : List Char) : Option Int :=
  let signed : Option Int :=
    match s with
    | '+' :: digits => (parseDigits digits).map Int.ofNat
    | '-' :: digits => (parseDigits digits).map fun n => -Int.ofNat n
    | digits => (parseDigits digits).map Int.ofNat
  signed.filter fun n => -2 ^ 63 ≤ n ∧ n < 2 ^ 63

/-- `g.DEFAULT_STEP`. -/
def DEFAULT_STEP : Int := 60

/-- The step of a line: a number, or the last part of `heartbeat:min:max:step`. -/
def lineStep : List String → Option Int
  | [] => some DEFAULT_STEP
  | field :: _ =>
    match field.toList.splitOn ':' with
    | [step] => parseInt64 step
    | [_, _, _, step] => parseInt64 step
    | _ => none

/-- `type_ != g.DERIVE && type_ != g.GAUGE && type_ != g.COUNTER` is false. -/
def isCounterType (type : String) : Bool := type = DERIVE ∨ type = GAUGE ∨ type = COUNTER

section

variable (parseFloat : String → Option F)

/-- `convertLine2MetaData`: the data of the fields after `update`. -/
def convertLine2MetaData : List String → Option (MetaData F)
  | endpoint :: metric :: ts :: value :: rest =>
    if rest.length ≤ 2 then
      (parseInt64 ts.toList).bind fun ts =>
        (parseFloat value).bind fun v =>
          if isCounterType (rest.headD COUNTER) then
            (lineStep rest.tail).map fun step =>
              { metric := metric
                endpoint := endpoint
                timestamp := ts
                step := step
                value := v
                counterType := rest.headD COUNTER
                tags := ∅ }
          else none
    else none
  | _ => none

/-- One round of the loop of `socketTelnetHandle`: the data of a line. -/
def telnetItem (line : List Char) : Option (MetaData F) :=
  match (Text.fields line).map String.ofList with
  | cmd :: t => if t.length < 1 ∨ cmd ≠ "update" then none else convertLine2MetaData parseFloat t
  | [] => none

/-- The lines of a connection: what follows the last line end is not read, nor what follows
`quit`. -/
def telnetLines (conn : List Char) : List (List Char) :=
  (conn.splitOn '\n').dropLast.takeWhile (· ≠ "quit".toList)

/-- `socketTelnetHandle`: the pushes made at the end of a connection. -/
def socketTelnetHandle (enabled : Backend → Bool) (conn : List Char) :
    List (Backend × List (MetaData F)) :=
  telnetPushes enabled ((telnetLines conn).filterMap (telnetItem parseFloat))

end

/-! ## The value of a line -/

/-- The value without tags that says what the fields after `update` say. -/
def lineValue : List String → Option (MetricValue F)
  | endpoint :: metric :: ts :: value :: rest =>
    if rest.length ≤ 2 then
      (parseInt64 ts.toList).bind fun ts =>
        (lineStep rest.tail).map fun step =>
          { endpoint := endpoint
            metric := metric
            value := .text value
            step := step
            type := rest.headD COUNTER
            tags := ""
            timestamp := ts }
    else none
  | _ => none

/-- The value of a line `update endpoint metric ts value [type] [step]`. -/
def telnetValue (line : List Char) : Option (MetricValue F) :=
  match (Text.fields line).map String.ofList with
  | cmd :: t => if cmd ≠ "update" then none else lineValue t
  | [] => none

theorem ne_empty_of_mem_fields {w : String} (h : w ∈ (Text.fields line).map String.ofList) :
    w ≠ "" := by
  obtain ⟨s, hs, rfl⟩ := List.mem_map.mp h
  have hne : s ≠ [] := by simpa using (List.mem_filter.mp hs).2
  intro hempty
  exact hne (by simpa using congrArg String.toList hempty)

/-- What the fields alone give: names and a value that are not empty, and no tags. -/
structure FromFields (v : MetricValue F) : Prop where
  metric_ne_empty : v.metric ≠ ""
  endpoint_ne_empty : v.endpoint ≠ ""
  value_ne_empty : v.value.isEmptyText = false
  tags : v.tags = ""

theorem FromFields.of_lineValue {fields : List String} (hne : ∀ w ∈ fields, w ≠ "")
    (h : lineValue fields = some v) : FromFields v := by
  match fields, h with
  | endpoint :: metric :: ts :: value :: rest, h =>
    rw [lineValue] at h
    split_ifs at h with hrest
    obtain ⟨n, -, hmap⟩ := Option.bind_eq_some_iff.mp h
    obtain ⟨step, -, rfl⟩ := Option.map_eq_some_iff.mp hmap
    exact ⟨hne metric (by simp), hne endpoint (by simp),
      by simpa [Value.isEmptyText] using hne value (by simp), rfl⟩

theorem FromFields.of_telnetValue (h : telnetValue line = some v) : FromFields v := by
  have hne : ∀ w ∈ (Text.fields line).map String.ofList, w ≠ "" :=
    fun _ hw => ne_empty_of_mem_fields hw
  rw [telnetValue] at h
  cases hfields : (Text.fields line).map String.ofList with
  | nil =>
    rw [hfields] at h
    exact absurd h (by simp)
  | cons cmd t =>
    rw [hfields] at h hne
    simp only at h
    split_ifs at h with hcmd
    exact FromFields.of_lineValue (fun w hw => hne w (List.mem_cons_of_mem _ hw)) h

/-- The data of a line that is accepted. -/
def lineData (v : MetricValue F) (vv : F) : MetaData F where
  metric := v.metric
  endpoint := v.endpoint
  timestamp := v.timestamp
  step := v.step
  value := vv
  counterType := v.type
  tags := ∅

section Telnet

variable [Float64 F] {parseFloat : String → Option F} {v : MetricValue F}

/-- The checks of the telnet intake, on the value of the line. -/
def telnetData (parseFloat : String → Option F) (v : MetricValue F) : Option (MetaData F) :=
  if isCounterType v.type then (v.value.number parseFloat).map (lineData v) else none

theorem convertLine2MetaData_eq (fields : List String) :
    convertLine2MetaData parseFloat fields =
      (lineValue fields).bind (telnetData parseFloat) := by
  match fields with
  | [] | [_] | [_, _] | [_, _, _] => rfl
  | endpoint :: metric :: ts :: value :: rest =>
    by_cases hrest : rest.length ≤ 2
    · rw [convertLine2MetaData, lineValue, if_pos hrest, if_pos hrest]
      cases parseInt64 ts.toList with
      | none => rfl
      | some ts =>
        cases lineStep rest.tail with
        | none => cases hvalue : parseFloat value <;> simp
        | some step =>
          simp only [Option.bind_some, Option.map_some, telnetData, Value.number]
          cases parseFloat value with
          | none => simp only [Option.bind_none, Option.map_none, ite_self]
          | some v => rfl
    · rw [convertLine2MetaData, lineValue, if_neg hrest, if_neg hrest]
      rfl

/-- **What the telnet intake does with a line**: of the checks it makes two. -/
theorem telnetItem_eq (line : List Char) :
    telnetItem parseFloat line = (telnetValue line).bind (telnetData parseFloat) := by
  rw [telnetItem, telnetValue]
  cases (Text.fields line).map String.ofList with
  | nil => rfl
  | cons cmd t =>
    simp only
    by_cases hcmd : cmd = "update"
    · rw [if_neg (not_not.mpr hcmd), ← convertLine2MetaData_eq]
      split_ifs with hshort
      · obtain hlength | hne := hshort
        · rw [List.length_eq_zero_iff.mp (Nat.lt_one_iff.mp hlength)]
          rfl
        · exact absurd hcmd hne
      · rfl
    · rw [if_pos (Or.inr hcmd), if_pos hcmd]
      rfl

/-! ## The two ways in -/

/-- **The ways agree on a line**: it is accepted on both or on none, as the same data, and every
backend that is enabled, and no other, is given it on both. -/
structure Agrees (parseFloat : String → Option F) (now : Int) (enabled : Backend → Bool)
    (line : List Char) : Prop where
  same : telnetItem parseFloat line = recvMetricValue parseFloat now (telnetValue line)
  telnet : ∀ b, pushedTo b (telnetPushes enabled (telnetItem parseFloat line).toList) =
    if enabled b = true then (telnetItem parseFloat line).toList else []
  rpc : ∀ b,
    pushedTo b (rpcPushes enabled (recvMetricValue parseFloat now (telnetValue line)).toList) =
      if enabled b = true then
        (recvMetricValue parseFloat now (telnetValue line)).toList else []

/-- The checks of `RecvMetricValues` that a line is spared, on its value. -/
structure Spared (now : Int) (v : MetricValue F) : Prop where
  metric_ne_hostname : v.metric ≠ "kernel.hostname"
  step_pos : 0 < v.step
  size_le : v.metric.utf8ByteSize ≤ 510
  timestamp : 0 < v.timestamp ∧ v.timestamp ≤ now * 2 ∨ v.timestamp = now

theorem keptTimestamp_eq_iff {now timestamp : Int} :
    keptTimestamp now timestamp = timestamp ↔
      0 < timestamp ∧ timestamp ≤ now * 2 ∨ timestamp = now := by
  rw [keptTimestamp]
  split_ifs with h
  · constructor
    · exact fun heq => Or.inr heq.symm
    · rintro (hrange | rfl)
      · omega
      · rfl
  · constructor
    · intro _
      omega
    · exact fun _ => rfl

theorem isCounterType_iff {type : String} :
    isCounterType type = true ↔ type = COUNTER ∨ type = GAUGE ∨ type = DERIVE := by
  rw [isCounterType, decide_eq_true_iff]
  constructor
  · rintro (h | h | h)
    · exact Or.inr (Or.inr h)
    · exact Or.inr (Or.inl h)
    · exact Or.inl h
  · rintro (h | h | h)
    · exact Or.inr (Or.inr h)
    · exact Or.inr (Or.inl h)
    · exact Or.inl h

/-- A line that the telnet intake does not accept is not accepted as a call. -/
theorem recvMetricValue_of_telnetData_eq_none (h : telnetData parseFloat v = none) (now : Int) :
    recvMetricValue parseFloat now (some v) = none := by
  rw [Option.eq_none_iff_forall_ne_some]
  intro d hd
  have hchecks := checks_of_recvMetricValue hd
  rw [telnetData, if_pos (isCounterType_iff.mpr hchecks.type), Option.map_eq_none_iff] at h
  exact absurd hchecks.number (by simp [h])

/-- A line that the telnet intake accepts is accepted as a call, as the same data, exactly if the
checks it was spared pass. -/
theorem recvMetricValue_eq_lineData_iff {line : List Char} (hvalue : telnetValue line = some v)
    (htype : isCounterType v.type = true) {vv : F} (hnumber : v.value.number parseFloat = some vv)
    (now : Int) :
    recvMetricValue parseFloat now (some v) = some (lineData v vv) ↔ Spared now v := by
  have hfields := FromFields.of_telnetValue hvalue
  have hsize : v.metric.utf8ByteSize + v.tags.utf8ByteSize = v.metric.utf8ByteSize := by
    rw [hfields.tags]
    rfl
  constructor
  · intro h
    obtain ⟨v', vv', heq, hchecks, -, hdata⟩ := recvMetricValue_eq_some_iff.mp h
    obtain rfl := Option.some.inj heq
    have htime : v.timestamp = keptTimestamp now v.timestamp := congrArg MetaData.timestamp hdata
    exact ⟨hchecks.metric_ne_hostname, hchecks.step_pos, hsize.symm.trans_le hchecks.size_le,
      keptTimestamp_eq_iff.mp htime.symm⟩
  · intro h
    refine recvMetricValue_eq_some_iff.mpr ⟨v, vv, rfl, ?_, hnumber, ?_⟩
    · exact ⟨h.metric_ne_hostname, hfields.metric_ne_empty, hfields.endpoint_ne_empty,
        isCounterType_iff.mp htype, hfields.value_ne_empty, h.step_pos,
        hsize.trans_le h.size_le, by rw [hnumber]; rfl⟩
    · rw [lineData, dataOf, keptTimestamp_eq_iff.mpr h.timestamp, hfields.tags]
      rfl

variable (enabled : Backend → Bool)

omit [Float64 F] in
/-- Without an item there is nothing to push, and with one the enabled backends get it if neither
tsdb nor influxdb is among them. -/
theorem telnetPushes_all_iff (item : Option (MetaData F)) :
    (∀ b, pushedTo b (telnetPushes enabled item.toList) =
        if enabled b = true then item.toList else []) ↔
      (item.isSome = true → enabled .tsdb = false ∧ enabled .influxdb = false) := by
  simp only [pushedTo_telnetPushes]
  cases item with
  | none => simp
  | some d =>
    constructor
    · intro h _
      refine ⟨?_, ?_⟩
      · simpa using h .tsdb
      · simpa using h .influxdb
    · intro h b
      obtain ⟨htsdb, hinfluxdb⟩ := h rfl
      by_cases hb : enabled b = true
      · have hne : b ≠ .tsdb ∧ b ≠ .influxdb := by
          constructor
          · rintro rfl
            exact absurd hb (by simp [htsdb])
          · rintro rfl
            exact absurd hb (by simp [hinfluxdb])
        rw [if_pos ⟨hne, hb⟩, if_pos hb]
      · rw [if_neg fun h => hb h.2, if_neg hb]

/-- **The ways agree on a line exactly if the checks it is spared would pass and the backends it
does not reach are not enabled**, when its type and its number are what the telnet intake asks
for; on any other line they agree. -/
theorem telnet_agrees_iff (now : Int) (enabled : Backend → Bool) (line : List Char) :
    Agrees parseFloat now enabled line ↔
      ∀ v : MetricValue F, telnetValue line = some v → isCounterType v.type = true →
        (v.value.number parseFloat).isSome = true →
          Spared now v ∧ enabled .tsdb = false ∧ enabled .influxdb = false := by
  constructor
  · intro h v hvalue htype hnumber
    obtain ⟨vv, hvv⟩ := Option.isSome_iff_exists.mp hnumber
    have hitem : telnetItem parseFloat line = some (lineData v vv) := by
      rw [telnetItem_eq, hvalue, Option.bind_some, telnetData, if_pos htype, hvv, Option.map_some]
    have hsame := h.same
    rw [hitem, hvalue] at hsame
    refine ⟨(recvMetricValue_eq_lineData_iff hvalue htype hvv now).mp hsame.symm, ?_⟩
    exact (telnetPushes_all_iff enabled _).mp h.telnet (by rw [hitem]; rfl)
  · intro h
    have hsome : ∀ d, telnetItem parseFloat line = some d →
        recvMetricValue parseFloat now (telnetValue line) = some d ∧
          enabled .tsdb = false ∧ enabled .influxdb = false := by
      intro d hd
      rw [telnetItem_eq] at hd
      obtain ⟨v, hvalue, hdata⟩ := Option.bind_eq_some_iff.mp hd
      rw [telnetData] at hdata
      split_ifs at hdata with htype
      obtain ⟨vv, hvv, rfl⟩ := Option.map_eq_some_iff.mp hdata
      obtain ⟨hspared, henabled⟩ := h v hvalue htype (by rw [hvv]; rfl)
      rw [hvalue]
      exact ⟨(recvMetricValue_eq_lineData_iff hvalue htype hvv now).mpr hspared, henabled⟩
    refine ⟨?_, (telnetPushes_all_iff enabled _).mpr ?_, pushedTo_rpcPushes enabled _⟩
    · cases hitem : telnetItem parseFloat line with
      | some d => exact (hsome d hitem).1.symm
      | none =>
        cases hvalue : telnetValue (F := F) line with
        | none => rfl
        | some v =>
          rw [telnetItem_eq, hvalue, Option.bind_some] at hitem
          exact (recvMetricValue_of_telnetData_eq_none hitem now).symm
    · intro hitem
      obtain ⟨d, hd⟩ := Option.isSome_iff_exists.mp hitem
      exact (hsome d hd).2

omit [Float64 F] in
/-- A connection pushes what its lines push, one after the other. -/
theorem pushedTo_socketTelnetHandle (conn : List Char) (b : Backend) :
    pushedTo b (socketTelnetHandle parseFloat enabled conn) =
      (telnetLines conn).flatMap fun line =>
        pushedTo b (telnetPushes enabled (telnetItem parseFloat line).toList) := by
  rw [socketTelnetHandle, pushedTo_telnetPushes]
  simp only [pushedTo_telnetPushes]
  split_ifs with h
  · induction telnetLines conn with
    | nil => rfl
    | cons line lines ih =>
      rw [List.flatMap_cons, ← ih, List.filterMap_cons]
      cases telnetItem parseFloat line <;> rfl
  · simp

end Telnet

/-! ## A line on which they disagree -/

/-- `ParseFloat`, as far as it is used here. -/
def parseOne (s : String) : Option QFloat := if s = "1" then some (.num 1) else none

/-- A line with the step and the time 0.  The telnet intake accepts it; as a call it is rejected,
and were its step positive, it would be stamped with the time of the call and reach tsdb and
influxdb too. -/
theorem telnet_disagrees_zero_step :
    ¬Agrees parseOne 100 (fun _ => true) "update host cpu 0 1 GAUGE 0".toList ∧
      (telnetItem parseOne "update host cpu 0 1 GAUGE 0".toList).isSome = true ∧
      recvMetricValue parseOne 100 (telnetValue "update host cpu 0 1 GAUGE 0".toList) = none := by
  have hitem : (telnetItem parseOne "update host cpu 0 1 GAUGE 0".toList).isSome = true := by
    decide +kernel
  have hrecv : (recvMetricValue parseOne 100
      (telnetValue "update host cpu 0 1 GAUGE 0".toList)).isNone = true := by
    decide +kernel
  refine ⟨fun h => ?_, hitem, Option.isNone_iff_eq_none.mp hrecv⟩
  rw [h.same, Option.isNone_iff_eq_none.mp hrecv] at hitem
  exact absurd hitem (by decide)

end OpenFalcon.Transfer
