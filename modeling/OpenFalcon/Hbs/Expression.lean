import OpenFalcon.Common.Model
import OpenFalcon.Assoc.Collect
import OpenFalcon.Text.Fields
import OpenFalcon.Text.Record

/-!
# Reading the expressions

`QueryExpressions` and `parseExpression` of `modules/hbs/db/expression.go`.  An expression
is stored as the text the user typed, `each(metric=cpu.idle endpoint=web)`; what counts is
between the first `(` and the first `)`.  The parser takes the slice between the two
positions without looking whether they are there and in this order.

`FieldsOf` is what an expression should say: two or more fields `k=v`, one of them the
metric.  The query returns the rows that say it, and skips the others, exactly if every row
it scans has a text that can be sliced, and does not say it without a `(`
(`queryExpressions_reads_iff`).
-/

namespace OpenFalcon.Hbs

open Common Text Assoc

/-! ## The source -/

/-- One field of `parseExpression`, written into the tags. -/
def addField (tags : Tags) (item : List Char) : Option Tags :=
  match item.splitOn '=' with
  | [k, v] =>
    some (tags.insert (String.ofList (trimSpace k)) (String.ofList (trimSpace v)))
  | _ => none

/-- The loop of `parseExpression`: up to the first field that is not `k=v`. -/
def addFields : Tags → List (List Char) → Option Tags
  | tags, [] => some tags
  | tags, item :: arr => (addField tags item).bind fun tags' => addFields tags' arr

/-- The part of `parseExpression` after the slice: the metric and the tags, or the text of
the error. -/
def parseTagStrs (exp : String) (inner : List Char) : Except String (String × Tags) :=
  let tagStrs := trimSpace inner
  let arr := fields tagStrs
  if arr.length < 2 then .error ("tag not enough. exp: " ++ exp)
  else
    match addFields ∅ arr with
    | none => .error ("parse " ++ exp ++ " fail")
    | some tags =>
      match tags.lookup "metric" with
      | none => .error ("no metric give of " ++ exp)
      | some metric => .ok (metric, tags.erase "metric")

/-- `parseExpression`.  A slice out of bounds is a panic. -/
def parseExpression (exp : String) : Option (Except String (String × Tags)) :=
  let left := index '(' exp.toList
  let right := index ')' exp.toList
  (slice exp.toList (left + 1) right).map (parseTagStrs exp)

/-- A row of the table `expression`. -/
structure ExpressionRow where
  id : Int
  expression : String
  func : String
  op : String
  right_value : String
  max_step : Int
  priority : Int
  note : String
  action_id : Int
  pause : Bool

variable {F : Type} (parseFloat : String → Option F) {inner post pre : List Char} {exp : String}

/-- `rows.Scan`.  The right value is the one column that is not stored as what it is read
as. -/
def ExpressionRow.scan (row : ExpressionRow) (metric : String) (tags : Tags) :
    Option (Expression F) :=
  (parseFloat row.right_value).map fun rightValue =>
    { id := row.id
      metric := metric
      tags := tags
      func := row.func
      operator := row.op
      rightValue := rightValue
      maxStep := row.max_step
      priority := row.priority
      note := row.note
      actionId := row.action_id }

/-- One round of the loop of `QueryExpressions`: the expression of a row, if it is not
skipped. -/
def queryRow (row : ExpressionRow) : Option (Option (Expression F)) :=
  match row.scan parseFloat "" ∅ with
  | none => some none
  | some e =>
    (parseExpression row.expression).map fun r =>
      match r with
      | .error _ => none
      | .ok (metric, tags) => some { e with metric := metric, tags := tags }

/-- The loop of `QueryExpressions`. -/
def queryRows : List ExpressionRow → Option (List (Expression F))
  | [] => some []
  | row :: rows =>
    (queryRow parseFloat row).bind fun e => (queryRows rows).map fun ret => e.toList ++ ret

/-- `QueryExpressions`: the rows with an action that are not paused. -/
def queryExpressions (table : List ExpressionRow) : Option (List (Expression F)) :=
  queryRows parseFloat (table.filter fun row => 0 < row.action_id ∧ row.pause = false)

/-! ## What an expression says -/

/-- A text says `k₁=v₁ k₂=v₂ ...`: its fields are these, each with one `=`, and there are at
least two. -/
structure FieldsOf (inner : List Char) (pairs : List (List Char × List Char)) : Prop where
  fields_eq : fields inner = pairs.map fun p => p.1 ++ '=' :: p.2
  key : ∀ p ∈ pairs, '=' ∉ p.1
  value : ∀ p ∈ pairs, '=' ∉ p.2
  two_le : 2 ≤ pairs.length

/-- The value a list of pairs gives a key: the last one wins. -/
def lastValue (pairs : List (List Char × List Char)) (k : String) : Option String :=
  (pairs.reverse.find? fun p => String.ofList p.1 = k).map fun p => String.ofList p.2

/-- A text says a metric and tags: they are in its fields, the metric as the value of the
key `metric` and the tags as the values of the other keys. -/
def Tells (inner : List Char) (metric : String) (tags : Tags) : Prop :=
  ∃ pairs, FieldsOf inner pairs ∧ lastValue pairs "metric" = some metric ∧
    ∀ k, tags.lookup k = if k = "metric" then none else lastValue pairs k

example : (parseExpression "each(metric=cpu.idle a=b a=c)").map (fun r => r.map Prod.fst) =
    some (.ok "cpu.idle") := by decide +kernel

/-! ## Fields -/

theorem addField_eq_some_iff {tags tags' : Tags} {item : List Char}
    (hitem : ∀ c ∈ item, isSpace c = false) :
    addField tags item = some tags' ↔ ∃ k v, item = k ++ '=' :: v ∧ '=' ∉ k ∧ '=' ∉ v ∧
      tags' = tags.insert (String.ofList k) (String.ofList v) := by
  constructor
  · intro h
    unfold addField at h
    split at h
    case h_1 k v hsplit =>
      have hk : k ∈ item.splitOn '=' := by rw [hsplit]; simp
      have hv : v ∈ item.splitOn '=' := by rw [hsplit]; simp
      have hjoin : ['='].intercalate (item.splitOn '=') = item := List.intercalate_splitOn '='
      rw [hsplit, List.intercalate_cons_cons, List.intercalate_singleton] at hjoin
      refine ⟨k, v, by simpa using hjoin.symm, notMem_of_mem_splitOn hk,
        notMem_of_mem_splitOn hv, ?_⟩
      rw [← Option.some.inj h, trimSpace_of_forall fun c hc => hitem c (mem_piece hk hc).1,
        trimSpace_of_forall fun c hc => hitem c (mem_piece hv hc).1]
    case h_2 => simp at h
  · rintro ⟨k, v, rfl, hk, hv, rfl⟩
    have hsplit : (k ++ '=' :: v).splitOn '=' = [k, v] := by
      rw [List.splitOn_append_cons_self_of_not_mem hk, List.splitOn_eq_singleton hv]
    simp only [addField, hsplit]
    rw [trimSpace_of_forall fun c hc => hitem c (by simp [hc]),
      trimSpace_of_forall fun c hc => hitem c (by simp [hc])]

theorem addFields_eq_some_iff {tags tags' : Tags} {arr : List (List Char)}
    (harr : ∀ item ∈ arr, ∀ c ∈ item, isSpace c = false) :
    addFields tags arr = some tags' ↔ ∃ pairs : List (List Char × List Char),
      arr = pairs.map (fun p => p.1 ++ '=' :: p.2) ∧ (∀ p ∈ pairs, '=' ∉ p.1) ∧
        (∀ p ∈ pairs, '=' ∉ p.2) ∧ tags' = overrideAll tags (pairEntries pairs) := by
  induction arr generalizing tags with
  | nil =>
    rw [addFields, Option.some_inj]
    constructor
    · rintro rfl
      exact ⟨[], rfl, by simp, by simp, rfl⟩
    · rintro ⟨pairs, hpairs, -, -, rfl⟩
      rw [List.map_eq_nil_iff.mp hpairs.symm]
      rfl
  | cons item arr ih =>
    rw [addFields, Option.bind_eq_some_iff]
    have hrest := fun t : Tags => @ih t fun i hi => harr i (List.mem_cons_of_mem _ hi)
    constructor
    · rintro ⟨tags₁, hitem, harr'⟩
      obtain ⟨k, v, rfl, hk, hv, rfl⟩ :=
        (addField_eq_some_iff (harr _ List.mem_cons_self)).mp hitem
      obtain ⟨pairs, rfl, hkeys, hvals, rfl⟩ := (hrest _).mp harr'
      exact ⟨(k, v) :: pairs, rfl, by simpa [hk] using hkeys, by simpa [hv] using hvals, rfl⟩
    · rintro ⟨pairs, hpairs, hkeys, hvals, rfl⟩
      cases pairs with
      | nil => simp at hpairs
      | cons p pairs =>
        obtain ⟨rfl, rfl⟩ := List.cons.inj hpairs
        refine ⟨_, (addField_eq_some_iff (harr _ List.mem_cons_self)).mpr
          ⟨p.1, p.2, rfl, hkeys p List.mem_cons_self, hvals p List.mem_cons_self, rfl⟩, ?_⟩
        exact (hrest _).mpr ⟨pairs, rfl, fun q hq => hkeys q (List.mem_cons_of_mem _ hq),
          fun q hq => hvals q (List.mem_cons_of_mem _ hq), rfl⟩

theorem dlookup_reverse_pairEntries (pairs : List (List Char × List Char)) (k : String) :
    (pairEntries pairs).reverse.dlookup k = lastValue pairs k := by
  rw [lastValue, pairEntries, ← List.map_reverse]
  induction pairs.reverse with
  | nil => rfl
  | cons p rest ih =>
    rw [List.map_cons]
    by_cases hk : k = String.ofList p.1
    · subst hk
      rw [List.dlookup_cons_eq, List.find?_cons_of_pos (by simp)]
      rfl
    · rw [List.dlookup_cons_ne _ _ hk, List.find?_cons_of_neg (by simpa using Ne.symm hk), ih]

/-- The last value of a key is what the tags have. -/
theorem lookup_overrideAll_pairEntries (pairs : List (List Char × List Char)) (k : String) :
    (overrideAll ∅ (pairEntries pairs)).lookup k = lastValue pairs k := by
  rw [lookup_overrideAll_reverse, dlookup_reverse_pairEntries, AList.lookup_empty, Option.or_none]

theorem isSpace_of_mem_fields_trimSpace :
    ∀ item ∈ fields (trimSpace inner), ∀ c ∈ item, isSpace c = false :=
  fun _ hitem _ hc => isSpace_of_mem_fields hitem hc

/-- **What is parsed is what the text says.** -/
theorem tells_of_parseTagStrs {metric : String} {tags : Tags}
    (h : parseTagStrs exp inner = .ok (metric, tags)) : Tells inner metric tags := by
  unfold parseTagStrs at h
  simp only at h
  split at h
  case isTrue => simp at h
  case isFalse hlen =>
    split at h
    case h_1 => simp at h
    case h_2 tags₁ hadd =>
      split at h
      case h_1 => simp at h
      case h_2 metric₁ hmetric =>
        obtain ⟨rfl, rfl⟩ := Prod.mk.inj (Except.ok.inj h)
        obtain ⟨pairs, hfields, hkeys, hvals, rfl⟩ :=
          (addFields_eq_some_iff isSpace_of_mem_fields_trimSpace).mp hadd
        rw [hfields, List.length_map, not_lt] at hlen
        rw [fields_trimSpace] at hfields
        refine ⟨pairs, ⟨hfields, hkeys, hvals, hlen⟩, ?_, fun k => ?_⟩
        · rw [← hmetric, lookup_overrideAll_pairEntries]
        · split_ifs with hk
          · rw [hk, AList.lookup_erase]
          · rw [AList.lookup_erase_ne hk, lookup_overrideAll_pairEntries]

/-- **What the text says is parsed.** -/
theorem exists_parseTagStrs_of_tells {metric : String} {tags : Tags} (h : Tells inner metric tags)
    (exp : String) : ∃ tags', parseTagStrs exp inner = .ok (metric, tags') := by
  obtain ⟨pairs, hpairs, hmetric, -⟩ := h
  have hfields : fields (trimSpace inner) = pairs.map fun p => p.1 ++ '=' :: p.2 := by
    rw [fields_trimSpace, hpairs.fields_eq]
  have hadd : addFields ∅ (fields (trimSpace inner)) = some (overrideAll ∅ (pairEntries pairs)) :=
    (addFields_eq_some_iff isSpace_of_mem_fields_trimSpace).mpr
      ⟨pairs, hfields, hpairs.key, hpairs.value, rfl⟩
  have hlen : ¬(fields (trimSpace inner)).length < 2 := by
    rw [hfields, List.length_map, not_lt]
    exact hpairs.two_le
  have hlookup : (overrideAll ∅ (pairEntries pairs)).lookup "metric" = some metric := by
    rw [lookup_overrideAll_pairEntries, hmetric]
  refine ⟨(overrideAll ∅ (pairEntries pairs)).erase "metric", ?_⟩
  simp only [parseTagStrs, if_neg hlen, hadd, hlookup]

/-! ## Slices -/

/-- What stands between the first `(` and the first `)`. -/
def Between (text inner : List Char) : Prop :=
  ∃ pre post, text = pre ++ '(' :: (inner ++ ')' :: post) ∧ '(' ∉ pre ∧ ')' ∉ pre ∧ ')' ∉ inner

theorem parseExpression_of_between (h : Between exp.toList inner) :
    parseExpression exp = some (parseTagStrs exp inner) := by
  obtain ⟨pre, post, htext, hopen, hclose, hinner⟩ := h
  have hleft : index '(' exp.toList = pre.length := by rw [htext, index_append_cons hopen]
  have hright : index ')' exp.toList = pre.length + 1 + inner.length := by
    have hcut : exp.toList = (pre ++ '(' :: inner) ++ ')' :: post := by rw [htext]; simp
    rw [hcut, index_append_cons (by simp [hclose, hinner])]
    simp only [List.length_append, List.length_cons]
    omega
  have hslice : slice exp.toList (pre.length + 1) (pre.length + 1 + inner.length) =
      some inner := by
    refine slice_eq_some (show _ = (pre ++ ['(']) ++ inner ++ (')' :: post) by simp [htext]) ?_ ?_
    · simp
    · simp
  simp only [parseExpression, hleft, hright, hslice, Option.map_some]

theorem parseExpression_of_no_open (htext : exp.toList = pre ++ ')' :: post) (hclose : ')' ∉ pre)
    (hopen : '(' ∉ exp.toList) : parseExpression exp = some (parseTagStrs exp pre) := by
  have hright : index ')' exp.toList = pre.length := by rw [htext, index_append_cons hclose]
  have hslice : slice exp.toList (-1 + 1) pre.length = some pre :=
    slice_eq_some (show _ = [] ++ pre ++ (')' :: post) by simp [htext]) rfl (by simp)
  simp only [parseExpression, index_of_notMem hopen, hright, hslice, Option.map_some]

theorem parseExpression_of_no_close {exp : String} (hclose : ')' ∉ exp.toList) :
    parseExpression exp = none := by
  have hleft : -1 ≤ index '(' exp.toList := by
    rw [index]
    split_ifs <;> omega
  have hslice : slice exp.toList (index '(' exp.toList + 1) (-1) = none :=
    slice_eq_none (Or.inr (Or.inl (by omega)))
  simp only [parseExpression, index_of_notMem hclose, hslice, Option.map_none]

theorem parseExpression_of_close_first (htext : exp.toList = pre ++ ')' :: post)
    (hclose : ')' ∉ pre) (hpre : '(' ∉ pre)
    (hopen : '(' ∈ post) : parseExpression exp = none := by
  obtain ⟨mid, rest, rfl, hmid⟩ := List.eq_append_cons_of_mem hopen
  have hright : index ')' exp.toList = pre.length := by rw [htext, index_append_cons hclose]
  have hleft : index '(' exp.toList = pre.length + 1 + mid.length := by
    have hcut : exp.toList = (pre ++ ')' :: mid) ++ '(' :: rest := by rw [htext]; simp
    rw [hcut, index_append_cons (by simp [hpre, hmid])]
    simp only [List.length_append, List.length_cons]
    omega
  have hslice : slice exp.toList (pre.length + 1 + mid.length + 1) pre.length = none :=
    slice_eq_none (Or.inr (Or.inl (by omega)))
  simp only [parseExpression, hleft, hright, hslice, Option.map_none]

/-! ## Rows -/

/-- A row should be read as an expression: its text says the metric and the tags between the
first `(` and the first `)`, and the rest are its columns. -/
def IsRead (row : ExpressionRow) (e : Expression F) : Prop :=
  (∃ inner, Between row.expression.toList inner ∧ Tells inner e.metric e.tags) ∧
    row.scan parseFloat e.metric e.tags = some e

/-- The expressions of the rows that say one, in order; the other rows are skipped. -/
inductive Reads : List ExpressionRow → List (Expression F) → Prop where
  | nil : Reads [] []
  | read {row : ExpressionRow} {e : Expression F} {rows : List ExpressionRow}
      {ret : List (Expression F)} (hrow : IsRead parseFloat row e) (hrows : Reads rows ret) :
      Reads (row :: rows) (e :: ret)
  | skip {row : ExpressionRow} {rows : List ExpressionRow} {ret : List (Expression F)}
      (hrow : ∀ e, ¬IsRead parseFloat row e) (hrows : Reads rows ret) : Reads (row :: rows) ret

/-- A text that does no harm: it has a `)`, and before the first one there is a `(`, or there
is none at all and what comes before says nothing. -/
def SafeText (text : List Char) : Prop :=
  ∃ pre post, text = pre ++ ')' :: post ∧ ')' ∉ pre ∧
    ('(' ∈ pre ∨ '(' ∉ pre ++ post ∧ ∀ metric tags, ¬Tells pre metric tags)

/-- A row does no harm: it is not scanned, or its text does none. -/
def SafeRow (row : ExpressionRow) : Prop :=
  (parseFloat row.right_value).isSome → SafeText row.expression.toList

variable {parseFloat}
variable {row : ExpressionRow}

theorem exists_scan_iff (row : ExpressionRow) (metric : String) (tags : Tags) :
    (∃ e, row.scan parseFloat metric tags = some e) ↔ (parseFloat row.right_value).isSome := by
  rw [ExpressionRow.scan]
  cases parseFloat row.right_value <;> simp

theorem not_isRead_of_scan (hscan : ¬(parseFloat row.right_value).isSome) (e : Expression F) :
    ¬IsRead parseFloat row e := fun h =>
  hscan ((exists_scan_iff row _ _).mp ⟨e, h.2⟩)

theorem queryRow_of_scan (hscan : ¬(parseFloat row.right_value).isSome) :
    queryRow parseFloat row = some none := by
  have hnone : parseFloat row.right_value = none := by simpa using hscan
  simp [queryRow, ExpressionRow.scan, hnone]

theorem queryRow_of_panic (hscan : (parseFloat row.right_value).isSome)
    (hpanic : parseExpression row.expression = none) : queryRow parseFloat row = none := by
  obtain ⟨v, hv⟩ := Option.isSome_iff_exists.mp hscan
  simp [queryRow, ExpressionRow.scan, hv, hpanic]

/-- **A row that is scanned and sliced** is returned if the slice says something, and
skipped if not. -/
theorem queryRow_of_slice (hscan : (parseFloat row.right_value).isSome)
    (hslice : parseExpression row.expression = some (parseTagStrs row.expression inner)) :
    (∃ e : Expression F, queryRow parseFloat row = some (some e) ∧
        Tells inner e.metric e.tags ∧ row.scan parseFloat e.metric e.tags = some e) ∨
      (queryRow parseFloat row = some none ∧ ∀ metric tags, ¬Tells inner metric tags) := by
  obtain ⟨v, hv⟩ := Option.isSome_iff_exists.mp hscan
  cases hparse : parseTagStrs row.expression inner with
  | error err =>
    right
    refine ⟨by simp [queryRow, ExpressionRow.scan, hv, hslice, hparse], ?_⟩
    intro metric tags htells
    obtain ⟨tags', htags'⟩ := exists_parseTagStrs_of_tells htells row.expression
    exact absurd (hparse.symm.trans htags') (by simp)
  | ok p =>
    obtain ⟨metric, tags⟩ := p
    left
    obtain ⟨e, he⟩ := (exists_scan_iff row metric tags).mpr hscan
    have hcolumns : e.metric = metric ∧ e.tags = tags := by
      rw [ExpressionRow.scan, hv, Option.map_some] at he
      rw [← Option.some.inj he]
      exact ⟨rfl, rfl⟩
    refine ⟨e, ?_, ?_, ?_⟩
    · rw [← he]
      simp only [queryRow, ExpressionRow.scan, hv, hslice, hparse, Option.map_some]
    · rw [hcolumns.1, hcolumns.2]
      exact tells_of_parseTagStrs hparse
    · rw [hcolumns.1, hcolumns.2, he]

theorem Between.unique {text inner' : List Char} (h : Between text inner)
    (h' : Between text inner') : inner = inner' := by
  obtain ⟨pre, post, rfl, hopen, -, hinner⟩ := h
  obtain ⟨pre', post', heq, hopen', -, hinner'⟩ := h'
  obtain ⟨rfl, hrest⟩ := eq_of_append_cons_eq hopen hopen' heq
  exact (eq_of_append_cons_eq hinner hinner' hrest).1

/-- What is between two brackets needs both, in their order. -/
theorem Between.open_mem (h : Between (pre ++ ')' :: post) inner) (hclose : ')' ∉ pre) :
    '(' ∈ pre := by
  obtain ⟨pre', post', heq, -, hclose', hinner⟩ := h
  have hcut : pre ++ ')' :: post = (pre' ++ '(' :: inner) ++ ')' :: post' := by rw [heq]; simp
  obtain ⟨rfl, -⟩ := eq_of_append_cons_eq hclose (by simp [hclose', hinner]) hcut
  simp

/-- **A row that does no harm is read if it says something, and skipped if not.** -/
theorem queryRow_of_safe (h : SafeRow parseFloat row) :
    (∃ e, queryRow parseFloat row = some (some e) ∧ IsRead parseFloat row e) ∨
      (queryRow parseFloat row = some none ∧ ∀ e, ¬IsRead parseFloat row e) := by
  by_cases hscan : (parseFloat row.right_value).isSome
  · obtain ⟨pre, post, htext, hclose, hopen | ⟨hopen, htells⟩⟩ := h hscan
    · obtain ⟨pre', inner, rfl, hopen'⟩ := List.eq_append_cons_of_mem hopen
      have hbetween : Between row.expression.toList inner :=
        ⟨pre', post, by rw [htext]; simp, hopen', fun hc => hclose (by simp [hc]),
          fun hc => hclose (by simp [hc])⟩
      rcases queryRow_of_slice hscan (parseExpression_of_between hbetween) with
        ⟨e, hquery, htells, hcolumns⟩ | ⟨hquery, hnot⟩
      · exact Or.inl ⟨e, hquery, ⟨inner, hbetween, htells⟩, hcolumns⟩
      · refine Or.inr ⟨hquery, ?_⟩
        rintro e ⟨⟨inner', hbetween', htells⟩, -⟩
        rw [hbetween'.unique hbetween] at htells
        exact hnot _ _ htells
    · have hopen' : '(' ∉ row.expression.toList := by
        rw [htext]
        simpa using hopen
      rcases queryRow_of_slice hscan (parseExpression_of_no_open htext hclose hopen') with
        ⟨e, -, he, -⟩ | ⟨hquery, -⟩
      · exact absurd he (htells _ _)
      · refine Or.inr ⟨hquery, ?_⟩
        rintro e ⟨⟨inner, hbetween, -⟩, -⟩
        rw [htext] at hbetween
        exact hopen (List.mem_append_left _ (hbetween.open_mem hclose))
  · exact Or.inr ⟨queryRow_of_scan hscan, not_isRead_of_scan hscan⟩

/-- **A row that does harm** makes the query panic, or is returned and should not be. -/
theorem queryRow_of_not_safe (h : ¬SafeRow parseFloat row) :
    queryRow parseFloat row = none ∨
      ∃ e, queryRow parseFloat row = some (some e) ∧ ∀ e', ¬IsRead parseFloat row e' := by
  rw [SafeRow, Classical.not_imp] at h
  obtain ⟨hscan, hunsafe⟩ := h
  by_cases hclose : ')' ∈ row.expression.toList
  · obtain ⟨pre, post, htext, hpre⟩ := List.eq_append_cons_of_mem hclose
    have hopen : '(' ∉ pre := fun hopen => hunsafe ⟨pre, post, htext, hpre, Or.inl hopen⟩
    by_cases hpost : '(' ∈ post
    · exact Or.inl (queryRow_of_panic hscan
        (parseExpression_of_close_first htext hpre hopen hpost))
    · have hnone : '(' ∉ pre ++ post := by simp [hopen, hpost]
      have hopen' : '(' ∉ row.expression.toList := by
        rw [htext]
        simpa using hnone
      rcases queryRow_of_slice hscan (parseExpression_of_no_open htext hpre hopen') with
        ⟨e, hquery, -⟩ | ⟨-, hnot⟩
      · refine Or.inr ⟨e, hquery, ?_⟩
        rintro e' ⟨⟨inner, hbetween, -⟩, -⟩
        rw [htext] at hbetween
        exact hopen (hbetween.open_mem hpre)
      · exact absurd ⟨pre, post, htext, hpre, Or.inr ⟨hnone, hnot⟩⟩ hunsafe
  · exact Or.inl (queryRow_of_panic hscan (parseExpression_of_no_close hclose))

/-! ## The table -/

/-- Every row that says something and is reached is returned. -/
theorem Reads.length_le {rows : List ExpressionRow} {ret ret' : List (Expression F)}
    (h : Reads parseFloat rows ret) (hquery : queryRows parseFloat rows = some ret') :
    ret.length ≤ ret'.length := by
  induction h generalizing ret' with
  | nil => exact Nat.zero_le _
  | @read row e rows ret hrow hrows ih =>
    obtain ⟨r, hr, hrest⟩ := Option.bind_eq_some_iff.mp hquery
    obtain ⟨ret₁, hret₁, rfl⟩ := Option.map_eq_some_iff.mp hrest
    have hlen := ih hret₁
    have hsome : r.toList.length = 1 := by
      by_cases hsafe : SafeRow parseFloat row
      · rcases queryRow_of_safe hsafe with ⟨e', he', -⟩ | ⟨-, hnot⟩
        · rw [← Option.some.inj (he'.symm.trans hr)]
          rfl
        · exact absurd hrow (hnot e)
      · rcases queryRow_of_not_safe hsafe with hpanic | ⟨e', -, hnot⟩
        · exact absurd (hpanic.symm.trans hr) (by simp)
        · exact absurd hrow (hnot e)
    rw [List.length_append, hsome, List.length_cons]
    omega
  | @skip row rows ret hrow hrows ih =>
    obtain ⟨r, hr, hrest⟩ := Option.bind_eq_some_iff.mp hquery
    obtain ⟨ret₁, hret₁, rfl⟩ := Option.map_eq_some_iff.mp hrest
    have hlen := ih hret₁
    rw [List.length_append]
    omega

/-- The loop reads the rows exactly if none of them does harm. -/
theorem queryRows_reads_iff (rows : List ExpressionRow) :
    (∃ ret, queryRows parseFloat rows = some ret ∧ Reads parseFloat rows ret) ↔
      ∀ row ∈ rows, SafeRow parseFloat row := by
  induction rows with
  | nil => exact ⟨fun _ row hrow => absurd hrow List.not_mem_nil, fun _ => ⟨[], rfl, .nil⟩⟩
  | cons row rows ih =>
    rw [List.forall_mem_cons, ← ih]
    constructor
    · rintro ⟨ret, hquery, hreads⟩
      obtain ⟨r, hr, hrest⟩ := Option.bind_eq_some_iff.mp hquery
      obtain ⟨ret₁, hret₁, rfl⟩ := Option.map_eq_some_iff.mp hrest
      by_cases hsafe : SafeRow parseFloat row
      · refine ⟨hsafe, ret₁, hret₁, ?_⟩
        rcases queryRow_of_safe hsafe with ⟨e, he, hread⟩ | ⟨hnone, hnot⟩
        · obtain rfl := Option.some.inj (he.symm.trans hr)
          cases hreads with
          | read _ hrows => exact hrows
          | skip hrow _ => exact absurd hread (hrow e)
        · obtain rfl := Option.some.inj (hnone.symm.trans hr)
          have hreads' : Reads parseFloat (row :: rows) ret₁ := hreads
          cases hreads' with
          | read hrow _ => exact absurd hrow (hnot _)
          | skip _ hrows => exact hrows
      · -- the row is returned: there is one expression too many
        rcases queryRow_of_not_safe hsafe with hpanic | ⟨e, he, hnot⟩
        · exact absurd (hpanic.symm.trans hr) (by simp)
        · obtain rfl := Option.some.inj (he.symm.trans hr)
          cases hreads with
          | read hrow _ => exact absurd hrow (hnot _)
          | skip _ hrows =>
            have hlen := hrows.length_le hret₁
            exact absurd hlen (by simp)
    · rintro ⟨hsafe, ret, hquery, hreads⟩
      rcases queryRow_of_safe hsafe with ⟨e, he, hread⟩ | ⟨hnone, hnot⟩
      · exact ⟨e :: ret, by simp [queryRows, he, hquery], .read hread hreads⟩
      · exact ⟨ret, by simp [queryRows, hnone, hquery], .skip hnot hreads⟩

/-- **One bad row.**  The query does not panic and returns exactly the selected rows that say
an expression, exactly if none of the selected rows does harm. -/
theorem queryExpressions_reads_iff (parseFloat : String → Option F) (table : List ExpressionRow) :
    (∃ ret, queryExpressions parseFloat table = some ret ∧
        Reads parseFloat (table.filter fun row => 0 < row.action_id ∧ row.pause = false) ret) ↔
      ∀ row ∈ table, 0 < row.action_id → row.pause = false → SafeRow parseFloat row := by
  rw [queryExpressions, queryRows_reads_iff]
  constructor
  · intro h row hrow haction hpause
    exact h row (List.mem_filter.mpr ⟨hrow, by simp [haction, hpause]⟩)
  · intro h row hrow
    obtain ⟨hrow, hsel⟩ := List.mem_filter.mp hrow
    obtain ⟨haction, hpause⟩ := of_decide_eq_true hsel
    exact h row hrow haction hpause

/-- A row with an action, not paused, for the tables below. -/
def sampleRow (expression : String) : ExpressionRow :=
  ⟨1, expression, "all(#3)", ">", "80", 3, 0, "", 1, false⟩

/-- A text without a closing bracket, or with it in front, makes the query panic whatever
the other rows are; a text without an opening one is returned. -/
theorem one_text_hides_the_others :
    queryExpressions (fun _ => some ()) [sampleRow "each(metric=cpu a=b)",
        sampleRow "each(metric=cpu a=b"] = none ∧
      queryExpressions (fun _ => some ()) [sampleRow "each(metric=cpu a=b)",
        sampleRow ")metric=cpu a=b("] = none ∧
      (queryExpressions (fun _ => some ()) [sampleRow "metric=cpu a=b)"]).map
        (fun ret => ret.map Expression.metric) = some ["cpu"] ∧
      ∀ inner, ¬Between "metric=cpu a=b)".toList inner := by
  refine ⟨by decide +kernel, by decide +kernel, by decide +kernel, ?_⟩
  rintro inner ⟨pre, post, htext, -⟩
  have hopen : '(' ∈ "metric=cpu a=b)".toList := by rw [htext]; simp
  exact absurd hopen (by decide)

end OpenFalcon.Hbs
