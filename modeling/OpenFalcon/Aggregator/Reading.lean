import OpenFalcon.Aggregator.Expression

/-!
# How a cluster expression is read

Acceptance and reading are two programs.  A text is accepted by regular expressions, which take
every character but a parenthesis for a part of a name; it is read by splitting at runs of `$`,
`(` and `)`, which takes a `$` in a name for the end of a piece.

* Where no name has a `$`, the pieces are the names with the signs between them
  (`parse_text`), and the chain is computed from left to right (`compute_of_values`).
  `Aggregator.Written` adds the blanks of a text as it is written.
* Whatever the names are, the mode is the text behind the last parenthesis, there are enough
  operators, and nothing panics (`parse_accepted`, `compute_ne_none`).  Which operands are then
  other ones than the text says is the subject of `Aggregator.Misread`.
-/

namespace OpenFalcon.Aggregator

open Text
open Numeric

/-! ## The pieces of a text -/

/-- A name that is one piece. -/
def IsPiece (name : List Char) : Prop := name ≠ [] ∧ ∀ c ∈ name, isBracket c = false

namespace Chain

/-- The text of a chain without its last parenthesis. -/
def openText : Chain → List Char
  | one name => '$' :: '(' :: name
  | snoc chain sign name => chain.openText ++ ')' :: sign.char :: '$' :: '(' :: name

/-- The names of a chain with the signs between them. -/
def items : Chain → List (List Char)
  | one name => [name]
  | snoc chain sign name => chain.items ++ [[sign.char], name]

theorem text_eq_openText (chain : Chain) : chain.text = chain.openText ++ [')'] := by
  induction chain with
  | one name => rfl
  | snoc chain sign name ih => simp [text, openText, ih, counterText]

variable (chain : Chain)

theorem openText_ne_nil : chain.openText ≠ [] := by
  cases chain <;> simp [openText]

/-- Without its last parenthesis a chain ends in its last name. -/
theorem getLast?_openText {chain : Chain} (hnames : ∀ name ∈ chain.names, IsPiece name) :
    chain.openText.getLast?.all (! isBracket ·) = true := by
  have hlast : ∀ {name : List Char} (front : List Char), IsPiece name →
      (front ++ name).getLast?.all (! isBracket ·) = true := by
    intro name front hname
    rw [List.getLast?_append_of_ne_nil _ hname.1, List.getLast?_eq_some_getLast hname.1,
      Option.all_some, hname.2 _ (List.getLast_mem hname.1)]
    rfl
  cases chain with
  | one name => exact hlast ['$', '('] (hnames name (by simp [names]))
  | snoc chain sign name =>
    have happend : (snoc chain sign name).openText =
        (chain.openText ++ [')', sign.char, '$', '(']) ++ name := by simp [openText]
    rw [happend]
    exact hlast _ (hnames name (by simp [names]))

theorem isBracket_open : ∀ c ∈ ['$', '('], isBracket c = true := by simp [isBracket]

theorem isBracket_close : ∀ c ∈ [')'], isBracket c = true := by simp [isBracket]

/-- **The pieces of a chain**, behind brackets in front of it.  The induction adds a sign and a
name at the end, and each of them stands behind a run. -/
theorem splitRuns_openText {chain : Chain} (hnames : ∀ name ∈ chain.names, IsPiece name)
    {front : List Char} (hfront : ∀ c ∈ front, isBracket c = true) :
    splitRuns isBracket (front ++ chain.openText) = [] :: chain.items := by
  induction chain with
  | one name =>
    have hrun : ∀ c ∈ front ++ ['$', '('], isBracket c = true := fun c hc =>
      (List.mem_append.mp hc).elim (hfront c) (isBracket_open c)
    have hpieces := splitRuns_run_append (by simp) hrun (hnames name (by simp [names])).2
    simpa [openText, items] using hpieces
  | snoc chain sign name ih =>
    have hchain : ∀ n ∈ chain.names, IsPiece n := fun n hn =>
      hnames n (List.mem_append_left _ hn)
    have hne : front ++ chain.openText ≠ [] := by simp [openText_ne_nil]
    have hlast : (front ++ chain.openText).getLast?.all (! isBracket ·) = true := by
      rw [List.getLast?_append_of_ne_nil _ chain.openText_ne_nil]
      exact getLast?_openText hchain
    have hsign : ∀ c ∈ [sign.char], isBracket c = false := by simp [sign.isBracket_char]
    have hbehind : (front ++ chain.openText ++ [')'] ++ [sign.char]).getLast?.all
        (! isBracket ·) = true := by simp [sign.isBracket_char]
    have hpieces := splitRuns_append_run hbehind (by simp) (by simp) isBracket_open
      (hnames name (by simp [names])).2
    rw [splitRuns_append_run hlast hne (by simp) isBracket_close hsign, ih hchain] at hpieces
    simpa [openText, items] using hpieces

/-- Behind a list of odd length the positions change sides. -/
theorem byParity_append {α : Type*} (l m : List α) :
    byParity (l ++ m) =
      if l.length % 2 = 0 then
        ((byParity l).1 ++ (byParity m).1, (byParity l).2 ++ (byParity m).2)
      else ((byParity l).1 ++ (byParity m).2, (byParity l).2 ++ (byParity m).1) := by
  induction l with
  | nil => rfl
  | cons a l ih =>
    rw [List.cons_append, byParity, ih, List.length_cons]
    rcases Nat.mod_two_eq_zero_or_one l.length with hlen | hlen
    · have hsucc : ¬(l.length + 1) % 2 = 0 := by omega
      rw [if_pos hlen, if_neg hsucc]
      rfl
    · have hlen' : ¬l.length % 2 = 0 := by omega
      have hsucc : (l.length + 1) % 2 = 0 := by omega
      rw [if_neg hlen', if_pos hsucc]
      rfl

theorem length_items_odd : chain.items.length % 2 = 1 := by
  induction chain with
  | one name => rfl
  | snoc chain sign name ih =>
    rw [items, List.length_append, List.length_cons, List.length_singleton]
    omega

theorem byParity_items :
    byParity chain.items = (chain.names, chain.signs.map fun sign => [sign.char]) := by
  induction chain with
  | one name => rfl
  | snoc chain sign name ih =>
    have hodd : ¬chain.items.length % 2 = 0 := by rw [chain.length_items_odd]; decide
    rw [items, byParity_append, if_neg hodd, ih]
    simp [byParity, names, signs]

end Chain

/-- The runs around the chain of an expression. -/
def Expr.front : Expr → List Char
  | .compared _ _ _ => ['(']
  | _ => []

def Expr.back : Expr → List Char
  | .compared _ _ _ => [')', ')']
  | _ => [')']

theorem Expr.text_eq (e : Expr) : e.text = e.front ++ e.counters.openText ++ e.back ++ e.mode := by
  cases e with
  | chain c => simp [text, front, back, counters, mode, Chain.text_eq_openText]
  | compared c comparison number =>
    simp [text, front, back, counters, mode, Chain.text_eq_openText]
  | single name comparison number =>
    simp [text, front, back, counters, mode, counterText, Chain.openText]

theorem Expr.mem_mode {e : Expr} {c : Char} (hc : c ∈ e.mode) :
    c ∈ ['>', '<', '='] ∨ c.isDigit = true ∨ c = '.' := by
  have hcomparison : ∀ comparison : Comparison, ∀ c ∈ comparison.text, c ∈ ['>', '<', '='] := by
    intro comparison
    cases comparison <;> simp [Comparison.text]
  cases e with
  | chain chain => exact absurd hc List.not_mem_nil
  | compared chain comparison number =>
    exact (List.mem_append.mp hc).imp (hcomparison comparison c) Number.mem_text
  | single name comparison number =>
    exact (List.mem_append.mp hc).imp (hcomparison comparison c) Number.mem_text

theorem isBracket_of_mem_mode (e : Expr) : ∀ c ∈ e.mode, isBracket c = false := by
  intro c hc
  by_contra hbracket
  rw [Bool.not_eq_false, isBracket, Bool.or_eq_true, Bool.or_eq_true, decide_eq_true_eq,
    decide_eq_true_eq, decide_eq_true_eq] at hbracket
  rcases hbracket with (rfl | rfl) | rfl
  · exact absurd (Expr.mem_mode hc) (by decide)
  · exact absurd (Expr.mem_mode hc) (by decide)
  · exact absurd (Expr.mem_mode hc) (by decide)

/-! ## Parsing -/

/-- The pieces between the first and the last one, and the last one. -/
theorem parse_eq {s mode : List Char} {first : List Char} {middle : List (List Char)}
    (hpieces : splitRuns isBracket s = first :: middle ++ [mode]) :
    parse s true = some ⟨(byParity middle).1, (byParity middle).2, mode⟩ := by
  have hslice : slice (first :: middle ++ [mode]) 1
      ((first :: middle ++ [mode]).length - 1) = some middle :=
    slice_eq_some (show first :: middle ++ [mode] = [first] ++ middle ++ [mode] from rfl) rfl
      (by simp; omega)
  have hlast : (first :: middle ++ [mode])[(first :: middle ++ [mode]).length - 1]? =
      some mode := by simp
  simp only [parse, if_true, hpieces, hslice, hlast, Option.bind_some, Option.map_some]

/-- **A text is read as it is written** if no name has a `$` or a parenthesis. -/
theorem parse_text {e : Expr} (hnames : ∀ name ∈ e.counters.names, IsPiece name) :
    parse e.text true =
      some ⟨e.counters.names, e.counters.signs.map fun sign => [sign.char], e.mode⟩ := by
  have hfront : ∀ c ∈ e.front, isBracket c = true := by
    cases e <;> simp [Expr.front, isBracket]
  have hback : ∀ c ∈ e.back, isBracket c = true := by
    cases e <;> simp [Expr.back, isBracket]
  have hback_ne : e.back ≠ [] := by cases e <;> simp [Expr.back]
  have hlast : (e.front ++ e.counters.openText).getLast?.all (! isBracket ·) = true := by
    rw [List.getLast?_append_of_ne_nil _ e.counters.openText_ne_nil]
    exact Chain.getLast?_openText hnames
  have hpieces := splitRuns_append_run hlast (by simp [Chain.openText_ne_nil]) hback_ne hback
    (isBracket_of_mem_mode e)
  rw [Chain.splitRuns_openText hnames hfront, ← e.text_eq] at hpieces
  rw [parse_eq hpieces, Chain.byParity_items]

/-- There are at most as many operators as operands, and at most one less. -/
theorem length_byParity {α : Type*} (l : List α) :
    (byParity l).2.length ≤ (byParity l).1.length ∧
      (byParity l).1.length ≤ (byParity l).2.length + 1 := by
  induction l with
  | nil => exact ⟨le_refl 0, Nat.zero_le 1⟩
  | cons a l ih =>
    simp only [byParity, List.length_cons]
    omega

theorem mem_of_mem_byParity {α : Type*} {l : List α} {a : α}
    (ha : a ∈ (byParity l).1 ∨ a ∈ (byParity l).2) : a ∈ l := by
  induction l with
  | nil => exact ha.elim id id
  | cons b l ih =>
    rcases ha with ha | ha
    · rcases List.mem_cons.mp ha with rfl | ha
      · exact List.mem_cons_self
      · exact List.mem_cons_of_mem b (ih (Or.inr ha))
    · exact List.mem_cons_of_mem b (ih (Or.inl ha))

/-- **What is read of any expression**: its mode, enough operators, and operands without a
bracket. -/
theorem parse_accepted (e : Expr) :
    ∃ parsed, parse e.text true = some parsed ∧ parsed.computeMode = e.mode ∧
      parsed.operands.length ≤ parsed.operators.length + 1 ∧
      ∀ operand ∈ parsed.operands, ∀ c ∈ operand, isBracket c = false := by
  -- the mode stands behind a last bracket
  have htext : ∃ front c, isBracket c = true ∧ e.text = front ++ c :: e.mode := by
    cases e with
    | chain chain => exact ⟨chain.openText, ')', by decide, chain.text_eq_openText⟩
    | compared chain comparison number =>
      exact ⟨'(' :: chain.text, ')', by decide, by simp [Expr.text, Expr.mode]⟩
    | single name comparison number =>
      exact ⟨'$' :: '(' :: name, ')', by decide, by simp [Expr.text, Expr.mode, counterText]⟩
  obtain ⟨front, c, hc, htext⟩ := htext
  obtain ⟨pieces, hne, hpieces⟩ := splitRuns_append_cons hc front (isBracket_of_mem_mode e)
  obtain ⟨first, middle, rfl⟩ := List.exists_cons_of_ne_nil hne
  rw [← htext] at hpieces
  refine ⟨_, parse_eq hpieces, rfl, (length_byParity middle).2, fun operand hoperand => ?_⟩
  have hmem : operand ∈ splitRuns isBracket e.text := by
    rw [hpieces]
    exact List.mem_append_left _
      (List.mem_cons_of_mem first (mem_of_mem_byParity (Or.inl hoperand)))
  exact eq_false_of_mem_splitRuns hmem

/-! ## Computing -/

section

variable {F : Type} [Float64 F] (parseFloat : List Char → F × Bool) {valMap : GoMap (List Char) F}
  {parsed : Parsed} {v : List Char → F}

theorem findComparison_text (comparison : Comparison) (number : Number) :
    findComparison (comparison.text ++ number.text) = some (comparison.text, number.text) := by
  have hmode : ∀ c ∈ comparison.text, isComparison c = true := by
    cases comparison <;> simp [Comparison.text, isComparison]
  have hmode_ne : comparison.text ≠ [] := by cases comparison <;> simp [Comparison.text]
  have hval : ∀ c ∈ number.text, isNumeral c = true := by
    intro c hc
    simpa [isNumeral] using Number.mem_text hc
  -- a number does not begin with a character of a comparison
  obtain ⟨d, rest, hnumber⟩ := List.exists_cons_of_ne_nil number.text_ne_nil
  have hd : ¬isComparison d = true := by
    intro h
    have hdigit := Number.mem_text (hnumber ▸ List.mem_cons_self : d ∈ number.text)
    simp only [isComparison, Bool.or_eq_true, decide_eq_true_eq] at h
    rcases h with (rfl | rfl) | rfl
    · exact absurd hdigit (by decide)
    · exact absurd hdigit (by decide)
    · exact absurd hdigit (by decide)
  have htake : (comparison.text ++ number.text).takeWhile isComparison = comparison.text := by
    rw [List.takeWhile_append_of_pos hmode, hnumber, List.takeWhile_cons_of_neg hd,
      List.append_nil]
  have hdrop : (comparison.text ++ number.text).dropWhile isComparison = number.text := by
    rw [List.dropWhile_append_of_pos hmode, hnumber, List.dropWhile_cons_of_neg hd]
  obtain ⟨c, s, hcons⟩ := List.exists_cons_of_ne_nil hmode_ne
  rw [hcons, List.cons_append] at htake hdrop ⊢
  rw [findComparison, htake, hdrop, List.takeWhile_eq_self_iff.mpr hval,
    if_pos ⟨List.cons_ne_nil c s, number.text_ne_nil⟩]

theorem compareSum_text (sum : F) (comparison : Comparison) (number : Number) :
    compareSum parseFloat sum (comparison.text ++ number.text) =
      some (comparison.holds sum (parseFloat number.text).1) := by
  rw [compareSum, findComparison_text, Option.map_some]
  cases comparison <;> simp [Comparison.text, Comparison.holds]

/-- The value of a chain, from left to right. -/
def Chain.value (v : List Char → F) : Chain → F
  | .one name => v name
  | .snoc chain sign name => sign.apply (chain.value v) (v name)

/-- The value of an expression.  A comparison is one or zero. -/
def Expr.value (v : List Char → F) : Expr → F
  | .chain c => c.value v
  | .compared c comparison number =>
    if comparison.holds (c.value v) (parseFloat number.text).1 then Float64.ofRat 1
    else Float64.ofRat 0
  | .single name comparison number =>
    if comparison.holds (v name) (parseFloat number.text).1 then Float64.ofRat 1
    else Float64.ofRat 0

theorem sumLoop_append {operators : List (List Char)} {vals : List F}
    (hlen : operators.length = vals.length) (sum : F) (op : List Char) (v : F) :
    sumLoop sum (operators ++ [op]) (vals ++ [v]) =
      (sumLoop sum operators vals).map fun sum => if op = ['+'] then sum + v else sum - v := by
  induction operators generalizing sum vals with
  | nil =>
    obtain rfl := List.length_eq_zero_iff.mp hlen.symm
    rfl
  | cons op' operators ih =>
    cases vals with
    | nil => cases hlen
    | cons w vals =>
      rw [List.cons_append, List.cons_append, sumLoop, sumLoop]
      exact ih (Nat.succ.inj hlen) _

theorem sumLoop_eq_foldl {operators : List (List Char)} {vals : List F}
    (hlen : vals.length ≤ operators.length) (sum : F) :
    sumLoop sum operators vals = some ((vals.zip operators).foldl
      (fun sum p => if p.2 = ['+'] then sum + p.1 else sum - p.1) sum) := by
  induction vals generalizing sum operators with
  | nil => rw [sumLoop, List.zip_nil_left, List.foldl_nil]
  | cons v vals ih =>
    cases operators with
    | nil => cases hlen
    | cons op operators =>
      rw [sumLoop, ih (Nat.le_of_succ_le_succ hlen), List.zip_cons_cons, List.foldl_cons]

/-- **The loop computes the value of the chain.** -/
theorem sumLoop_chain (v : List Char → F) (chain : Chain) :
    ∃ first vals, chain.names.map v = first :: vals ∧ chain.signs.length = vals.length ∧
      sumLoop first (chain.signs.map fun sign => [sign.char]) vals = some (chain.value v) := by
  induction chain with
  | one name => exact ⟨v name, [], rfl, rfl, rfl⟩
  | snoc chain sign name ih =>
    obtain ⟨first, vals, hmap, hlen, hsum⟩ := ih
    refine ⟨first, vals ++ [v name], ?_, ?_, ?_⟩
    · rw [Chain.names, List.map_append, hmap]
      rfl
    · simp [Chain.signs, hlen]
    · rw [Chain.signs, List.map_append, List.map_singleton,
        sumLoop_append (by simpa using hlen), hsum, Option.map_some, Chain.value]
      cases sign <;> rfl

theorem compute_of_lookup {hostname : List Char}
    (hvalues : ∀ name ∈ parsed.operands, valMap.lookup (hostname ++ name) = some (v name))
    {first : F} {vals : List F} (hmap : parsed.operands.map v = first :: vals) {sum : F}
    (hsum : sumLoop first parsed.operators vals = some sum) :
    compute parseFloat parsed hostname valMap =
      if parsed.computeMode ≠ [] then
        (compareSum parseFloat sum parsed.computeMode).map fun holds =>
          .ok (if holds then Float64.ofRat 1 else Float64.ofRat 0)
      else some (.ok sum) := by
  have hne : parsed.operands ≠ [] := fun hnil => by simp [hnil] at hmap
  have hquery : queryOperands parsed.operands hostname valMap = first :: vals := by
    rw [queryOperands, ← hmap, ← List.filterMap_eq_map]
    exact List.filterMap_congr hvalues
  have hlen : vals.length + 1 = parsed.operands.length := by
    rw [← List.length_cons, ← hmap, List.length_map]
  simp only [compute, hne, if_false, hquery, hlen, ne_eq, not_true_eq_false, hsum,
    Option.bind_some]

/-- **Computing an expression** of which every counter has a value. -/
theorem compute_of_values {e : Expr} {hostname : List Char}
    (hvalues : ∀ name ∈ e.counters.names, valMap.lookup (hostname ++ name) = some (v name)) :
    compute parseFloat
        ⟨e.counters.names, e.counters.signs.map fun sign => [sign.char], e.mode⟩ hostname valMap =
      some (.ok (e.value parseFloat v)) := by
  obtain ⟨first, vals, hmap, -, hsum⟩ := sumLoop_chain v e.counters
  rw [compute_of_lookup parseFloat hvalues hmap hsum]
  cases e with
  | chain chain => rfl
  | compared chain comparison number =>
    have hmode : comparison.text ++ number.text ≠ [] := by simp [number.text_ne_nil]
    simp only [Expr.mode, hmode, ne_eq, not_false_eq_true, if_true, compareSum_text,
      Option.map_some]
    rfl
  | single name comparison number =>
    have hmode : comparison.text ++ number.text ≠ [] := by simp [number.text_ne_nil]
    simp only [Expr.mode, hmode, ne_eq, not_false_eq_true, if_true, compareSum_text,
      Option.map_some]
    rfl

/-- **Computing without a value** of some operand. -/
theorem compute_of_missing {hostname : List Char}
    (hmissing : ∃ name ∈ parsed.operands, valMap.lookup (hostname ++ name) = none) :
    compute parseFloat parsed hostname valMap = some (.error "value invalid") := by
  have hne : parsed.operands ≠ [] := List.ne_nil_of_mem hmissing.choose_spec.1
  have hlen : (queryOperands parsed.operands hostname valMap).length < parsed.operands.length :=
    List.length_filterMap_lt_length_iff_exists.mpr (by simpa using hmissing)
  rw [compute, if_neg hne]
  split
  · rfl
  · rename_i first vals hquery
    rw [hquery, List.length_cons] at hlen
    rw [if_pos hlen.ne]

theorem compareSum_mode_ne_none {e : Expr} (hmode : e.mode ≠ []) (sum : F) :
    compareSum parseFloat sum e.mode ≠ none := by
  cases e with
  | chain c => exact absurd rfl hmode
  | compared c comparison number =>
    rw [Expr.mode, compareSum_text]
    exact Option.some_ne_none _
  | single name comparison number =>
    rw [Expr.mode, compareSum_text]
    exact Option.some_ne_none _

/-- **Computing never panics** on what is read of an expression, whatever its names are. -/
theorem compute_ne_none {e : Expr} (hmode : parsed.computeMode = e.mode)
    (hlen : parsed.operands.length ≤ parsed.operators.length + 1) (hostname : List Char)
    (valMap : GoMap (List Char) F) : compute parseFloat parsed hostname valMap ≠ none := by
  rw [compute]
  by_cases hempty : parsed.operands = []
  · rw [if_pos hempty]
    exact Option.some_ne_none _
  rw [if_neg hempty]
  cases queryOperands parsed.operands hostname valMap with
  | nil => exact Option.some_ne_none _
  | cons first vals =>
    by_cases hvals : vals.length + 1 = parsed.operands.length
    · have hloop := sumLoop_eq_foldl (show vals.length ≤ parsed.operators.length by omega) first
      simp only [hvals, ne_eq, not_true_eq_false, if_false, hloop, Option.bind_some, hmode]
      by_cases hnone : e.mode = []
      · simp [hnone]
      · simpa [hnone] using compareSum_mode_ne_none parseFloat hnone _
    · simp [hvals]

end

end OpenFalcon.Aggregator
