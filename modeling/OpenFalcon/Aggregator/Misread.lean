import OpenFalcon.Aggregator.Reading

/-!
# Which cluster expressions are misread

What an accepted text says can be seen in the text: its counters stand between each `$(` and the
next `)` (`counterTexts`), its operators between a `)` and a `$(` (`operatorTexts`), and its mode
behind the last `)`.  The regular expressions accept a `$` inside a counter.  `parse` splits
there, so `$($a)` is read as the counter `a`, and `$(a$+$b)`, which is one counter, as the sum of
two.

`parse` returns what the text says exactly if no counter has a `$` in it (`parse_exact_iff`).
-/

namespace OpenFalcon.Aggregator

open Text
open Numeric

/-! ## What a text says -/

/-- The texts between each `$(` and the `)` that ends it. -/
def counterTexts : List Char → List (List Char)
  | [] => []
  | c :: s =>
    if ['$', '('] <+: c :: s then s.tail.takeWhile (· ≠ ')') :: counterTexts s
    else counterTexts s

/-- The `+` and `-` between a `)` and a `$(`. -/
def operatorTexts : List Char → List (List Char)
  | [] => []
  | c :: s =>
    if [')', '+', '$', '('] <+: c :: s then ['+'] :: operatorTexts s
    else if [')', '-', '$', '('] <+: c :: s then ['-'] :: operatorTexts s
    else operatorTexts s

/-- The text behind the last `)`. -/
def modeText (s : List Char) : List Char := s.rtakeWhile (· ≠ ')')

theorem counterTexts_cons_of_ne {c : Char} (hc : c ≠ '$') (s : List Char) :
    counterTexts (c :: s) = counterTexts s := by
  have hnot : ¬['$', '('] <+: c :: s := fun h => hc (List.cons_prefix_cons.mp h).1.symm
  rw [counterTexts, if_neg hnot]

theorem operatorTexts_cons_of_ne {c : Char} (hc : c ≠ ')') (s : List Char) :
    operatorTexts (c :: s) = operatorTexts s := by
  have hnot : ∀ d : Char, ¬[')', d, '$', '('] <+: c :: s := fun d h =>
    hc (List.cons_prefix_cons.mp h).1.symm
  rw [operatorTexts, if_neg (hnot '+'), if_neg (hnot '-')]

/-- A counter ends at its parenthesis. -/
theorem counterTexts_append (x y : List Char) :
    counterTexts (x ++ ')' :: y) = counterTexts (x ++ [')']) ++ counterTexts y := by
  induction x with
  | nil => simp [counterTexts]
  | cons a x ih =>
    have hopen : ∀ z : List Char, ['$', '('] <+: a :: (x ++ ')' :: z) ↔ ['$', '('] <+: a :: x :=
      fun z => prefix_append_cons_iff (by decide) (a :: x) z
    rw [List.cons_append, List.cons_append, counterTexts, counterTexts, ih]
    by_cases h : ['$', '('] <+: a :: x
    · rw [if_pos ((hopen y).mpr h), if_pos ((hopen []).mpr h), List.cons_append]
      congr 1
      cases x with
      | nil => exact absurd (List.cons_prefix_cons.mp h).2 (by simp)
      | cons b x =>
        rw [List.cons_append, List.tail_cons, List.cons_append, List.tail_cons,
          takeWhile_append_cons, takeWhile_append_cons]
    · rw [if_neg fun h' => h ((hopen y).mp h'), if_neg fun h' => h ((hopen []).mp h')]

theorem counterTexts_of_notMem {s : List Char} (h : '(' ∉ s) : counterTexts s = [] := by
  induction s with
  | nil => rfl
  | cons c s ih =>
    have hopen : ¬['$', '('] <+: c :: s := fun hpre => h (hpre.subset (by decide))
    rw [counterTexts, if_neg hopen, ih fun hs => h (List.mem_cons_of_mem c hs)]

/-- An operator does not cross a parenthesis but the one it begins with. -/
theorem operatorTexts_append (x y : List Char) :
    operatorTexts (x ++ ')' :: y) = operatorTexts x ++ operatorTexts (')' :: y) := by
  induction x with
  | nil => rfl
  | cons a x ih =>
    have hcross : ∀ {q : List Char}, ')' ∉ q →
        (')' :: q <+: a :: (x ++ ')' :: y) ↔ ')' :: q <+: a :: x) := by
      intro q hq
      rw [List.cons_prefix_cons, List.cons_prefix_cons, prefix_append_cons_iff hq]
    simp only [List.cons_append, operatorTexts, ih, hcross (q := ['+', '$', '(']) (by decide),
      hcross (q := ['-', '$', '(']) (by decide)]
    split_ifs <;> rfl

theorem operatorTexts_of_notMem {c : Char} (hc : c ∈ ['(', ')']) {s : List Char} (h : c ∉ s) :
    operatorTexts s = [] := by
  have hsub : ∀ d : Char, ['(', ')'] ⊆ [')', d, '$', '('] := by simp
  induction s with
  | nil => rfl
  | cons a s ih =>
    have hnot : ∀ d : Char, ¬[')', d, '$', '('] <+: a :: s := fun d hpre =>
      h (hpre.subset (hsub d hc))
    rw [operatorTexts, if_neg (hnot '+'), if_neg (hnot '-'),
      ih fun hs => h (List.mem_cons_of_mem a hs)]

/-- **The counters of a chain.** -/
theorem counterTexts_chain {chain : Chain} (hnames : ∀ name ∈ chain.names, IsName name) :
    counterTexts chain.text = chain.names := by
  have hone : ∀ {name : List Char}, IsName name → counterTexts (counterText name) = [name] := by
    intro name hname
    have hopen : ['$', '('] <+: '$' :: '(' :: (name ++ [')']) := ⟨name ++ [')'], rfl⟩
    have hinside : counterTexts ('(' :: (name ++ [')'])) = [] := by
      rw [counterTexts_cons_of_ne (by decide)]
      exact counterTexts_of_notMem (by simp [hname.2.1])
    have hall : ∀ c ∈ name, decide (c ≠ ')') = true := fun c hc => by
      simpa using fun heq : c = ')' => hname.2.2 (heq ▸ hc)
    rw [counterText, counterTexts, if_pos hopen, hinside, List.tail_cons, takeWhile_append_cons,
      List.takeWhile_eq_self_iff.mpr hall]
  induction chain with
  | one name => exact hone (hnames name (by simp [Chain.names]))
  | snoc chain sign name ih =>
    have hsign : counterTexts (sign.char :: counterText name) =
        counterTexts (counterText name) :=
      counterTexts_cons_of_ne (by cases sign <;> decide) _
    rw [Chain.text, chain.text_eq_openText, List.append_assoc, List.singleton_append,
      counterTexts_append, ← chain.text_eq_openText,
      ih fun n hn => hnames n (List.mem_append_left _ hn), hsign,
      hone (hnames name (by simp [Chain.names]))]
    rfl

/-- **The operators of a chain.** -/
theorem operatorTexts_openText {chain : Chain} (hnames : ∀ name ∈ chain.names, IsName name) :
    operatorTexts chain.openText = chain.signs.map fun sign => [sign.char] := by
  induction chain with
  | one name =>
    have hname := hnames name (by simp [Chain.names])
    exact operatorTexts_of_notMem (c := ')') (by decide) (by simp [Chain.openText, hname.2.2])
  | snoc chain sign name ih =>
    have hname := hnames name (by simp [Chain.names])
    have hrest : operatorTexts (sign.char :: '$' :: '(' :: name) = [] := by
      refine operatorTexts_of_notMem (c := ')') (by decide) ?_
      cases sign <;> simp [Sign.char, hname.2.2]
    have hsign : operatorTexts (')' :: sign.char :: '$' :: '(' :: name) = [[sign.char]] := by
      rw [operatorTexts, hrest]
      cases sign with
      | plus => exact if_pos ⟨name, rfl⟩
      | minus =>
        have hnot : ¬[')', '+', '$', '('] <+: ')' :: Sign.minus.char :: '$' :: '(' :: name := by
          rw [List.cons_prefix_cons, List.cons_prefix_cons]
          exact fun h => absurd h.2.1 (by decide)
        rw [if_neg hnot]
        exact if_pos ⟨name, rfl⟩
    rw [Chain.openText, operatorTexts_append, hsign,
      ih fun n hn => hnames n (List.mem_append_left _ hn), Chain.signs, List.map_append]
    rfl

/-! ## What is said and what is read -/

theorem notMem_mode (e : Expr) : '(' ∉ e.mode ∧ ')' ∉ e.mode :=
  ⟨fun h => absurd (isBracket_of_mem_mode e _ h) (by decide),
    fun h => absurd (isBracket_of_mem_mode e _ h) (by decide)⟩

theorem counterTexts_text {e : Expr} (hnames : ∀ name ∈ e.counters.names, IsName name) :
    counterTexts e.text = e.counters.names := by
  have hmode := counterTexts_of_notMem (notMem_mode e).1
  cases e with
  | chain c => exact counterTexts_chain hnames
  | compared c comparison number =>
    rw [Expr.mode] at hmode
    rw [Expr.text, counterTexts_cons_of_ne (by decide), c.text_eq_openText, List.append_assoc,
      List.singleton_append, counterTexts_append, counterTexts_cons_of_ne (by decide), hmode,
      List.append_nil, ← c.text_eq_openText]
    exact counterTexts_chain hnames
  | single name comparison number =>
    have htext : (Expr.single name comparison number).text =
        ('$' :: '(' :: name) ++ ')' :: (comparison.text ++ number.text) := by
      simp [Expr.text, counterText]
    rw [htext, counterTexts_append]
    rw [Expr.mode] at hmode
    rw [hmode, List.append_nil]
    exact counterTexts_chain hnames

theorem operatorTexts_text {e : Expr} (hnames : ∀ name ∈ e.counters.names, IsName name) :
    operatorTexts e.text = e.counters.signs.map fun sign => [sign.char] := by
  have hfront : operatorTexts e.text =
      operatorTexts (e.counters.openText ++ (e.back ++ e.mode)) := by
    rw [e.text_eq, List.append_assoc, List.append_assoc]
    cases e with
    | compared c comparison number => exact operatorTexts_cons_of_ne (by decide) _
    | chain c => rfl
    | single name comparison number => rfl
  have hback : ∃ rest, e.back ++ e.mode = ')' :: rest ∧ '(' ∉ ')' :: rest := by
    have hmode := (notMem_mode e).1
    cases e with
    | compared c comparison number => exact ⟨_, rfl, by simpa using hmode⟩
    | chain c => exact ⟨_, rfl, by simpa using hmode⟩
    | single name comparison number => exact ⟨_, rfl, by simpa using hmode⟩
  obtain ⟨rest, hrest, hnot⟩ := hback
  rw [hfront, hrest, operatorTexts_append, operatorTexts_openText hnames,
    operatorTexts_of_notMem (by decide) hnot, List.append_nil]

theorem modeText_text (e : Expr) : modeText e.text = e.mode := by
  have hlast : ∃ front, e.text = front ++ ')' :: e.mode := by
    cases e with
    | chain c => exact ⟨c.openText, c.text_eq_openText⟩
    | compared c comparison number => exact ⟨'(' :: c.text, rfl⟩
    | single name comparison number =>
      exact ⟨'$' :: '(' :: name, by simp [Expr.text, Expr.mode, counterText]⟩
  obtain ⟨front, hfront⟩ := hlast
  rw [modeText, hfront, rtakeWhile_append_cons (notMem_mode e).2]

section

variable {F : Type} [Float64 F] (parseFloat : List Char → F × Bool)

/-- **An accepted expression is read as it is written exactly if no counter has a `$` in it.**
Pieces have no `$`, so one in a counter is lost; without one the pieces are the counters.
Nothing panics in either case. -/
theorem parse_exact_iff {s : List Char} (hvalid : expressionValid s = true)
    (hneed : needCompute s = true) :
    ∃ parsed, parse s (needCompute s) = some parsed ∧
      (operatorsValid parsed.operators = true →
        ((parsed.operands = counterTexts s ∧ parsed.operators = operatorTexts s ∧
            parsed.computeMode = modeText s ∧
            ∀ (hostname : List Char) (valMap : GoMap (List Char) F),
              compute parseFloat parsed hostname valMap ≠ none) ↔
          ∀ counter ∈ counterTexts s, '$' ∉ counter)) := by
  rw [hneed]
  obtain ⟨-, -, e, hnames, rfl⟩ := expressionValid_iff.mp ⟨hvalid, hneed⟩
  obtain ⟨parsed, hparse, hmode, hlen, hoperands⟩ := parse_accepted e
  refine ⟨parsed, hparse, fun _ => ?_⟩
  rw [counterTexts_text hnames, operatorTexts_text hnames, modeText_text]
  constructor
  · rintro ⟨hexact, -, -, -⟩ counter hcounter hdollar
    exact absurd (hoperands counter (hexact ▸ hcounter) '$' hdollar) (by decide)
  · intro hdollar
    have hpieces : ∀ name ∈ e.counters.names, IsPiece name := by
      intro name hname
      refine ⟨(hnames name hname).1, fun c hc => ?_⟩
      have hne : c ≠ '$' ∧ c ≠ '(' ∧ c ≠ ')' :=
        ⟨fun heq => hdollar name hname (heq ▸ hc), fun heq => (hnames name hname).2.1 (heq ▸ hc),
          fun heq => (hnames name hname).2.2 (heq ▸ hc)⟩
      simp [isBracket, hne]
    obtain rfl := Option.some.inj (hparse.symm.trans (parse_text hpieces))
    exact ⟨rfl, rfl, rfl, compute_ne_none parseFloat rfl hlen⟩

end

/-- A sum of two counters is read as it is written. -/
theorem sum_read_exactly :
    ∃ parsed, parse "$(a)+$(b)".toList (needCompute "$(a)+$(b)".toList) = some parsed ∧
      parsed.operands = counterTexts "$(a)+$(b)".toList ∧
      parsed.operators = operatorTexts "$(a)+$(b)".toList ∧
      parsed.computeMode = modeText "$(a)+$(b)".toList := by
  obtain ⟨parsed, hparse, hexact⟩ := parse_exact_iff (s := "$(a)+$(b)".toList)
    (fun _ => (QFloat.num 0, true)) (by decide +kernel) (by decide +kernel)
  have hoperators : operatorsValid parsed.operators = true := by
    have hall : (parse "$(a)+$(b)".toList (needCompute "$(a)+$(b)".toList)).all
        (fun p => operatorsValid p.operators) = true := by decide +kernel
    rwa [hparse] at hall
  obtain ⟨hoperands, hops, hmode, -⟩ := (hexact hoperators).mpr (by decide +kernel)
  exact ⟨parsed, hparse, hoperands, hops, hmode⟩

/-- **A counter is taken for a sum.**  The text has one counter, `a$+$b`, and is read as the
counters `a` and `b` with a `+` between them; `$($a)` is read as the counter `a`. -/
theorem counter_misread_as_sum :
    expressionValid "$(a$+$b)".toList = true ∧ needCompute "$(a$+$b)".toList = true ∧
      counterTexts "$(a$+$b)".toList = ["a$+$b".toList] ∧
      parse "$(a$+$b)".toList true = some ⟨["a".toList, "b".toList], ["+".toList], []⟩ ∧
      operatorsValid ["+".toList] = true ∧
      expressionValid "$($a)".toList = true ∧ counterTexts "$($a)".toList = ["$a".toList] ∧
      parse "$($a)".toList true = some ⟨["a".toList], [], []⟩ := by
  decide +kernel

end OpenFalcon.Aggregator
