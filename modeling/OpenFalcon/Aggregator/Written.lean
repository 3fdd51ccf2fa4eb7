import OpenFalcon.Aggregator.Reading

/-!
# Cluster expressions as they are written

The text of an expression in a configuration has blanks between its tokens.  `Spaced` puts any
number of them anywhere, at both ends too; a dollar sign and the parenthesis behind it are two
tokens.  `cleanParam` takes them out again, and what is left is the text of the expression
(`cleanParam_spaced`), because neither its first nor its last character is a space that trimming
would take away.

An expression that is written so is accepted, and computed for every host as it is written
(`expression_evaluates`).
-/

namespace OpenFalcon.Aggregator

open Text
open Numeric

/-! ## Blanks between tokens -/

/-- The characters that are taken out everywhere. -/
def isBlank (c : Char) : Bool := c ∈ [' ', '\t', '\r', '\n']

/-- A text of the tokens with blanks before, between and behind them. -/
inductive Spaced : List (List Char) → List Char → Prop where
  | nil (blanks : List Char) : (∀ c ∈ blanks, isBlank c = true) → Spaced [] blanks
  | cons (blanks : List Char) {token rest : List Char} {tokens : List (List Char)} :
    (∀ c ∈ blanks, isBlank c = true) → Spaced tokens rest →
      Spaced (token :: tokens) (blanks ++ (token ++ rest))

theorem Spaced.filter_eq {tokens : List (List Char)} {s : List Char} (hs : Spaced tokens s) :
    s.filter (! isBlank ·) = tokens.flatten.filter (! isBlank ·) := by
  induction hs with
  | nil blanks hblanks =>
    rw [List.flatten_nil, List.filter_nil, List.filter_eq_nil_iff]
    intro c hc
    simp [hblanks c hc]
  | cons blanks hblanks _ ih =>
    have hnone : blanks.filter (! isBlank ·) = [] := by
      rw [List.filter_eq_nil_iff]
      intro c hc
      simp [hblanks c hc]
    rw [List.filter_append, List.filter_append, hnone, List.nil_append, ih, List.flatten_cons,
      List.filter_append]

def counterTokens (name : List Char) : List (List Char) := [['$'], ['('], name, [')']]

def Chain.tokens : Chain → List (List Char)
  | .one name => counterTokens name
  | .snoc chain sign name => chain.tokens ++ [sign.char] :: counterTokens name

def Expr.tokens : Expr → List (List Char)
  | .chain c => c.tokens
  | .compared c comparison number =>
    ['('] :: (c.tokens ++ [[')'], comparison.text, number.text])
  | .single name comparison number => counterTokens name ++ [comparison.text, number.text]

theorem Chain.flatten_tokens (chain : Chain) : chain.tokens.flatten = chain.text := by
  induction chain with
  | one name => simp [tokens, counterTokens, text, counterText]
  | snoc chain sign name ih => simp [tokens, counterTokens, text, counterText, ih]

theorem Expr.flatten_tokens (e : Expr) : e.tokens.flatten = e.text := by
  cases e with
  | chain c => exact c.flatten_tokens
  | compared c comparison number => simp [tokens, text, c.flatten_tokens]
  | single name comparison number => simp [tokens, counterTokens, text, counterText]

/-! ## The characters of an expression -/

/-- A name without parentheses, dollar signs and blanks. -/
def PlainName (name : List Char) : Prop :=
  name ≠ [] ∧ ∀ c ∈ name, c ∉ ['(', ')', '（', '）', '$', ' ', '\t', '\r', '\n']

variable {name : List Char}

theorem PlainName.isPiece (h : PlainName name) : IsPiece name := by
  refine ⟨h.1, fun c hc => ?_⟩
  have hnot := h.2 c hc
  simp only [List.mem_cons, not_or] at hnot
  simp [isBracket, hnot.1, hnot.2.1, hnot.2.2.2.2.1]

theorem PlainName.isName (h : PlainName name) : IsName name :=
  ⟨h.1, fun hc => h.2 _ hc (by decide), fun hc => h.2 _ hc (by decide)⟩

theorem Chain.mem_text {chain : Chain} {c : Char} (hc : c ∈ chain.text) :
    (∃ name ∈ chain.names, c ∈ name) ∨ c ∈ ['$', '(', ')', '+', '-'] := by
  have hcounter : ∀ {name : List Char}, c ∈ counterText name → c ∈ name ∨ c ∈ ['$', '(', ')'] := by
    intro name h
    simp only [counterText, List.mem_cons, List.mem_append, List.not_mem_nil, or_false] at h ⊢
    tauto
  have hsub : ['$', '(', ')'] ⊆ ['$', '(', ')', '+', '-'] := by decide
  induction chain with
  | one name =>
    exact (hcounter hc).imp (fun h => ⟨name, List.mem_singleton_self name, h⟩) fun h => hsub h
  | snoc chain sign name ih =>
    rcases List.mem_append.mp hc with hc | hc
    · rcases ih hc with ⟨n, hn, h⟩ | h
      · exact Or.inl ⟨n, List.mem_append_left _ hn, h⟩
      · exact Or.inr h
    · rcases List.mem_cons.mp hc with rfl | hc
      · right
        cases sign <;> decide
      · exact (hcounter hc).imp (fun h => ⟨name, by simp [names], h⟩) fun h => hsub h

/-- A character of an expression is one of a name, of a number or of the syntax. -/
theorem Expr.mem_text {e : Expr} {c : Char} (hc : c ∈ e.text) :
    (∃ name ∈ e.counters.names, c ∈ name) ∨
      c ∈ ['$', '(', ')', '+', '-', '>', '<', '=', '.'] ∨ c.isDigit = true := by
  have hchain : ['$', '(', ')', '+', '-'] ⊆ ['$', '(', ')', '+', '-', '>', '<', '=', '.'] := by
    decide
  have hcomparison : ['>', '<', '='] ⊆ ['$', '(', ')', '+', '-', '>', '<', '=', '.'] := by
    decide
  have hbrackets : e.front ++ e.back ⊆ ['$', '(', ')', '+', '-', '>', '<', '=', '.'] := by
    cases e <;> simp [front, back]
  have htext : c ∈ e.counters.text ∨ c ∈ e.front ++ e.back ∨ c ∈ e.mode := by
    rw [e.text_eq] at hc
    simp only [List.mem_append, e.counters.text_eq_openText] at hc ⊢
    tauto
  rcases htext with hc | hc | hc
  · exact (Chain.mem_text hc).imp_right fun h => Or.inl (hchain h)
  · exact Or.inr (Or.inl (hbrackets hc))
  · right
    rcases Expr.mem_mode hc with hc | hc | rfl
    · exact Or.inl (hcomparison hc)
    · exact Or.inr hc
    · exact Or.inl (by decide)

/-- A character that names of an expression do not have and that is none of the syntax. -/
theorem Expr.notMem_text {e : Expr} (hnames : ∀ name ∈ e.counters.names, PlainName name)
    {c : Char} (hc : c ∈ ['（', '）', ' ', '\t', '\r', '\n']) : c ∉ e.text := by
  intro hmem
  rcases Expr.mem_text hmem with ⟨name, hname, hmem⟩ | hother
  · have hsub : ['（', '）', ' ', '\t', '\r', '\n'] ⊆
        ['(', ')', '（', '）', '$', ' ', '\t', '\r', '\n'] := by decide
    exact (hnames name hname).2 c hmem (hsub hc)
  · simp only [List.mem_cons, List.not_mem_nil, or_false] at hc
    rcases hc with rfl | rfl | rfl | rfl | rfl | rfl <;> exact absurd hother (by decide)

/-! ## Cleaning -/

theorem cleanParam_eq_filter (s : List Char) :
    cleanParam s = (trimSpace s).filter (! isBlank ·) := by
  simp only [cleanParam, replaceAll_singleton_nil, List.filter_filter]
  refine List.filter_congr fun c _ => ?_
  simp only [isBlank, List.mem_cons, List.not_mem_nil, or_false, Bool.decide_or, Bool.not_or,
    ne_eq, decide_not]
  ac_rfl

theorem isSpace_of_isDigit {c : Char} (hc : c.isDigit = true) : isSpace c = false := by
  simp only [Char.isDigit, Bool.and_eq_true, decide_eq_true_eq] at hc
  have hlo : 48 ≤ c.toNat := hc.1
  have hhi : c.toNat ≤ 57 := hc.2
  simp only [isSpace, List.mem_cons, List.not_mem_nil, or_false, decide_eq_false_iff_not]
  omega

theorem Number.getLast?_text (number : Number) : number.text.getLast?.all (! isSpace ·) = true := by
  have hdigits : ∀ {w : List Char}, IsDigits w → w.getLast?.all (! isSpace ·) = true := by
    intro w hw
    rw [List.getLast?_eq_some_getLast hw.1, Option.all_some,
      isSpace_of_isDigit (hw.2 _ (List.getLast_mem hw.1))]
    rfl
  rw [text]
  cases hfraction : number.fraction with
  | none => simpa using hdigits number.whole_digits
  | some w =>
    have hw : IsDigits w := number.fraction_digits w (by simp [hfraction])
    rw [Option.elim_some, List.getLast?_append_of_ne_nil _ (List.cons_ne_nil '.' w),
      ← List.singleton_append, List.getLast?_append_of_ne_nil _ hw.1]
    exact hdigits hw

theorem Expr.head?_text (e : Expr) : e.text.head?.all (! isSpace ·) = true := by
  have hchain : ∀ chain : Chain, chain.text.head? = some '$' := by
    intro chain
    induction chain with
    | one name => rfl
    | snoc chain sign name ih => rw [Chain.text, List.head?_append, ih, Option.some_or]
  cases e with
  | chain c =>
    rw [text, hchain]
    decide
  | compared c comparison number =>
    rw [text, List.head?_cons]
    decide
  | single name comparison number =>
    rw [text, counterText, List.cons_append, List.head?_cons]
    decide

theorem Expr.getLast?_text (e : Expr) : e.text.getLast?.all (! isSpace ·) = true := by
  have hmode : ∀ (comparison : Comparison) (number : Number) (front : List Char),
      (front ++ (comparison.text ++ number.text)).getLast?.all (! isSpace ·) = true := by
    intro comparison number front
    rw [← List.append_assoc, List.getLast?_append_of_ne_nil _ number.text_ne_nil]
    exact number.getLast?_text
  cases e with
  | chain c =>
    rw [text, c.text_eq_openText, List.getLast?_concat]
    decide
  | compared c comparison number =>
    have hfront : (compared c comparison number).text =
        ('(' :: (c.text ++ [')'])) ++ (comparison.text ++ number.text) := by simp [text]
    rw [hfront]
    exact hmode comparison number _
  | single name comparison number => exact hmode comparison number _

/-- **Cleaning takes the blanks out** and nothing else. -/
theorem cleanParam_spaced {e : Expr} (hnames : ∀ name ∈ e.counters.names, PlainName name)
    {s : List Char} (hs : Spaced e.tokens s) : cleanParam s = e.text := by
  have hfilter : s.filter (! isBlank ·) = e.text := by
    rw [hs.filter_eq, e.flatten_tokens, List.filter_eq_self]
    intro c hc
    have hblanks : [' ', '\t', '\r', '\n'] ⊆ ['（', '）', ' ', '\t', '\r', '\n'] := by decide
    have hnot : c ∉ [' ', '\t', '\r', '\n'] := fun hblank =>
      Expr.notMem_text hnames (hblanks hblank) hc
    simp [isBlank, hnot]
  rw [cleanParam_eq_filter, filter_trimSpace, hfilter]
  · rw [hfilter]
    exact e.head?_text
  · rw [hfilter]
    exact e.getLast?_text

/-! ## Evaluation -/

theorem operatorsValid_signs (signs : List Sign) :
    operatorsValid (signs.map fun sign => [sign.char]) = true := by
  simp only [operatorsValid, List.all_eq_true, List.mem_map]
  rintro _ ⟨_ | _, -, rfl⟩ <;> rfl

section

variable {F : Type} [Float64 F] (parseFloat : List Char → F × Bool)

/-- **A cluster expression evaluates as it is written.**  With blanks anywhere between its tokens
it is accepted after cleaning, and for every host and all values the result is its value from
left to right if every counter has one, and an error if not. -/
theorem expression_evaluates {e : Expr} (hnames : ∀ name ∈ e.counters.names, PlainName name)
    {s : List Char} (hs : Spaced e.tokens s) :
    expressionValid (cleanParam s) = true ∧ needCompute (cleanParam s) = true ∧
      ∃ parsed, parse (cleanParam s) (needCompute (cleanParam s)) = some parsed ∧
        operatorsValid parsed.operators = true ∧
        ∀ (hostname : List Char) (valMap : GoMap (List Char) F),
          (∀ v : List Char → F,
            (∀ name ∈ e.counters.names, valMap.lookup (hostname ++ name) = some (v name)) →
              compute parseFloat parsed hostname valMap = some (.ok (e.value parseFloat v))) ∧
          ((∃ name ∈ e.counters.names, valMap.lookup (hostname ++ name) = none) →
            compute parseFloat parsed hostname valMap = some (.error "value invalid")) := by
  have hvalid : expressionValid e.text = true ∧ needCompute e.text = true :=
    expressionValid_iff.mpr ⟨Expr.notMem_text hnames (by decide),
      Expr.notMem_text hnames (by decide), e, fun name hname => (hnames name hname).isName, rfl⟩
  rw [cleanParam_spaced hnames hs, hvalid.2]
  refine ⟨hvalid.1, rfl, _, parse_text fun name hname => (hnames name hname).isPiece,
    operatorsValid_signs _, fun hostname valMap => ⟨fun v hvalues => ?_, fun hmissing => ?_⟩⟩
  · exact compute_of_values parseFloat hvalues
  · exact compute_of_missing parseFloat hmissing

end

/-- The expression `($(a)-$(b))>=1.5`. -/
def differenceAtLeast : Expr :=
  .compared (.snoc (.one ['a']) .minus ['b']) .ge
    ⟨['1'], some ['5'], ⟨by simp, by simp⟩, by simp [IsDigits]⟩

/-- Two values of one host. -/
def twoValues : GoMap (List Char) QFloat :=
  AList.insert ['h', 'a'] (.num 3) (AList.insert ['h', 'b'] (.num 1) ∅)

theorem differenceAtLeast_evaluates :
    ∃ parsed,
      parse (cleanParam [' ', '(', '$', '(', 'a', ')', '\n', '-', '$', '\t', '(', 'b', ')', ')',
        '>', '=', ' ', '1', '.', '5', '\r']) true = some parsed ∧
      compute (fun _ => (.num (3 / 2), true)) parsed ['h'] twoValues = some (.ok (.num 1)) := by
  have hnone : ∀ c ∈ [], isBlank c = true := fun c hc => absurd hc List.not_mem_nil
  have hnames : ∀ name ∈ differenceAtLeast.counters.names, PlainName name := by
    simp [differenceAtLeast, Expr.counters, Chain.names, PlainName]
  have hspaced : Spaced differenceAtLeast.tokens [' ', '(', '$', '(', 'a', ')', '\n', '-', '$',
      '\t', '(', 'b', ')', ')', '>', '=', ' ', '1', '.', '5', '\r'] :=
    .cons [' '] (by simp [isBlank]) <| .cons [] hnone <| .cons [] hnone <| .cons [] hnone <|
      .cons [] hnone <| .cons ['\n'] (by simp [isBlank]) <| .cons [] hnone <|
      .cons ['\t'] (by simp [isBlank]) <| .cons [] hnone <| .cons [] hnone <|
      .cons [] hnone <| .cons [] hnone <| .cons [' '] (by simp [isBlank]) <|
      .nil ['\r'] (by simp [isBlank])
  obtain ⟨-, hneed, parsed, hparse, -, hcompute⟩ :=
    expression_evaluates (fun _ => (QFloat.num (3 / 2), true)) hnames hspaced
  rw [hneed] at hparse
  refine ⟨parsed, hparse, ?_⟩
  have hvalues := (hcompute ['h'] twoValues).1 (fun name => if name = ['a'] then .num 3 else .num 1)
    (by simp [differenceAtLeast, Expr.counters, Chain.names, twoValues, AList.lookup,
      AList.singleton])
  rw [hvalues]
  decide +kernel

end OpenFalcon.Aggregator
