import OpenFalcon.Common.Tags
import OpenFalcon.Numeric.Float64
import OpenFalcon.Text.Fields
import OpenFalcon.Text.Regex
import OpenFalcon.Text.Replace
import OpenFalcon.Text.Runs

/-!
# The expressions of a cluster

`modules/aggregator/cron/run.go` and `computer.go`.  The numerator and the denominator of a
cluster are texts: a chain `$(cpu.busy)+$(cpu.idle)-$(cpu.nice)`, a chain in parentheses that is
compared with a number, a single counter that is compared, a number, or `$#`.  A text is cleaned
of its blanks, accepted by four regular expressions (`expressionValid`), and then read by
something else: `parse` splits it at runs of the characters `$`, `(` and `)` and takes the pieces
alternately as operands and as operators.

Over the program stands the grammar the documentation gives: `Chain` and `Expr` with their
texts.  The regular expressions accept exactly the texts of trees whose names have no
parenthesis (`expressionValid_iff`).  How a text is read is the subject of
`Aggregator.Reading`.

`strconv.ParseFloat` is a parameter: the value and whether there was no error.
-/

namespace OpenFalcon.Aggregator

open Text
open Numeric

/-! ## The program -/

def cleanParam (val : List Char) : List Char :=
  let val := trimSpace val
  let val := replaceAll [' '] [] val
  let val := replaceAll ['\r'] [] val
  let val := replaceAll ['\n'] [] val
  replaceAll ['\t'] [] val

def needCompute (val : List Char) : Bool := ['$', '('] <:+: val

/-- `\$\([^\(\)]+\)` -/
def counterRegex : Regex Char :=
  .cat [.lit '$', .lit '(', .plus (.cls fun c => c ≠ '(' && c ≠ ')'), .lit ')']

/-- `\$\([^\(\)]+\)[+-]` -/
def linkRegex : Regex Char := .cat [counterRegex, .cls fun c => c = '+' || c = '-']

/-- `(\$\([^\(\)]+\)[+-])*\$\([^\(\)]+\)` -/
def chainRegex : Regex Char := .cat [.star linkRegex, counterRegex]

/-- `(>|=|<|>=|<=)` -/
def comparisonRegex : Regex Char :=
  .oneOf [.lit '>', .lit '=', .lit '<', .cat [.lit '>', .lit '='], .cat [.lit '<', .lit '=']]

/-- `\d+` -/
def digitsRegex : Regex Char := .plus (.cls Char.isDigit)

/-- `\d+(\.\d+)?` -/
def numberRegex : Regex Char := .cat [digitsRegex, .opt (.cat [.lit '.', digitsRegex])]

def matchMode0 : Regex Char := chainRegex

def matchMode1 : Regex Char := .cat [counterRegex, comparisonRegex, numberRegex]

def matchMode2 : Regex Char :=
  .cat [.lit '(', chainRegex, .lit ')', comparisonRegex, numberRegex]

def matchMode3 : Regex Char := digitsRegex

def expressionValid (val : List Char) : Bool :=
  if '（' ∈ val ∨ '）' ∈ val then false
  else
    decide (val = ['$', '#']) || matchMode0.accepts val || matchMode1.accepts val ||
      matchMode2.accepts val || matchMode3.accepts val

def operatorsValid (ops : List (List Char)) : Bool :=
  ops.all fun op => op = ['+'] || op = ['-']

/-- What `parse` returns. -/
structure Parsed where
  operands : List (List Char)
  operators : List (List Char)
  computeMode : List Char
  deriving DecidableEq

/-- The class `[\$\(\)]`. -/
def isBracket (c : Char) : Bool := c = '$' || c = '(' || c = ')'

/-- The entries at even and at odd positions.  Behind the first entry the positions change
sides. -/
def byParity {α : Type*} : List α → List α × List α
  | [] => ([], [])
  | a :: l => (a :: (byParity l).2, (byParity l).1)

/-- A slice or an index that is out of range is a panic, and there is no result. -/
def parse (expression : List Char) (needCompute : Bool) : Option Parsed :=
  if needCompute then
    let items := splitRuns isBracket expression
    (slice items 1 (items.length - 1)).bind fun middle =>
      items[items.length - 1]?.map fun computeMode =>
        ⟨(byParity middle).1, (byParity middle).2, computeMode⟩
  else some ⟨[], [], []⟩

section Compute

variable {F : Type} [Float64 F] (parseFloat : List Char → F × Bool)

def queryOperands (counters : List (List Char)) (endpoint : List Char)
    (valMap : GoMap (List Char) F) : List F :=
  counters.filterMap fun counter => valMap.lookup (endpoint ++ counter)

/-- The class `[><=]`. -/
def isComparison (c : Char) : Bool := c = '>' || c = '<' || c = '='

/-- The class `[\d\.]`. -/
def isNumeral (c : Char) : Bool := c.isDigit || c = '.'

/-- The leftmost match of `([><=]+)([\d\.]+)` and its two groups.  The classes have no common
character, so the first group is a longest run. -/
def findComparison : List Char → Option (List Char × List Char)
  | [] => none
  | c :: s =>
    let mode := (c :: s).takeWhile isComparison
    let val := ((c :: s).dropWhile isComparison).takeWhile isNumeral
    if mode ≠ [] ∧ val ≠ [] then some (mode, val) else findComparison s

/-- Without a match the groups are out of range.  The error of `ParseFloat` is not looked at. -/
def compareSum (sum : F) (computeMode : List Char) : Option Bool :=
  (findComparison computeMode).map fun (mode, val) =>
    let val := (parseFloat val).1
    (mode = ['>'] && Float64.lt val sum) || (mode = ['<'] && Float64.lt sum val) ||
      (mode = ['='] && Float64.eq sum val) || (mode = ['>', '='] && Float64.le val sum) ||
      (mode = ['<', '='] && Float64.le sum val)

/-- The loop over `vals[1:]`: the `i`-th value with the `i`-th operator, which may be missing. -/
def sumLoop : F → List (List Char) → List F → Option F
  | sum, _, [] => some sum
  | _, [], _ :: _ => none
  | sum, op :: operators, v :: vals =>
    sumLoop (if op = ['+'] then sum + v else sum - v) operators vals

/-- There is no result if `compute` panics. -/
def compute (parsed : Parsed) (hostname : List Char) (valMap : GoMap (List Char) F) :
    Option (Except String F) :=
  if parsed.operands = [] then some (.error "counter not found")
  else
    match queryOperands parsed.operands hostname valMap with
    | [] => some (.error "value invalid")
    | v :: vals =>
      if vals.length + 1 ≠ parsed.operands.length then some (.error "value invalid")
      else
        (sumLoop v parsed.operators vals).bind fun sum =>
          if parsed.computeMode ≠ [] then
            (compareSum parseFloat sum parsed.computeMode).map fun holds =>
              .ok (if holds then Float64.ofRat 1 else Float64.ofRat 0)
          else some (.ok sum)

end Compute

/-! ## The grammar -/

inductive Sign where
  | plus
  | minus
  deriving DecidableEq

namespace Sign

def char : Sign → Char
  | plus => '+'
  | minus => '-'

def apply {F : Type} [Float64 F] : Sign → F → F → F
  | plus, v, w => v + w
  | minus, v, w => v - w

theorem isBracket_char (sign : Sign) : isBracket sign.char = false := by
  cases sign <;> decide

theorem exists_char_iff {c : Char} : (∃ sign : Sign, c = sign.char) ↔ c = '+' ∨ c = '-' := by
  constructor
  · rintro ⟨_ | _, rfl⟩
    · exact Or.inl rfl
    · exact Or.inr rfl
  · rintro (rfl | rfl)
    · exact ⟨plus, rfl⟩
    · exact ⟨minus, rfl⟩

end Sign

/-- The comparisons. -/
inductive Comparison where
  | gt
  | lt
  | eq
  | ge
  | le
  deriving DecidableEq

namespace Comparison

def text : Comparison → List Char
  | gt => ['>']
  | lt => ['<']
  | eq => ['=']
  | ge => ['>', '=']
  | le => ['<', '=']

def holds {F : Type} [Float64 F] : Comparison → F → F → Bool
  | gt, sum, val => Float64.lt val sum
  | lt, sum, val => Float64.lt sum val
  | eq, sum, val => Float64.eq sum val
  | ge, sum, val => Float64.le val sum
  | le, sum, val => Float64.le sum val

theorem mem_regex_iff {w : List Char} :
    w ∈ comparisonRegex.lang ↔ ∃ comparison : Comparison, w = comparison.text := by
  simp only [comparisonRegex, Regex.mem_oneOf, List.mem_cons, List.not_mem_nil, or_false,
    exists_eq_or_imp, exists_eq_left, Regex.mem_lit, Regex.mem_cat_lit_cons, Regex.mem_cat_nil]
  constructor
  · rintro (rfl | rfl | rfl | rfl | rfl)
    · exact ⟨gt, rfl⟩
    · exact ⟨eq, rfl⟩
    · exact ⟨lt, rfl⟩
    · exact ⟨ge, rfl⟩
    · exact ⟨le, rfl⟩
  · rintro ⟨_ | _ | _ | _ | _, rfl⟩ <;> simp [text]

end Comparison

/-- A run of digits. -/
def IsDigits (w : List Char) : Prop := w ≠ [] ∧ ∀ c ∈ w, c.isDigit = true

instance (w : List Char) : Decidable (IsDigits w) :=
  inferInstanceAs (Decidable (w ≠ [] ∧ ∀ c ∈ w, c.isDigit = true))

/-- An unsigned decimal number. -/
structure Number where
  whole : List Char
  fraction : Option (List Char)
  whole_digits : IsDigits whole
  fraction_digits : ∀ w ∈ fraction, IsDigits w

namespace Number

def text (number : Number) : List Char :=
  number.whole ++ (number.fraction.elim [] fun w => '.' :: w)

theorem mem_regex_iff {w : List Char} :
    w ∈ numberRegex.lang ↔ ∃ number : Number, w = number.text := by
  simp only [numberRegex, digitsRegex, Regex.mem_cat_cons, Regex.mem_cat_nil, Regex.mem_plus_cls,
    Regex.mem_opt, Regex.mem_lit]
  constructor
  · rintro ⟨whole, hwhole, _, ⟨rest, hrest, _, rfl, rfl⟩, rfl⟩
    rcases hrest with rfl | ⟨_, rfl, _, ⟨fraction, hfraction, _, rfl, rfl⟩, rfl⟩
    · exact ⟨⟨whole, none, hwhole, nofun⟩, rfl⟩
    · exact ⟨⟨whole, some fraction, hwhole, fun _ h => Option.some.inj h ▸ hfraction⟩,
        by simp [text]⟩
  · rintro ⟨⟨whole, fraction, hwhole, hfraction⟩, rfl⟩
    cases fraction with
    | none => exact ⟨whole, hwhole, [], ⟨[], Or.inl rfl, [], rfl, rfl⟩, rfl⟩
    | some w =>
      exact ⟨whole, hwhole, '.' :: w, ⟨'.' :: w, Or.inr ⟨['.'], rfl, w,
        ⟨w, hfraction w rfl, [], rfl, (List.append_nil w).symm⟩, rfl⟩, [], rfl,
        (List.append_nil _).symm⟩, rfl⟩

theorem mem_text {number : Number} {c : Char} (hc : c ∈ number.text) :
    c.isDigit = true ∨ c = '.' := by
  rcases List.mem_append.mp hc with hc | hc
  · exact Or.inl (number.whole_digits.2 c hc)
  · cases hfraction : number.fraction with
    | none => simp [hfraction] at hc
    | some w =>
      rw [hfraction, Option.elim_some] at hc
      rcases List.mem_cons.mp hc with rfl | hc
      · exact Or.inr rfl
      · exact Or.inl ((number.fraction_digits w (by simp [hfraction])).2 c hc)

theorem text_ne_nil (number : Number) : number.text ≠ [] := by
  simp [text, number.whole_digits.1]

end Number

/-- The text of a counter. -/
def counterText (name : List Char) : List Char := '$' :: '(' :: (name ++ [')'])

/-- A chain of counters, from left to right. -/
inductive Chain where
  | one (name : List Char)
  | snoc (chain : Chain) (sign : Sign) (name : List Char)

namespace Chain

def names : Chain → List (List Char)
  | one name => [name]
  | snoc chain _ name => chain.names ++ [name]

def signs : Chain → List Sign
  | one _ => []
  | snoc chain sign _ => chain.signs ++ [sign]

def text : Chain → List Char
  | one name => counterText name
  | snoc chain sign name => chain.text ++ sign.char :: counterText name

end Chain

/-- The documented shapes. -/
inductive Expr where
  | chain (chain : Chain)
  | compared (chain : Chain) (comparison : Comparison) (number : Number)
  | single (name : List Char) (comparison : Comparison) (number : Number)

namespace Expr

/-- The counters of an expression. -/
def counters : Expr → Chain
  | chain c => c
  | compared c _ _ => c
  | single name _ _ => .one name

/-- The text behind the last parenthesis. -/
def mode : Expr → List Char
  | chain _ => []
  | compared _ comparison number => comparison.text ++ number.text
  | single _ comparison number => comparison.text ++ number.text

def text : Expr → List Char
  | chain c => c.text
  | compared c comparison number => '(' :: (c.text ++ ')' :: (comparison.text ++ number.text))
  | single name comparison number => counterText name ++ (comparison.text ++ number.text)

end Expr

/-! ## What is accepted -/

/-- A name the regular expressions accept. -/
def IsName (name : List Char) : Prop := name ≠ [] ∧ '(' ∉ name ∧ ')' ∉ name

variable {w : List Char}

theorem mem_counterRegex_iff :
    w ∈ counterRegex.lang ↔ ∃ name, IsName name ∧ w = counterText name := by
  have hclass : ∀ name : List Char, (name ≠ [] ∧ ∀ c ∈ name, (c ≠ '(' && c ≠ ')') = true) ↔
      IsName name := by
    intro name
    simp only [ne_eq, decide_not, Bool.and_eq_true, Bool.not_eq_eq_eq_not, Bool.not_true,
      decide_eq_false_iff_not, IsName, and_congr_right_iff]
    intro _
    constructor
    · intro h
      exact ⟨fun hmem => (h _ hmem).1 rfl, fun hmem => (h _ hmem).2 rfl⟩
    · rintro ⟨hopen, hclose⟩ c hc
      exact ⟨fun heq => hopen (heq ▸ hc), fun heq => hclose (heq ▸ hc)⟩
  simp only [counterRegex, Regex.mem_cat_cons, Regex.mem_lit, Regex.mem_plus_cls, hclass,
    Regex.mem_cat_nil]
  constructor
  · rintro ⟨_, rfl, _, ⟨_, rfl, _, ⟨name, hname, _, ⟨_, rfl, _, rfl, rfl⟩, rfl⟩, rfl⟩, rfl⟩
    exact ⟨name, hname, rfl⟩
  · rintro ⟨name, hname, rfl⟩
    exact ⟨_, rfl, _, ⟨_, rfl, _, ⟨name, hname, _, ⟨_, rfl, _, rfl, rfl⟩, rfl⟩, rfl⟩, rfl⟩

theorem mem_linkRegex_iff :
    w ∈ linkRegex.lang ↔
      ∃ name sign, IsName name ∧ w = counterText name ++ [Sign.char sign] := by
  simp only [linkRegex, Regex.mem_cat_cons, Regex.mem_cat_nil, mem_counterRegex_iff, Regex.mem_cls,
    Bool.or_eq_true, decide_eq_true_eq, ← Sign.exists_char_iff]
  constructor
  · rintro ⟨_, ⟨name, hname, rfl⟩, _, ⟨_, ⟨_, ⟨sign, rfl⟩, rfl⟩, _, rfl, rfl⟩, rfl⟩
    exact ⟨name, sign, hname, rfl⟩
  · rintro ⟨name, sign, hname, rfl⟩
    exact ⟨_, ⟨name, hname, rfl⟩, _, ⟨_, ⟨_, ⟨sign, rfl⟩, rfl⟩, _, rfl, rfl⟩, rfl⟩

/-- **The expression for chains accepts the texts of chains.**  It repeats a counter with the
sign behind it, so the last counter it has seen waits for its sign. -/
theorem mem_chainRegex_iff :
    w ∈ chainRegex.lang ↔ ∃ chain : Chain, (∀ name ∈ chain.names, IsName name) ∧
      w = chain.text := by
  simp only [chainRegex, Regex.mem_cat_cons, Regex.mem_cat_nil, mem_counterRegex_iff,
    Regex.mem_star, mem_linkRegex_iff]
  constructor
  · rintro ⟨_, ⟨links, rfl, hlinks⟩, _, ⟨_, ⟨name, hname, rfl⟩, _, rfl, rfl⟩, rfl⟩
    rw [List.append_nil]
    induction links using List.reverseRecOn generalizing name with
    | nil => exact ⟨.one name, by simpa [Chain.names] using hname, rfl⟩
    | append_singleton links link ih =>
      obtain ⟨name', sign, hname', rfl⟩ := hlinks link (by simp)
      obtain ⟨chain, hchain, htext⟩ := ih
        (fun u hu => hlinks u (List.mem_append_left _ hu)) name' hname'
      refine ⟨.snoc chain sign name, ?_, ?_⟩
      · intro n hn
        rcases List.mem_append.mp hn with hn | hn
        · exact hchain n hn
        · rwa [List.mem_singleton.mp hn]
      · rw [Chain.text, ← htext]
        simp
  · rintro ⟨chain, hchain, rfl⟩
    induction chain with
    | one name =>
      exact ⟨[], ⟨[], rfl, by simp⟩, _, ⟨_, ⟨name, hchain name (by simp [Chain.names]), rfl⟩, _,
        rfl, rfl⟩, by simp [Chain.text]⟩
    | snoc chain sign name ih =>
      obtain ⟨_, ⟨links, rfl, hlinks⟩, _, ⟨_, ⟨name', hname', rfl⟩, _, rfl, rfl⟩, htext⟩ :=
        ih fun n hn => hchain n (List.mem_append_left _ hn)
      refine ⟨_, ⟨links ++ [counterText name' ++ [sign.char]], rfl, ?_⟩, _,
        ⟨_, ⟨name, hchain name (by simp [Chain.names]), rfl⟩, _, rfl, rfl⟩, ?_⟩
      · intro u hu
        rcases List.mem_append.mp hu with hu | hu
        · exact hlinks u hu
        · exact ⟨name', sign, hname', List.mem_singleton.mp hu⟩
      · rw [Chain.text, htext]
        simp

theorem mem_matchMode1_iff :
    w ∈ matchMode1.lang ↔ ∃ name comparison number, IsName name ∧
      w = (Expr.single name comparison number).text := by
  simp only [matchMode1, Regex.mem_cat_cons, Regex.mem_cat_nil, mem_counterRegex_iff,
    Comparison.mem_regex_iff, Number.mem_regex_iff]
  constructor
  · rintro ⟨_, ⟨name, hname, rfl⟩, _, ⟨_, ⟨comparison, rfl⟩, _, ⟨_, ⟨number, rfl⟩, _, rfl, rfl⟩,
      rfl⟩, rfl⟩
    exact ⟨name, comparison, number, hname, by simp [Expr.text]⟩
  · rintro ⟨name, comparison, number, hname, rfl⟩
    exact ⟨_, ⟨name, hname, rfl⟩, _, ⟨_, ⟨comparison, rfl⟩, _, ⟨_, ⟨number, rfl⟩, _, rfl, rfl⟩,
      rfl⟩, by simp [Expr.text]⟩

theorem mem_matchMode2_iff :
    w ∈ matchMode2.lang ↔ ∃ chain comparison number, (∀ name ∈ Chain.names chain, IsName name) ∧
      w = (Expr.compared chain comparison number).text := by
  simp only [matchMode2, Regex.mem_cat_cons, Regex.mem_cat_nil, Regex.mem_lit,
    mem_chainRegex_iff, Comparison.mem_regex_iff, Number.mem_regex_iff]
  constructor
  · rintro ⟨_, rfl, _, ⟨_, ⟨chain, hchain, rfl⟩, _, ⟨_, rfl, _, ⟨_, ⟨comparison, rfl⟩, _,
      ⟨_, ⟨number, rfl⟩, _, rfl, rfl⟩, rfl⟩, rfl⟩, rfl⟩, rfl⟩
    exact ⟨chain, comparison, number, hchain, by simp [Expr.text]⟩
  · rintro ⟨chain, comparison, number, hchain, rfl⟩
    exact ⟨_, rfl, _, ⟨_, ⟨chain, hchain, rfl⟩, _, ⟨_, rfl, _, ⟨_, ⟨comparison, rfl⟩, _,
      ⟨_, ⟨number, rfl⟩, _, rfl, rfl⟩, rfl⟩, rfl⟩, rfl⟩, by simp [Expr.text]⟩

theorem infix_chainText (chain : Chain) : ['$', '('] <:+: chain.text := by
  induction chain with
  | one name => exact ⟨[], name ++ [')'], rfl⟩
  | snoc chain sign name ih => exact ih.trans (List.prefix_append _ _).isInfix

theorem needCompute_text (e : Expr) : needCompute e.text = true := by
  rw [needCompute, decide_eq_true_eq]
  cases e with
  | chain c => exact infix_chainText c
  | compared c comparison number =>
    exact (infix_chainText c).trans ⟨['('], ')' :: (comparison.text ++ number.text), by
      simp [Expr.text]⟩
  | single name comparison number =>
    exact (infix_chainText (.one name)).trans (List.prefix_append _ _).isInfix

/-- **What is accepted and computed** are the texts of the documented shapes.  In a name every
character but a parenthesis is accepted. -/
theorem expressionValid_iff {s : List Char} :
    expressionValid s = true ∧ needCompute s = true ↔
      '（' ∉ s ∧ '）' ∉ s ∧
        ∃ e : Expr, (∀ name ∈ e.counters.names, IsName name) ∧ s = e.text := by
  rw [expressionValid]
  split_ifs with hwide
  · simp only [false_and, false_iff]
    rintro ⟨hopen, hclose, -⟩
    exact hwide.elim hopen hclose
  · rw [not_or] at hwide
    simp only [hwide.1, hwide.2, not_false_eq_true, true_and, Bool.or_eq_true,
      decide_eq_true_eq, Regex.accepts_iff, matchMode0, mem_chainRegex_iff, mem_matchMode1_iff,
      mem_matchMode2_iff]
    constructor
    · rintro ⟨(((rfl | ⟨chain, hchain, rfl⟩) | ⟨name, comparison, number, hname, rfl⟩) |
        ⟨chain, comparison, number, hchain, rfl⟩) | hdigits, hneed⟩
      · exact absurd hneed (by decide)
      · exact ⟨.chain chain, hchain, rfl⟩
      · exact ⟨.single name comparison number, by simpa [Expr.counters, Chain.names] using hname,
          rfl⟩
      · exact ⟨.compared chain comparison number, hchain, rfl⟩
      · -- a number has no counter
        have hdollar : '$' ∈ s := (of_decide_eq_true hneed).subset List.mem_cons_self
        exact absurd ((Regex.mem_plus_cls.mp hdigits).2 '$' hdollar) (by decide)
    · rintro ⟨e, hnames, rfl⟩
      refine ⟨Or.inl ?_, needCompute_text e⟩
      cases e with
      | chain c => exact Or.inl (Or.inl (Or.inr ⟨c, hnames, rfl⟩))
      | compared c comparison number => exact Or.inr ⟨c, comparison, number, hnames, rfl⟩
      | single name comparison number =>
        exact Or.inl (Or.inr ⟨name, comparison, number,
          hnames name (by simp [Expr.counters, Chain.names]), rfl⟩)

end OpenFalcon.Aggregator
