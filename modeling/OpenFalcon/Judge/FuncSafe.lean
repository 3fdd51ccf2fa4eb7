import OpenFalcon.Judge.Points
import OpenFalcon.Judge.ParseFunc
import OpenFalcon.Judge.Event
import OpenFalcon.Numeric.Int64

/-!
# Alarm functions that were read do not panic

A strategy keeps its function in a column of 16 characters.  The arguments are integers of any
sign, and the functions index into the history with sums of them.  On 64 bits such a sum can
overflow, but not for texts of this length: an argument of at most 16 characters is smaller
than `10 ^ 16` (`lt_of_atoi`), so the integers of the model are those of the code
(`fits64_window`).  What is left is `exists_compute`.

A text is a list of bytes and its characters are counted by their first bytes, so 16
characters can be more than 16 bytes.  The arguments have no others than ASCII ones.
-/

namespace OpenFalcon.Judge

open Numeric Text

variable {F : Type} {s str : Bytes}

/-- The bytes of a character after its first. -/
def isContinuation (b : UInt8) : Bool := 128 ≤ b ∧ b < 192

/-- The number of characters of a text. -/
def characters (s : Bytes) : ℕ := s.countP fun b => !isContinuation b

/-- The arguments of a function. -/
def FuncName.args : FuncName → List Int
  | .max limit | .min limit | .all limit | .sum limit | .avg limit | .diff limit | .pdiff limit
  | .stddev limit => [limit]
  | .lookup num limit | .kdiff num limit | .kpdiff num limit => [num, limit]

/-! ## Arguments are small -/

theorem lt_of_digitsValue {n : ℕ} (h : digitsValue s = some n) : n < 10 ^ s.length := by
  have hfold : ∀ (s : Bytes) (acc : ℕ), (∀ b ∈ s, 48 ≤ b ∧ b ≤ 57) →
      s.foldl (fun n b => 10 * n + (b.toNat - 48)) acc < (acc + 1) * 10 ^ s.length := by
    intro s
    induction s with
    | nil => simp
    | cons b s ih =>
      intro acc hdigits
      have hb : b.toNat ≤ 57 := (hdigits b List.mem_cons_self).2
      calc s.foldl (fun n b => 10 * n + (b.toNat - 48)) (10 * acc + (b.toNat - 48))
          < (10 * acc + (b.toNat - 48) + 1) * 10 ^ s.length :=
            ih _ fun b hb => hdigits b (List.mem_cons_of_mem _ hb)
        _ ≤ (10 * (acc + 1)) * 10 ^ s.length := Nat.mul_le_mul_right _ (by omega)
        _ = (acc + 1) * 10 ^ (b :: s).length := by
            rw [List.length_cons, pow_succ]
            ring
  have hdigits := digit_of_digitsValue h
  unfold digitsValue at h
  split at h
  case isTrue => simpa [← Option.some.inj h] using hfold s 0 hdigits
  case isFalse => simp at h

variable {a : Int}

/-- A text of integers has its sign and digits only. -/
theorem atoi_cases (h : atoi s = some a) :
    ∃ sign digits n, s = sign ++ digits ∧ digitsValue digits = some n ∧ (a = n ∨ a = -n) ∧
      (∀ b ∈ sign, b = 43 ∨ b = 45) := by
  obtain ⟨hvalue, -⟩ := Option.filter_eq_some_iff.mp h
  split at hvalue
  case h_1 digits =>
    obtain ⟨n, hn, rfl⟩ := Option.map_eq_some_iff.mp hvalue
    exact ⟨[43], digits, n, rfl, hn, .inl rfl, by simp⟩
  case h_2 digits =>
    obtain ⟨n, hn, rfl⟩ := Option.map_eq_some_iff.mp hvalue
    exact ⟨[45], digits, n, rfl, hn, .inr rfl, by simp⟩
  case h_3 =>
    obtain ⟨n, hn, rfl⟩ := Option.map_eq_some_iff.mp hvalue
    exact ⟨[], s, n, rfl, hn, .inl rfl, by simp⟩

/-- **An argument is smaller than its text is long.** -/
theorem lt_of_atoi (h : atoi s = some a) : -10 ^ s.length < a ∧ a < 10 ^ s.length := by
  obtain ⟨sign, digits, n, rfl, hn, ha, -⟩ := atoi_cases h
  have hpow : n < 10 ^ (sign ++ digits).length := by
    refine lt_of_lt_of_le (lt_of_digitsValue hn) (Nat.pow_le_pow_right (by decide) ?_)
    simp
  have hcast : (n : Int) < 10 ^ (sign ++ digits).length := by exact_mod_cast hpow
  rcases ha with rfl | rfl <;> omega

/-- Every byte of an argument is a character. -/
theorem characters_of_atoi (h : atoi s = some a) : characters s = s.length := by
  obtain ⟨sign, digits, n, rfl, hn, -, hsign⟩ := atoi_cases h
  rw [characters, List.countP_eq_length]
  intro b hb
  have hascii : b.toNat < 128 := by
    rcases List.mem_append.mp hb with hb | hb
    · rcases hsign b hb with rfl | rfl <;> decide
    · have hle : b.toNat ≤ 57 := (digit_of_digitsValue hn b hb).2
      omega
  have hnot : ¬(128 : UInt8) ≤ b := fun hle => absurd hascii (not_lt.mpr hle)
  simp [isContinuation, hnot]

/-! ## Where the arguments come from -/

variable {args : List Int}

theorem args_subset_of_funcName {name : Bytes} {n : FuncName}
    (h : funcName name args = some (.ok n)) : n.args ⊆ args := by
  have hone : ∀ p ∈ oneArgFunctions, ∀ a, (p.2 a).args = [a] := by
    simp [oneArgFunctions, FuncName.args]
  have htwo : ∀ p ∈ twoArgFunctions, ∀ a b, (p.2 a b).args = [a, b] := by
    simp [twoArgFunctions, FuncName.args]
  cases hf : oneArg name with
  | some f =>
    simp only [funcName, hf] at h
    obtain ⟨limit, hlimit, heq⟩ := Option.map_eq_some_iff.mp h
    obtain rfl := Except.ok.inj heq
    rw [hone _ (mem_of_lookup_eq_some hf), List.cons_subset]
    exact ⟨List.mem_of_getElem? hlimit, List.nil_subset _⟩
  | none =>
    cases hg : twoArgs name with
    | some f =>
      simp only [funcName, hf, hg] at h
      obtain ⟨num, hnum, hrest⟩ := Option.bind_eq_some_iff.mp h
      obtain ⟨limit, hlimit, heq⟩ := Option.map_eq_some_iff.mp hrest
      obtain rfl := Except.ok.inj heq
      rw [htwo _ (mem_of_lookup_eq_some hg), List.cons_subset, List.cons_subset]
      exact ⟨List.mem_of_getElem? hnum, List.mem_of_getElem? hlimit, List.nil_subset _⟩
    | none => simp [funcName, hf, hg] at h

theorem exists_piece_of_atois (h : atois s = .ok args) :
    ∀ a ∈ args, ∃ v ∈ s.splitOn 44, atoi v = some a := by
  have hpieces : ∀ {vs : List Bytes} {args : List Int},
      List.Forall₂ (fun v n => atoi v = some n) vs args →
        ∀ a ∈ args, ∃ v ∈ vs, atoi v = some a := by
    intro vs args hforall
    induction hforall with
    | nil => simp
    | cons hv _ ih =>
      intro a ha
      rcases List.mem_cons.mp ha with rfl | ha
      · exact ⟨_, List.mem_cons_self, hv⟩
      · obtain ⟨v, hmem, hatoi⟩ := ih a ha
        exact ⟨v, List.mem_cons_of_mem _ hmem, hatoi⟩
  exact hpieces (atois_eq_ok_iff.mp h)

variable {operator : String} {rightValue : F} {fn : Function F}

/-- An argument of a function that was read stands in its text. -/
theorem exists_infix_of_parse (h : parseFuncFromString str operator rightValue = some (.ok fn)) :
    ∀ a ∈ fn.name.args, ∃ v, v <:+: str ∧ atoi v = some a := by
  intro a ha
  unfold parseFuncFromString at h
  split at h
  case isTrue => simp at h
  case isFalse =>
    obtain ⟨argText, htext, hrest⟩ := Option.bind_eq_some_iff.mp h
    cases hargs : atois argText with
    | error e => simp [hargs] at hrest
    | ok args =>
      simp only [hargs] at hrest
      obtain ⟨name, -, hname⟩ := Option.bind_eq_some_iff.mp hrest
      obtain ⟨r, hr, hfn⟩ := Option.map_eq_some_iff.mp hname
      cases r with
      | error e => simp [Except.map] at hfn
      | ok n =>
        obtain rfl := Except.ok.inj hfn
        obtain ⟨v, hv, hatoi⟩ := exists_piece_of_atois hargs a (args_subset_of_funcName hr ha)
        exact ⟨v, (infix_of_mem_splitOn hv).trans (infix_of_slice htext), hatoi⟩

theorem lt_of_parse (hlength : characters str ≤ 16)
    (h : parseFuncFromString str operator rightValue = some (.ok fn)) :
    ∀ a ∈ fn.name.args, -10 ^ 16 < a ∧ a < 10 ^ 16 := by
  intro a ha
  obtain ⟨v, hpart, hatoi⟩ := exists_infix_of_parse h a ha
  have hv : v.length ≤ 16 := by
    rw [← characters_of_atoi hatoi]
    exact (hpart.sublist.countP_le).trans hlength
  have hpow : (10 : Int) ^ v.length ≤ 10 ^ 16 := by
    exact_mod_cast Nat.pow_le_pow_right (n := 10) (by decide) hv
  have hlt := lt_of_atoi hatoi
  omega

/-- **The sums of arguments have a place in 64 bits**: the number of points a function asks for,
and the numbers next to it that `HistoryData` and the loops of `kdiff` compute. -/
theorem fits64_window {n : FuncName} (h : ∀ a ∈ n.args, -10 ^ 16 < a ∧ a < 10 ^ 16) :
    Fits64 (n.window - 1) ∧ Fits64 n.window ∧ Fits64 (n.window + 1) := by
  simp only [Fits64]
  cases n with
  | max limit | min limit | all limit | sum limit | avg limit | diff limit | pdiff limit
  | stddev limit =>
    have hlimit := h limit (by simp [FuncName.args])
    simp only [FuncName.window]
    omega
  | lookup num limit | kdiff num limit | kpdiff num limit =>
    have hnum := h num (by simp [FuncName.args])
    have hlimit := h limit (by simp [FuncName.args])
    simp only [FuncName.window]
    omega

theorem isSome_sendEventIfNeed (lastEvents : LastEvents F) {j : Judgement F}
    (h : j.historyData ≠ []) : (sendEventIfNeed lastEvents j).isSome = true := by
  unfold sendEventIfNeed
  simp only
  split
  case isTrue =>
    split
    case h_1 =>
      split
      case isTrue => rfl
      case isFalse =>
        rw [List.getLast?_eq_some_getLast h]
        rfl
    case h_2 => split <;> rfl
  case isFalse => split <;> rfl

/-- **Alarm functions never index out of range.**  For a text of at most 16 characters that is read
as a function, no sum of its arguments overflows, `Compute` does not panic on any items, and with
enough points the judgement on the history it returns does not panic either. -/
theorem func_never_panics [Float64 F] {str : Bytes} (hlength : characters str ≤ 16)
    {operator : String} {rightValue : F} {fn : Function F}
    (hparse : parseFuncFromString str operator rightValue = some (.ok fn))
    (L : List (JudgeItem F)) :
    (Fits64 (fn.name.window - 1) ∧ Fits64 fn.name.window ∧ Fits64 (fn.name.window + 1)) ∧
      ∃ c, fn.compute L = some c ∧
        (c.isEnough = true → c.vs ≠ [] ∧ ∀ (lastEvents : LastEvents F) (j : Judgement F),
          j.historyData = c.vs → (sendEventIfNeed lastEvents j).isSome = true) := by
  refine ⟨fits64_window (lt_of_parse hlength hparse), ?_⟩
  obtain ⟨c, hc, hne⟩ := exists_compute fn L
  refine ⟨c, hc, fun henough => ⟨hne henough, fun lastEvents j hj => ?_⟩⟩
  exact isSome_sendEventIfNeed lastEvents (hj ▸ hne henough)

/-- A function with a negative argument, on two items of a gauge. -/
theorem negative_kdiff_never_panics :
    parseFuncFromString (ascii "kdiff(#5,-3)") ">" (QFloat.num 0) =
        some (.ok ⟨.kdiff 5 (-3), ">", .num 0⟩) ∧
      ∃ c, (⟨.kdiff 5 (-3), ">", QFloat.num 0⟩ : Function QFloat).compute
        [⟨"host", "load", .num 2, 120, .GAUGE, ∅⟩, ⟨"host", "load", .num 1, 60, .GAUGE, ∅⟩] =
          some c ∧ c.isEnough = true ∧ c.vs ≠ [] := by
  have hparse : parseFuncFromString (ascii "kdiff(#5,-3)") ">" (QFloat.num 0) =
      some (.ok ⟨.kdiff 5 (-3), ">", .num 0⟩) := rfl
  refine ⟨hparse, ?_⟩
  obtain ⟨-, c, hc, hne⟩ := func_never_panics (by decide) hparse
    [⟨"host", "load", .num 2, 120, .GAUGE, ∅⟩, ⟨"host", "load", .num 1, 60, .GAUGE, ∅⟩]
  have henough : c.isEnough = true := by
    rw [← Option.some.inj hc]
  exact ⟨c, hc, henough, (hne henough).1⟩

end OpenFalcon.Judge
