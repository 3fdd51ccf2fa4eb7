import Mathlib.Data.Nat.Digits.Lemmas

/-!
# Integers in texts

`strconv.ParseInt` reads a sign or none and digits of some base, all of them, and refuses a number
that does not have a place in the bits it is to be stored in.  A text is a list of bytes, and the
letters count as digits above nine, small or large.  The bytes of a text of characters are their
UTF-8 codes.
-/

namespace Text

/-! ## Digits -/

/-- The value of a digit. -/
def digitValue (b : UInt8) : Option ℕ :=
  if 48 ≤ b ∧ b ≤ 57 then some (b.toNat - 48)
  else if 97 ≤ b ∧ b ≤ 122 then some (b.toNat - 97 + 10)
  else if 65 ≤ b ∧ b ≤ 90 then some (b.toNat - 65 + 10)
  else none

/-- The byte is a digit of the base. -/
def isDigitOf (base : ℕ) (b : UInt8) : Bool :=
  (digitValue b).any fun d => d < base

/-- The value of a byte that is a digit. -/
def digit (b : UInt8) : ℕ := (digitValue b).getD 0

variable {base n : ℕ} {b : UInt8}

theorem digit_lt (h : isDigitOf base b = true) : digit b < base := by
  unfold isDigitOf at h
  unfold digit
  cases hd : digitValue b with
  | none => simp [hd] at h
  | some d => simpa [hd] using h

theorem digit_eq_zero_iff (h : isDigitOf base b = true) : digit b = 0 ↔ b = 48 := by
  constructor
  · intro hzero
    unfold digit at hzero
    unfold isDigitOf at h
    unfold digitValue at h hzero
    split_ifs at h hzero with hdigit hsmall hlarge
    · have hle : 48 ≤ b.toNat := UInt8.le_iff_toNat_le.mp hdigit.1
      rw [Option.getD_some] at hzero
      refine UInt8.toNat_inj.mp ?_
      show b.toNat = 48
      omega
    · rw [Option.getD_some] at hzero
      omega
    · rw [Option.getD_some] at hzero
      omega
    · cases h
  · rintro rfl
    rfl

/-- The value of digits of a base, one at least. -/
def natValue (base : ℕ) (s : List UInt8) : Option ℕ :=
  if s ≠ [] ∧ s.all (isDigitOf base) then some (Nat.ofDigits base (s.map digit).reverse) else none

variable {s : List UInt8}

theorem natValue_eq_some_iff :
    natValue base s = some n ↔ (s ≠ [] ∧ ∀ b ∈ s, isDigitOf base b = true) ∧
      Nat.ofDigits base (s.map digit).reverse = n := by
  rw [natValue, Option.ite_none_right_eq_some, List.all_eq_true, Option.some_inj]

theorem natValue_lt (hbase : 1 < base) (h : natValue base s = some n) : n < base ^ s.length := by
  obtain ⟨⟨-, hdigits⟩, rfl⟩ := natValue_eq_some_iff.mp h
  have hlt : Nat.ofDigits base (s.map digit).reverse < base ^ (s.map digit).reverse.length := by
    refine Nat.ofDigits_lt_base_pow_length hbase fun d hd => ?_
    obtain ⟨b, hb, rfl⟩ := List.mem_map.mp (List.mem_reverse.mp hd)
    exact digit_lt (hdigits b hb)
  rwa [List.length_reverse, List.length_map] at hlt

theorem ofDigits_eq_zero_iff (hbase : base ≠ 0) {l : List ℕ} :
    Nat.ofDigits base l = 0 ↔ ∀ d ∈ l, d = 0 := by
  induction l with
  | nil => simp
  | cons d l ih =>
    rw [Nat.ofDigits_cons, Nat.add_eq_zero_iff, Nat.mul_eq_zero, ih, List.forall_mem_cons]
    simp [hbase]

theorem natValue_eq_zero_iff (hbase : base ≠ 0) (h : natValue base s = some n) :
    n = 0 ↔ ∀ b ∈ s, b = 48 := by
  obtain ⟨⟨-, hdigits⟩, rfl⟩ := natValue_eq_some_iff.mp h
  rw [ofDigits_eq_zero_iff hbase]
  constructor
  · intro hzero b hb
    refine (digit_eq_zero_iff (hdigits b hb)).mp (hzero _ ?_)
    exact List.mem_reverse.mpr (List.mem_map_of_mem hb)
  · intro hall d hd
    obtain ⟨b, hb, rfl⟩ := List.mem_map.mp (List.mem_reverse.mp hd)
    exact (digit_eq_zero_iff (hdigits b hb)).mpr (hall b hb)

/-! ## Integers -/

/-- The errors of `strconv`: `ErrSyntax` and `ErrRange`. -/
inductive NumError where
  | errSyntax
  | errRange
  deriving DecidableEq

/-- A sign or none, and digits. -/
def signedValue (base : ℕ) (s : List UInt8) : Option Int :=
  match s with
  | 43 :: digits => (natValue base digits).map Int.ofNat
  | 45 :: digits => (natValue base digits).map fun n => -Int.ofNat n
  | digits => (natValue base digits).map Int.ofNat

/-- `strconv.ParseInt`. -/
def parseInt (base bits : ℕ) (s : List UInt8) : Except NumError Int :=
  match signedValue base s with
  | none => .error .errSyntax
  | some n => if -2 ^ (bits - 1) ≤ n ∧ n < 2 ^ (bits - 1) then .ok n else .error .errRange

/-- **What has a negative value**: digits behind a minus sign, not all of them zero. -/
theorem signedValue_neg_iff (hbase : base ≠ 0) :
    (∃ n, signedValue base s = some n ∧ n < 0) ↔
      ∃ digits, s = 45 :: digits ∧ (∀ b ∈ digits, isDigitOf base b = true) ∧
        ∃ b ∈ digits, b ≠ 48 := by
  have hpos : ∀ digits : List UInt8,
      ¬ ∃ n, (natValue base digits).map Int.ofNat = some n ∧ n < 0 := by
    rintro digits ⟨n, hn, hneg⟩
    obtain ⟨k, -, rfl⟩ := Option.map_eq_some_iff.mp hn
    exact absurd hneg (by simp)
  unfold signedValue
  split
  case h_1 digits =>
    refine iff_of_false (hpos digits) ?_
    rintro ⟨_, heq, -⟩
    exact absurd (List.cons.inj heq).1 (by decide)
  case h_2 digits =>
    constructor
    · rintro ⟨n, hn, hneg⟩
      obtain ⟨k, hk, rfl⟩ := Option.map_eq_some_iff.mp hn
      refine ⟨digits, rfl, (natValue_eq_some_iff.mp hk).1.2, ?_⟩
      by_contra hzero
      push Not at hzero
      rw [(natValue_eq_zero_iff hbase hk).mpr hzero] at hneg
      exact absurd hneg (by decide)
    · rintro ⟨_, heq, hdigits, b, hb, hne⟩
      obtain rfl := (List.cons.inj heq).2
      have hk := natValue_eq_some_iff.mpr ⟨⟨List.ne_nil_of_mem hb, hdigits⟩, rfl⟩
      refine ⟨_, by rw [hk, Option.map_some], ?_⟩
      have hne0 := mt (natValue_eq_zero_iff hbase hk).mp fun hall => hne (hall b hb)
      simp only [Int.ofNat_eq_natCast]
      omega
  case h_3 hplus hminus =>
    refine iff_of_false (hpos s) ?_
    rintro ⟨digits, rfl, -⟩
    exact hminus digits rfl

/-- The sign takes the place of a digit. -/
theorem neg_lt_of_signedValue (hbase : 1 < base) {n : Int} (h : signedValue base s = some n)
    (hneg : n < 0) : -n < (base : Int) ^ (s.length - 1) := by
  unfold signedValue at h
  split at h
  case h_2 digits =>
    obtain ⟨k, hk, rfl⟩ := Option.map_eq_some_iff.mp h
    have hlt : (k : Int) < (base : Int) ^ digits.length := by exact_mod_cast natValue_lt hbase hk
    rwa [neg_neg]
  all_goals
    obtain ⟨k, -, rfl⟩ := Option.map_eq_some_iff.mp h
    exact absurd hneg (by simp)

/-- The bytes of a text of characters. -/
def utf8 (cs : List Char) : List UInt8 := cs.flatMap String.utf8EncodeChar

end Text
