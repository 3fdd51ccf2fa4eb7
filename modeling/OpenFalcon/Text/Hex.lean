import OpenFalcon.Text.Numeral
import Mathlib.Data.Int.CardIntervalMod
import Mathlib.Data.Set.Card

/-!
# Hexadecimal texts

The lower-case texts of `w` hexadecimal digits are the numbers below `16 ^ w`: `hexText w` writes a
number and `hexValue` reads it.  So texts are counted by counting numbers (`ncard_hexTexts`).
-/

namespace Text

/-- A lower-case hexadecimal digit. -/
def isLowerHex (b : UInt8) : Bool := (48 ≤ b ∧ b ≤ 57) ∨ (97 ≤ b ∧ b ≤ 102)

/-- The digit of a number below sixteen. -/
def hexByte (d : ℕ) : UInt8 := if d < 10 then UInt8.ofNat (48 + d) else UInt8.ofNat (87 + d)

/-- A text of lower-case hexadecimal digits. -/
def IsHex (s : List UInt8) : Prop := ∀ b ∈ s, isLowerHex b = true

/-- The number a text writes. -/
def hexValue (s : List UInt8) : ℕ := Nat.ofDigits 16 (s.map digit).reverse

/-- The `w` last digits of a number. -/
def hexText : ℕ → ℕ → List UInt8
  | 0, _ => []
  | w + 1, v => hexText w (v / 16) ++ [hexByte (v % 16)]

theorem hexByte_spec {d : ℕ} (hd : d < 16) :
    isLowerHex (hexByte d) = true ∧ digit (hexByte d) = d := by
  revert d
  decide

theorem isLowerHex_spec {b : UInt8} (hb : isLowerHex b = true) :
    isDigitOf 16 b = true ∧ hexByte (digit b) = b := by
  have hle : 48 ≤ b.toNat ∧ b.toNat ≤ 57 ∨ 97 ≤ b.toNat ∧ b.toNat ≤ 102 := by
    simpa [isLowerHex, UInt8.le_iff_toNat_le] using hb
  obtain ⟨n, hn, rfl⟩ : ∃ n < 256, b = UInt8.ofNat n :=
    ⟨b.toNat, b.toNat_lt, (UInt8.ofNat_toNat).symm⟩
  rw [UInt8.toNat_ofNat', Nat.mod_eq_of_lt hn] at hle
  rcases hle with ⟨hlow, hhigh⟩ | ⟨hlow, hhigh⟩
  · interval_cases n <;> decide
  · interval_cases n <;> decide

theorem hexValue_concat (s : List UInt8) (b : UInt8) :
    hexValue (s ++ [b]) = digit b + 16 * hexValue s := by
  rw [hexValue, List.map_append, List.map_singleton, List.reverse_append, List.reverse_singleton,
    List.singleton_append, Nat.ofDigits_cons]
  rfl

@[simp] theorem length_hexText (w v : ℕ) : (hexText w v).length = w := by
  induction w generalizing v with
  | zero => rfl
  | succ w ih => rw [hexText, List.length_append, ih, List.length_singleton]

theorem isHex_hexText (w v : ℕ) : IsHex (hexText w v) := by
  induction w generalizing v with
  | zero => exact fun b hb => absurd hb List.not_mem_nil
  | succ w ih =>
    intro b hb
    rcases List.mem_append.mp hb with hb | hb
    · exact ih _ b hb
    · rw [List.mem_singleton.mp hb]
      exact (hexByte_spec (Nat.mod_lt v (by decide))).1

theorem hexValue_hexText {w v : ℕ} (hv : v < 16 ^ w) : hexValue (hexText w v) = v := by
  induction w generalizing v with
  | zero =>
    rw [pow_zero, Nat.lt_one_iff] at hv
    rw [hv]
    rfl
  | succ w ih =>
    have hdigit := (hexByte_spec (Nat.mod_lt v (by decide : 0 < 16))).2
    have hrest : v / 16 < 16 ^ w := by
      rw [pow_succ] at hv
      omega
    rw [hexText, hexValue_concat, hdigit, ih hrest, Nat.mod_add_div]

variable {s : List UInt8}

theorem hexText_hexValue (hs : IsHex s) : hexText s.length (hexValue s) = s := by
  induction s using List.reverseRecOn with
  | nil => rfl
  | append_singleton s b ih =>
    have hb := isLowerHex_spec (hs b (List.mem_append_right s List.mem_cons_self))
    have hdigit := digit_lt hb.1
    have hrest : IsHex s := fun c hc => hs c (List.mem_append_left [b] hc)
    have hquot : (digit b + 16 * hexValue s) / 16 = hexValue s := by omega
    have hmod : (digit b + 16 * hexValue s) % 16 = digit b := by omega
    rw [List.length_append, List.length_singleton, hexText, hexValue_concat, hquot, hmod, hb.2,
      ih hrest]

theorem natValue_of_isHex (hs : IsHex s) (hne : s ≠ []) : natValue 16 s = some (hexValue s) :=
  natValue_eq_some_iff.mpr ⟨⟨hne, fun b hb => (isLowerHex_spec (hs b hb)).1⟩, rfl⟩

theorem hexValue_lt (hs : IsHex s) : hexValue s < 16 ^ s.length := by
  by_cases hne : s = []
  · rw [hne]
    decide
  · exact natValue_lt (by decide) (natValue_of_isHex hs hne)

/-- **`strconv.ParseInt` reads hexadecimal texts**, if there is room for the number. -/
theorem parseInt_of_isHex (hs : IsHex s) (hne : s ≠ []) (bits : ℕ) :
    parseInt 16 bits s =
      if hexValue s < 2 ^ (bits - 1) then .ok (hexValue s : Int) else .error .errRange := by
  have hsigned : signedValue 16 s = some (hexValue s : Int) := by
    unfold signedValue
    split
    case h_1 digits => exact absurd (hs 43 List.mem_cons_self) (by decide)
    case h_2 digits => exact absurd (hs 45 List.mem_cons_self) (by decide)
    case h_3 =>
      rw [natValue_of_isHex hs hne]
      rfl
  have hnonneg : -2 ^ (bits - 1) ≤ (hexValue s : Int) := by
    have hpow : (0 : Int) ≤ 2 ^ (bits - 1) := by positivity
    omega
  have hroom : (hexValue s : Int) < 2 ^ (bits - 1) ↔ hexValue s < 2 ^ (bits - 1) := by
    exact_mod_cast Iff.rfl
  rw [parseInt, hsigned]
  simp only [hnonneg, true_and, hroom]

/-- **Texts are counted by their numbers.** -/
theorem ncard_hexTexts (w : ℕ) (p : ℕ → Prop) [DecidablePred p] :
    {s : List UInt8 | s.length = w ∧ IsHex s ∧ p (hexValue s)}.ncard = Nat.count p (16 ^ w) := by
  have himage : {s : List UInt8 | s.length = w ∧ IsHex s ∧ p (hexValue s)} =
      hexText w '' ({v ∈ Finset.range (16 ^ w) | p v} : Finset ℕ) := by
    ext s
    constructor
    · rintro ⟨rfl, hs, hp⟩
      refine ⟨hexValue s, ?_, hexText_hexValue hs⟩
      rw [Finset.mem_coe, Finset.mem_filter, Finset.mem_range]
      exact ⟨hexValue_lt hs, hp⟩
    · rintro ⟨v, hv, rfl⟩
      rw [Finset.mem_coe, Finset.mem_filter, Finset.mem_range] at hv
      refine ⟨length_hexText w v, isHex_hexText w v, ?_⟩
      rw [hexValue_hexText hv.1]
      exact hv.2
  have hinj : Set.InjOn (hexText w) ({v ∈ Finset.range (16 ^ w) | p v} : Finset ℕ) := by
    intro v hv v' hv' heq
    rw [Finset.mem_coe, Finset.mem_filter, Finset.mem_range] at hv hv'
    rw [← hexValue_hexText hv.1, heq, hexValue_hexText hv'.1]
  rw [himage, hinj.ncard_image, Set.ncard_coe_finset, Nat.count_eq_card_filter_range]

end Text
