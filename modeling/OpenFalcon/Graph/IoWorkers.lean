import OpenFalcon.Graph.IoIndex
import OpenFalcon.Text.Hex

/-!
# Which I/O worker does what

`getIndex` of `modules/graph/rrdtool/utils.go` on the checksums of series.  The number of workers is
a power of two, and `ParseConfig` takes as many of the first digits of a checksum as the number of
workers has itself.  The number of workers divides the number of such prefixes, so every worker has
as many of them as the others (`io_workers_even_iff`).

There is one limit.  A number of workers with sixteen digits makes `getIndex` read sixteen, and half
of these prefixes are no `int64`.  All of them go to the first worker, as texts that are no number
do.  So from `2 ^ 60` workers on the work is not even.
-/

namespace OpenFalcon.Graph
namespace Raw

open Numeric Text

/-! ## The source -/

/-- `IO_TASK_M_READ` and so on. -/
inductive IoMethod where
  | read
  | write
  | flush
  | fetch

/-- A task, and the checksum of the series it is for. -/
structure IoTask where
  method : IoMethod
  md5 : Bytes

/-- `io_task_chans[getIndex(md5)]`: where `ReadFile`, `FlushFile`, `Fetch` and `fetch_rrd` send
their tasks. -/
def IoTask.chan (cfg : IoConfig) (t : IoTask) : Int := getIndex cfg t.md5

/-! ## Checksums -/

/-- Thirty-two lower-case hexadecimal digits. -/
structure IsMd5 (md5 : Bytes) : Prop where
  length : md5.length = 32
  hex : IsHex md5

/-- The first bytes whose checksums all go to one worker. -/
def assigned (cfg : IoConfig) (worker : Int) : Set Bytes :=
  {p | p.length = cfg.firstBytesSize ∧ IsHex p ∧
    ∀ md5, IsMd5 md5 → p <+: md5 → getIndex cfg md5 = worker}

/-- The worker of the first bytes that write `v`; numbers that are no `int64` go to the first. -/
def workerOf (workers v : ℕ) : ℕ := if v < 2 ^ 63 then v % workers else 0

variable {storage : Bytes} {n : Int} {cfg : IoConfig} {i workers k : ℕ}

theorem length_formatInt16_le_iff (hpos : 0 < n) (hk : 0 < k) :
    (formatInt16 n).length ≤ k ↔ n.toNat < 16 ^ k := by
  have htext : formatInt16 n = Nat.toDigits 16 n.natAbs := if_neg (by omega)
  have habs : n.natAbs = n.toNat := by omega
  rw [htext, habs, Nat.length_toDigits_le_iff (by decide) hk]

theorem length_formatInt16_le (hpos : 0 < n) (hfits : Fits64 n) : (formatInt16 n).length ≤ 16 := by
  rw [length_formatInt16_le_iff hpos (by decide)]
  unfold Fits64 at hfits
  omega

/-- **The index of a checksum is that of its first bytes.** -/
theorem getIndex_eq_workerOf (storage : Bytes) (hpos : 0 < n) (hfits : Fits64 n) {md5 : Bytes}
    (hmd5 : IsMd5 md5) :
    getIndex ⟨storage, n, (formatInt16 n).length⟩ md5 =
      (workerOf n.toNat (hexValue (md5.take (formatInt16 n).length)) : Int) := by
  by_cases hone : n ≤ 1
  · obtain rfl : n = 1 := by omega
    rw [getIndex, if_pos (Or.inl le_rfl), workerOf]
    split_ifs
    · rw [Int.toNat_one, Nat.mod_one, Nat.cast_zero]
    · rfl
  · have hsize := (pow_length_formatInt16_le hpos).1
    have hle := length_formatInt16_le hpos hfits
    have hlength := hmd5.length
    have hlong : ¬ (n ≤ 1 ∨ md5.length < (formatInt16 n).length ∨ (formatInt16 n).length = 0) := by
      omega
    have hhex : IsHex (md5.take (formatInt16 n).length) :=
      fun b hb => hmd5.hex b (List.mem_of_mem_take hb)
    have hne : md5.take (formatInt16 n).length ≠ [] := by
      rw [← List.length_pos_iff, List.length_take]
      omega
    rw [getIndex, if_neg hlong, parseInt_of_isHex hhex hne, workerOf]
    by_cases hroom : hexValue (md5.take (formatInt16 n).length) < 2 ^ 63
    · rw [if_pos hroom, if_pos hroom]
      show (hexValue (md5.take (formatInt16 n).length) : Int).tmod n = _
      rw [Int.tmod_eq_emod_of_nonneg (Int.natCast_nonneg _), Int.natCast_mod,
        Int.toNat_of_nonneg hpos.le]
    · rw [if_neg hroom, if_neg hroom]
      rfl

/-- A prefix is assigned to a worker by the number it writes. -/
theorem assigned_eq (storage : Bytes) (hpos : 0 < n) (hfits : Fits64 n) (i : ℕ) :
    assigned ⟨storage, n, (formatInt16 n).length⟩ i =
      {p | p.length = (formatInt16 n).length ∧ IsHex p ∧ workerOf n.toNat (hexValue p) = i} := by
  have hle := length_formatInt16_le hpos hfits
  ext p
  refine and_congr_right fun hlength => and_congr_right fun hhex => ?_
  have hlength : p.length = (formatInt16 n).length := hlength
  have hindex : ∀ md5, IsMd5 md5 → p <+: md5 →
      getIndex ⟨storage, n, (formatInt16 n).length⟩ md5 =
        (workerOf n.toNat (hexValue p) : Int) := by
    intro md5 hmd5 hstart
    rw [getIndex_eq_workerOf storage hpos hfits hmd5, ← hlength,
      ← List.prefix_iff_eq_take.mp hstart]
  constructor
  · -- a checksum that starts with the prefix
    intro hall
    have hzero : isLowerHex 48 = true := by decide
    have hmd5 : IsMd5 (p ++ List.replicate (32 - p.length) 48) := by
      refine ⟨?_, fun b hb => ?_⟩
      · rw [List.length_append, List.length_replicate]
        omega
      · rcases List.mem_append.mp hb with hb | hb
        · exact hhex b hb
        · rw [List.eq_of_mem_replicate hb]
          exact hzero
    have heq := hall _ hmd5 (List.prefix_append _ _)
    rw [hindex _ hmd5 (List.prefix_append _ _)] at heq
    exact_mod_cast heq
  · intro heq md5 hmd5 hstart
    rw [hindex md5 hmd5 hstart, heq]

/-! ## Counting -/

theorem ncard_assigned (storage : Bytes) (hpos : 0 < n) (hfits : Fits64 n) (i : ℕ) :
    (assigned ⟨storage, n, (formatInt16 n).length⟩ i).ncard =
      Nat.count (fun v => workerOf n.toNat v = i) (16 ^ (formatInt16 n).length) := by
  rw [assigned_eq storage hpos hfits]
  exact ncard_hexTexts _ fun v => workerOf n.toNat v = i

/-- Up to a multiple of the number of workers, they take turns. -/
theorem count_workerOf {bound : ℕ} (hbound : bound ≤ 2 ^ 63) (hdvd : workers ∣ bound)
    (hi : i < workers) : Nat.count (fun v => workerOf workers v = i) bound = bound / workers := by
  have hturn : Nat.count (fun v => workerOf workers v = i) bound =
      Nat.count (fun v => v ≡ i [MOD workers]) bound := by
    rw [Nat.count_eq_card_filter_range, Nat.count_eq_card_filter_range]
    refine congrArg Finset.card (Finset.filter_congr fun v hv => ?_)
    have hlt : v < 2 ^ 63 := (Finset.mem_range.mp hv).trans_le hbound
    rw [workerOf, if_pos hlt, Nat.ModEq, Nat.mod_eq_of_lt hi]
  rw [hturn, Nat.count_modEq_card _ (by omega), Nat.mod_eq_zero_of_dvd hdvd,
    if_neg (Nat.not_lt_zero _), Nat.add_zero]

/-- Numbers that are no `int64` are all for the first worker. -/
theorem count_workerOf_add (hdvd : workers ∣ 2 ^ 63) (hi : i < workers) (more : ℕ) :
    Nat.count (fun v => workerOf workers v = i) (2 ^ 63 + more) =
      2 ^ 63 / workers + if i = 0 then more else 0 := by
  rw [Nat.count_add, count_workerOf le_rfl hdvd hi]
  refine congrArg (2 ^ 63 / workers + ·) ?_
  have hfirst : ∀ v, workerOf workers (2 ^ 63 + v) = 0 := fun v => if_neg (by omega)
  simp only [hfirst]
  split_ifs with hzero
  · rw [hzero, Nat.count_eq_card_filter_range]
    simp
  · rw [Nat.count_eq_card_filter_range]
    simp [Ne.symm hzero]

theorem exists_pow_of_parseConfig (hpos : 0 < n) (hfits : Fits64 n)
    (hconfig : parseConfig storage n = some cfg) : ∃ k, n.toNat = 2 ^ k := by
  unfold parseConfig at hconfig
  split_ifs at hconfig with hnum
  rw [not_or, not_not] at hnum
  unfold Fits64 at hfits
  have hand := congrArg BitVec.toNat hnum.2
  rw [BitVec.toNat_and, BitVec.toNat_ofInt, BitVec.toNat_ofInt] at hand
  have hn : (n % (2 ^ 64 : ℕ)).toNat = n.toNat := by omega
  have hpred : ((n - 1) % (2 ^ 64 : ℕ)).toNat = n.toNat - 1 := by omega
  rw [hn, hpred] at hand
  exact Nat.ne_zero_and_sub_one_eq_zero_iff_isPowerOfTwo.mp ⟨by omega, hand⟩

theorem pow_dvd_of_le {bits m : ℕ} (hm : m = 2 ^ k) (hle : m ≤ 2 ^ bits) : m ∣ 2 ^ bits := by
  rw [hm] at hle ⊢
  exact pow_dvd_pow 2 ((Nat.pow_le_pow_iff_right (by decide)).mp hle)

theorem sixteen_pow (w : ℕ) : 16 ^ w = 2 ^ (4 * w) := by
  rw [pow_mul]
  rfl

/-- **Every worker has as many prefixes as the others**, if their number has at most fifteen
digits. -/
theorem ncard_assigned_of_lt (hpos : 0 < n) (hfits : Fits64 n)
    (hconfig : parseConfig storage n = some cfg) (hsmall : n < 2 ^ 60) (hi : (i : Int) < n) :
    (assigned cfg i).ncard = 16 ^ cfg.firstBytesSize / n.toNat := by
  obtain ⟨k, hk⟩ := exists_pow_of_parseConfig hpos hfits hconfig
  obtain ⟨-, rfl⟩ := parseConfig_eq_some hconfig
  have hsize := (pow_length_formatInt16_le hpos).1
  have hdigits : (formatInt16 n).length ≤ 15 := by
    rw [length_formatInt16_le_iff hpos (by decide)]
    omega
  have hlt := (length_formatInt16_le_iff hpos hsize).mp le_rfl
  rw [sixteen_pow] at hlt
  rw [ncard_assigned storage hpos hfits, sixteen_pow]
  refine count_workerOf ?_ (pow_dvd_of_le hk hlt.le) (by omega)
  exact Nat.pow_le_pow_right (by decide) (by omega)

/-- With sixteen digits the first worker has half of all prefixes, and its share of the rest. -/
theorem ncard_assigned_of_ge (hpos : 0 < n) (hfits : Fits64 n)
    (hconfig : parseConfig storage n = some cfg) (hlarge : 2 ^ 60 ≤ n) (hi : (i : Int) < n) :
    (assigned cfg i).ncard = 2 ^ 63 / n.toNat + if i = 0 then 2 ^ 63 else 0 := by
  obtain ⟨k, hk⟩ := exists_pow_of_parseConfig hpos hfits hconfig
  obtain ⟨-, rfl⟩ := parseConfig_eq_some hconfig
  have hdigits : (formatInt16 n).length = 16 := by
    have hle := length_formatInt16_le hpos hfits
    have hmore := mt (length_formatInt16_le_iff hpos (by decide : 0 < 15)).mp (by omega)
    omega
  rw [ncard_assigned storage hpos hfits, hdigits, show 16 ^ 16 = 2 ^ 63 + 2 ^ 63 by decide]
  unfold Fits64 at hfits
  exact count_workerOf_add (pow_dvd_of_le hk (by omega)) (by omega) _

/-- **I/O workers are used consistently, and evenly if and only if there are fewer than `2 ^ 60`.**
For every number of workers that is at least one and that `ParseConfig` accepts: every checksum has
the index of a worker; tasks for checksums with the same first bytes, and so all tasks for one
checksum, have the same index; and the workers all have the same number of prefixes exactly if their
number is less than `2 ^ 60`, the number of all prefixes divided by theirs. -/
theorem io_workers_even_iff (hfits : Fits64 n) (hconfig : parseConfig storage n = some cfg)
    (hpos : 1 ≤ n) :
    (∀ md5, IsMd5 md5 → 0 ≤ getIndex cfg md5 ∧ getIndex cfg md5 < n) ∧
    (∀ t t' : IoTask, IsMd5 t.md5 → IsMd5 t'.md5 →
      t.md5.take cfg.firstBytesSize = t'.md5.take cfg.firstBytesSize → t.chan cfg = t'.chan cfg) ∧
    ((∀ i j : ℕ, (i : Int) < n → (j : Int) < n →
      (assigned cfg i).ncard = (assigned cfg j).ncard) ↔ n < 2 ^ 60) ∧
    (n < 2 ^ 60 → ∀ i : ℕ, (i : Int) < n →
      (assigned cfg i).ncard * n.toNat = 16 ^ cfg.firstBytesSize) := by
  have hpos : 0 < n := hpos
  obtain ⟨k, hk⟩ := exists_pow_of_parseConfig hpos hfits hconfig
  have hlt := fun h i => ncard_assigned_of_lt (i := i) hpos hfits hconfig h
  have hge := fun h i => ncard_assigned_of_ge (i := i) hpos hfits hconfig h
  obtain ⟨-, rfl⟩ := parseConfig_eq_some hconfig
  refine ⟨?_, ?_, ⟨?_, ?_⟩, ?_⟩
  · intro md5 hmd5
    rw [getIndex_eq_workerOf storage hpos hfits hmd5]
    have hworker : workerOf n.toNat (hexValue (md5.take (formatInt16 n).length)) < n.toNat := by
      unfold workerOf
      split_ifs
      · exact Nat.mod_lt _ (by omega)
      · omega
    omega
  · intro t t' hmd5 hmd5' hfirst
    have hfirst : t.md5.take (formatInt16 n).length = t'.md5.take (formatInt16 n).length := hfirst
    unfold IoTask.chan
    rw [getIndex_eq_workerOf storage hpos hfits hmd5, getIndex_eq_workerOf storage hpos hfits hmd5',
      hfirst]
  · -- with `2 ^ 60` workers or more, compare the first two
    intro heven
    by_contra hsmall
    have hlarge : 2 ^ 60 ≤ n := not_lt.mp hsmall
    have hfirst := heven 0 1 (by omega) (by omega)
    rw [hge hlarge 0 (by omega), hge hlarge 1 (by omega), if_pos rfl, if_neg (by decide)] at hfirst
    omega
  · intro hsmall i j hi hj
    rw [hlt hsmall i hi, hlt hsmall j hj]
  · intro hsmall i hi
    rw [hlt hsmall i hi]
    have hdigits := (length_formatInt16_le_iff hpos (pow_length_formatInt16_le hpos).1).mp le_rfl
    rw [sixteen_pow] at hdigits ⊢
    exact Nat.div_mul_cancel (pow_dvd_of_le hk hdigits.le)

/-- Sixteen digits: the second worker has eight prefixes, and the first one half of all besides. -/
theorem io_workers_uneven :
    parseConfig [] (2 ^ 60) = some ⟨[], 2 ^ 60, 16⟩ ∧
      (assigned ⟨[], 2 ^ 60, 16⟩ 0).ncard = 8 + 2 ^ 63 ∧
      (assigned ⟨[], 2 ^ 60, 16⟩ 1).ncard = 8 := by
  have hconfig : parseConfig [] (2 ^ 60) = some ⟨[], 2 ^ 60, 16⟩ := by rfl
  have hfits : Fits64 (2 ^ 60) := by decide
  refine ⟨hconfig, ?_, ?_⟩
  · exact ncard_assigned_of_ge (i := 0) (by decide) hfits hconfig le_rfl (by decide)
  · exact ncard_assigned_of_ge (i := 1) (by decide) hfits hconfig le_rfl (by decide)

/-- Sixteen workers have sixteen prefixes of two digits each. -/
theorem io_workers_even_sixteen :
    parseConfig [] 16 = some ⟨[], 16, 2⟩ ∧ (assigned ⟨[], 16, 2⟩ 5).ncard * 16 = 16 ^ 2 := by
  have hconfig : parseConfig [] 16 = some ⟨[], 16, 2⟩ := rfl
  exact ⟨hconfig,
    (io_workers_even_iff (by decide) hconfig (by decide)).2.2.2 (by decide) 5 (by decide)⟩

end Raw
end OpenFalcon.Graph
