import OpenFalcon.Graph.Migrate
import OpenFalcon.Numeric.Int64
import OpenFalcon.Text.Numeral

/-!
# The I/O workers, and keys from outside

`modules/graph/rrdtool` gives every file to one of `IOWorkerNum` goroutines, chosen by the first
bytes of the checksum: `getIndex` reads as many bytes as `IOWorkerNum` has hexadecimal digits, as a
number, and takes the remainder.  `GetRrd` of `modules/graph/api/graph.go` does this with a key that
came over the network, and the first field of that key need not be a checksum.

Here a text is a list of bytes, since the code cuts it at byte positions.  Two things can go wrong
with a key that `SplitRrdCacheKey` accepts.  The field can be too short for a directory.  And
`ParseInt` reads a sign, so the number can be negative, and then Go's remainder is negative too.
`getRrd_total_iff` says that nothing else can: a plus sign, a zero behind a minus sign, bytes that
are no digits and a number that is too large all end in a channel that is there.
-/

namespace OpenFalcon.Graph
namespace Raw

open Numeric Text

/-- A Go `string`. -/
abbrev Bytes := List UInt8

/-! ## The configuration -/

/-- `strconv.FormatInt(n, 16)`. -/
def formatInt16 (n : Int) : List Char :=
  if n < 0 then '-' :: Nat.toDigits 16 n.natAbs else Nat.toDigits 16 n.natAbs

/-- The fields of `g.GlobalConfig` that the I/O workers read. -/
structure IoConfig where
  storage : Bytes
  ioWorkerNum : Int
  firstBytesSize : ℕ

/-- `g.ParseConfig` ends the process unless `IOWorkerNum` is 2^N. -/
def parseConfig (storage : Bytes) (ioWorkerNum : Int) : Option IoConfig :=
  if ioWorkerNum = 0 ∨
      BitVec.ofInt 64 ioWorkerNum &&& BitVec.ofInt 64 (ioWorkerNum - 1) ≠ 0 then none
  else some ⟨storage, ioWorkerNum, (formatInt16 ioWorkerNum).length⟩

/-- `InitChannel`: the number of channels.  `make` panics if it is negative. -/
def initChannel (cfg : IoConfig) : Option ℕ :=
  if cfg.ioWorkerNum < 0 then none else some cfg.ioWorkerNum.toNat

/-- `getIndex`. -/
def getIndex (cfg : IoConfig) (md5 : Bytes) : Int :=
  if cfg.ioWorkerNum ≤ 1 ∨ md5.length < cfg.firstBytesSize ∨ cfg.firstBytesSize = 0 then 0
  else
    match parseInt 16 64 (md5.take cfg.firstBytesSize) with
    | .error _ => 0
    | .ok m => m.tmod cfg.ioWorkerNum

/-! ## `GetRrd` -/

/-- The errors of `SplitRrdCacheKey`: `bad rrd cache key`, and the error of `strconv.ParseInt` on
the last field. -/
inductive KeyError where
  | badKey (ckey : Bytes)
  | parseInt (step : Bytes) (reason : NumError)

/-- `g.SplitRrdCacheKey`. -/
def splitRrdCacheKey (ckey : Bytes) : Except KeyError (Bytes × Bytes × Int) :=
  match ckey.splitOn (UInt8.ofNat '_'.toNat) with
  | [md5, dsType, step] =>
    match parseInt 10 32 step with
    | .ok n => .ok (md5, dsType, n)
    | .error reason => .error (.parseInt step reason)
  | _ => .error (.badKey ckey)

/-- `g.RrdFileName`.  The slice `md5[0:2]` panics if there are fewer than two bytes. -/
def rrdFileName (baseDir md5 dsType : Bytes) (step : Int) : Option Bytes :=
  if md5.length < 2 then none
  else some (baseDir ++ utf8 "/".toList ++ md5.take 2 ++ utf8 "/".toList ++ md5 ++
    utf8 "_".toList ++ dsType ++ utf8 "_".toList ++ utf8 (toString step).toList ++
    utf8 ".rrd".toList)

/-- `g.File`. -/
structure File where
  filename : Bytes
  body : Bytes

/-- The items of the cache and the files of the disk. -/
structure Disk (Item : Type) where
  graphItems : Bytes → List Item
  files : Bytes → Option Bytes

/-- What an I/O worker does with a task: it flushes items to a file, or reads one. -/
structure Worker (Item E : Type) where
  flush : Bytes → List Item → (Bytes → Option Bytes) → Bytes → Option Bytes
  read : Bytes → (Bytes → Option Bytes) → Except E Bytes

variable {Item E : Type}

/-- `io_task_chans[index]` is there. -/
def hasChannel (chans : ℕ) (index : Int) : Bool := 0 ≤ index ∧ index < chans

/-- `Graph.GetRrd`: what it answers, and the state it leaves.  A panic leaves no answer. -/
def getRrd (cfg : IoConfig) (chans : ℕ) (worker : Worker Item E) (s : Disk Item) (key : Bytes) :
    Option (Except (KeyError ⊕ E) File) × Disk Item :=
  match splitRrdCacheKey key with
  | .error e => (some (.error (.inl e)), s)
  | .ok (md5, dsType, step) =>
    match rrdFileName cfg.storage md5 dsType step with
    | none => (none, s)
    | some filename =>
      let items := s.graphItems key
      let popped : Disk Item := { s with graphItems := Function.update s.graphItems key [] }
      -- `FlushFile`, if there is something to flush, and `ReadFile` use the same channel
      if hasChannel chans (getIndex cfg md5) then
        let flushed : Disk Item :=
          if items.isEmpty then popped
          else { popped with files := worker.flush filename items popped.files }
        match worker.read filename flushed.files with
        | .error e => (some (.error (.inr e)), flushed)
        | .ok body => (some (.ok ⟨filename, body⟩), flushed)
      else (none, popped)

/-! ## Indices -/

variable {storage : Bytes} {n : Int} {cfg : IoConfig}

theorem parseConfig_eq_some (h : parseConfig storage n = some cfg) :
    n ≠ 0 ∧ cfg = ⟨storage, n, (formatInt16 n).length⟩ := by
  unfold parseConfig at h
  split_ifs at h with hnum
  rw [not_or] at hnum
  exact ⟨hnum.1, (Option.some.inj h).symm⟩

/-- The number of workers has as many digits as `getIndex` reads. -/
theorem pow_length_formatInt16_le (hpos : 0 < n) :
    0 < (formatInt16 n).length ∧ (16 : Int) ^ ((formatInt16 n).length - 1) ≤ n := by
  have htext : formatInt16 n = Nat.toDigits 16 n.natAbs := if_neg (by omega)
  have hlength := Nat.length_toDigits_pos (b := 16) (n := n.natAbs)
  rw [htext]
  refine ⟨hlength, ?_⟩
  rcases Nat.eq_zero_or_pos ((Nat.toDigits 16 n.natAbs).length - 1) with hone | hmore
  · rw [hone, pow_zero]
    omega
  · have hle : ¬ (Nat.toDigits 16 n.natAbs).length ≤ (Nat.toDigits 16 n.natAbs).length - 1 := by
      omega
    rw [Nat.length_toDigits_le_iff (by decide) hmore, not_lt] at hle
    have hcast : ((16 ^ ((Nat.toDigits 16 n.natAbs).length - 1) : ℕ) : Int) ≤ n := by omega
    exact_mod_cast hcast

/-- The first bytes are a negative number other than zero: a minus sign and hexadecimal digits, not
all of them zero, as many bytes as the number of workers has digits. -/
def StartsNegative (n : Int) (md5 : Bytes) : Prop :=
  ∃ digits rest, md5 = UInt8.ofNat '-'.toNat :: digits ++ rest ∧
    digits.length + 1 = (formatInt16 n).length ∧
    (∀ b ∈ digits, isDigitOf 16 b = true) ∧ ∃ b ∈ digits, b ≠ UInt8.ofNat '0'.toNat

theorem startsNegative_iff {md5 : Bytes} (hlength : (formatInt16 n).length ≤ md5.length) :
    StartsNegative n md5 ↔
      ∃ m, signedValue 16 (md5.take (formatInt16 n).length) = some m ∧ m < 0 := by
  rw [signedValue_neg_iff (by decide)]
  constructor
  · rintro ⟨digits, rest, rfl, hdigits, hhex⟩
    refine ⟨digits, ?_, hhex⟩
    rw [← hdigits, List.cons_append, List.take_succ_cons, List.take_left]
    rfl
  · rintro ⟨digits, htake, hhex⟩
    refine ⟨digits, md5.drop (formatInt16 n).length, ?_, ?_, hhex⟩
    · conv_lhs => rw [← List.take_append_drop (formatInt16 n).length md5, htake]
      rfl
    · rw [← List.length_cons (a := 45), ← htake, List.length_take, Nat.min_eq_left hlength]

/-- **The index is that of a channel, if and only if the first bytes are not negative.** -/
theorem hasChannel_getIndex_iff (storage : Bytes) (hpos : 0 < n) (hfits : Fits64 n) (md5 : Bytes) :
    hasChannel n.toNat (getIndex ⟨storage, n, (formatInt16 n).length⟩ md5) = true ↔
      ¬ StartsNegative n md5 := by
  obtain ⟨hsize, hpow⟩ := pow_length_formatInt16_le hpos
  have hchannel : ∀ i : Int, hasChannel n.toNat i = true ↔ 0 ≤ i ∧ i < n := by
    intro i
    rw [hasChannel, decide_eq_true_iff]
    omega
  rw [hchannel]
  unfold getIndex
  split_ifs with hshort
  · refine iff_of_true ⟨le_rfl, hpos⟩ ?_
    rintro ⟨digits, rest, rfl, hdigits, -, b, hb, -⟩
    have hdigitsPos : 0 < digits.length := List.length_pos_of_mem hb
    rcases hshort with hone | hshort | hzero
    · -- one worker has one digit, and there is none behind the sign
      have hone : n ≤ 1 := hone
      have hle : (16 : Int) ^ 1 ≤ 16 ^ ((formatInt16 n).length - 1) :=
        pow_le_pow_right₀ (by decide) (by omega)
      omega
    · simp only [List.cons_append, List.length_cons, List.length_append] at hshort
      omega
    · exact hsize.ne' hzero
  · rw [not_or, not_or] at hshort
    rw [startsNegative_iff (not_lt.mp hshort.2.1)]
    unfold parseInt
    cases hvalue : signedValue 16 (md5.take (formatInt16 n).length) with
    | none => simpa using hpos
    | some m =>
      have hneg : (∃ m', some m = some m' ∧ m' < 0) ↔ m < 0 := by simp
      rw [hneg, not_lt]
      by_cases hm : m < 0
      · -- the number has fewer digits than the number of workers, so it is its own remainder
        have hbound := neg_lt_of_signedValue (by decide) hvalue hm
        rw [List.length_take, Nat.min_eq_left (not_lt.mp hshort.2.1)] at hbound
        have hlt : -m < n := hbound.trans_le (by exact_mod_cast hpow)
        have hmod : m.tmod n = m := by
          rw [← neg_neg m, Int.neg_tmod, Int.tmod_eq_of_lt (by omega) hlt]
        unfold Fits64 at hfits
        simp only [if_pos (show -2 ^ 63 ≤ m ∧ m < 2 ^ 63 by omega), hmod]
        omega
      · refine iff_of_true ?_ (not_lt.mp hm)
        simp only
        split_ifs
        · exact ⟨Int.tmod_nonneg n (not_lt.mp hm), Int.tmod_lt_of_pos m hpos⟩
        · exact ⟨le_rfl, hpos⟩

/-! ## Answers -/

theorem isSome_rrdFileName (baseDir md5 dsType : Bytes) (step : Int) :
    (rrdFileName baseDir md5 dsType step).isSome = true ↔ 2 ≤ md5.length := by
  unfold rrdFileName
  split_ifs with hshort
  · exact iff_of_false (by simp) (by omega)
  · exact iff_of_true rfl (not_lt.mp hshort)

/-- **`GetRrd` answers, if and only if the first field of the key has two bytes and is not a
negative number.**  For every number of workers `ParseConfig` accepts and `InitChannel` makes
channels for, every cache and every disk: the call returns a file or an error, the file name can be
built and the index is that of a channel, exactly if the key is refused or its first field has at
least two bytes and does not start with a negative number. -/
theorem getRrd_total_iff (hfits : Fits64 n) (hconfig : parseConfig storage n = some cfg) {chans : ℕ}
    (hinit : initChannel cfg = some chans) (worker : Worker Item E) (s : Disk Item) (key : Bytes) :
    ((∃ answer, (getRrd cfg chans worker s key).1 = some answer) ∧
        ∀ md5 dsType step, splitRrdCacheKey key = .ok (md5, dsType, step) →
          (rrdFileName cfg.storage md5 dsType step).isSome = true ∧
            0 ≤ getIndex cfg md5 ∧ getIndex cfg md5 < chans) ↔
      ∀ md5 dsType step, splitRrdCacheKey key = .ok (md5, dsType, step) →
        2 ≤ md5.length ∧ ¬ StartsNegative n md5 := by
  obtain ⟨hzero, rfl⟩ := parseConfig_eq_some hconfig
  unfold initChannel at hinit
  split_ifs at hinit with hneg
  obtain rfl := Option.some.inj hinit
  have hpos : 0 < n := lt_of_le_of_ne (not_lt.mp hneg) (Ne.symm hzero)
  have hindex : ∀ md5, (0 ≤ getIndex ⟨storage, n, (formatInt16 n).length⟩ md5 ∧
      getIndex ⟨storage, n, (formatInt16 n).length⟩ md5 < (n.toNat : Int)) ↔
        ¬ StartsNegative n md5 := by
    intro md5
    rw [← hasChannel_getIndex_iff storage hpos hfits, hasChannel, decide_eq_true_iff]
  constructor
  · rintro ⟨-, hall⟩ md5 dsType step hsplit
    obtain ⟨hsome, hchannel⟩ := hall md5 dsType step hsplit
    exact ⟨(isSome_rrdFileName _ _ _ _).mp hsome, (hindex md5).mp hchannel⟩
  · intro hall
    refine ⟨?_, fun md5 dsType step hsplit => ?_⟩
    · unfold getRrd
      cases hsplit : splitRrdCacheKey key with
      | error e => exact ⟨_, rfl⟩
      | ok fields =>
        obtain ⟨md5, dsType, step⟩ := fields
        obtain ⟨hlength, hnot⟩ := hall md5 dsType step hsplit
        obtain ⟨filename, hfilename⟩ :=
          Option.isSome_iff_exists.mp ((isSome_rrdFileName storage _ dsType step).mpr hlength)
        have hchannel := (hasChannel_getIndex_iff storage hpos hfits md5).mpr hnot
        simp only [hfilename, hchannel, if_true]
        split
        · exact ⟨_, rfl⟩
        · exact ⟨_, rfl⟩
    · obtain ⟨hlength, hnot⟩ := hall md5 dsType step hsplit
      exact ⟨(isSome_rrdFileName _ _ _ _).mpr hlength, (hindex md5).mpr hnot⟩

/-- A cache and a disk with nothing on them. -/
def emptyDisk : Disk Unit := ⟨fun _ => [], fun _ => none⟩

/-- A worker that finds no file. -/
def idleWorker : Worker Unit Unit := ⟨fun _ _ files => files, fun _ _ => .error ()⟩

/-- A key whose first field is empty, and one whose first field is a negative number. -/
theorem getRrd_panics :
    (∃ cfg, parseConfig [] 1 = some cfg ∧ initChannel cfg = some 1 ∧
        (getRrd cfg 1 idleWorker emptyDisk (utf8 "_GAUGE_60".toList)).1.isNone = true) ∧
      ∃ cfg, parseConfig [] 16 = some cfg ∧ initChannel cfg = some 16 ∧
        getIndex cfg (utf8 "-5".toList) = -5 ∧
        (getRrd cfg 16 idleWorker emptyDisk (utf8 "-5_GAUGE_60".toList)).1.isNone = true := by
  exact ⟨⟨⟨[], 1, 1⟩, rfl, rfl, rfl⟩, ⟨[], 16, 2⟩, rfl, rfl, rfl, rfl⟩

/-- The condition met, by the checksum of a series. -/
theorem getRrd_answers :
    ∃ answer, (getRrd ⟨[], 16, 2⟩ 16 idleWorker emptyDisk
      (utf8 "cfcd208495d565ef66e7dff9f98764da_GAUGE_60".toList)).1 = some answer := by
  have hconfig : parseConfig [] 16 = some ⟨[], 16, 2⟩ := rfl
  refine ((getRrd_total_iff (by decide) hconfig rfl idleWorker emptyDisk _).mpr ?_).1
  intro md5 dsType step hsplit
  have hfields : splitRrdCacheKey (utf8 "cfcd208495d565ef66e7dff9f98764da_GAUGE_60".toList) =
      .ok (utf8 "cfcd208495d565ef66e7dff9f98764da".toList, utf8 "GAUGE".toList, 60) := rfl
  rw [hfields] at hsplit
  obtain ⟨rfl, -⟩ := Prod.mk.inj (Except.ok.inj hsplit)
  refine ⟨by decide, ?_⟩
  rintro ⟨digits, rest, heq, -⟩
  exact absurd (List.cons.inj heq).1 (by decide)

end Raw
end OpenFalcon.Graph
