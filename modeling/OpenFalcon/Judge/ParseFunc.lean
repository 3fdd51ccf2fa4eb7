import OpenFalcon.Judge.Func
import OpenFalcon.Text.Cut

/-!
# Reading an alarm function

`ParseFuncFromString` of `modules/judge/store/func.go`.  The text is a Go string, so a list
of bytes.  The parser looks for the first `#`, reads everything between it and the last byte
as integers with commas between them, and takes everything up to two bytes before the `#`
as the name; the two bytes it skips, before the `#` and at the end, it does not look at, nor
does it look whether the slices exist and whether there are as many arguments as the
function has.

The texts it is for are `name(#a)` and `name(#a,b)` (`Written`).  It never panics on a text
and reads exactly these, exactly if the text is `Careful`
(`parseFuncFromString_readsExactly_iff`).
-/

namespace OpenFalcon.Judge

open Numeric Text

variable {F : Type}

/-- A Go `string`. -/
abbrev Bytes := List UInt8

/-- The bytes of a text of ASCII characters. -/
def ascii (s : String) : Bytes := s.toList.map fun c => c.toNat.toUInt8

/-- The errors of `ParseFuncFromString`: `func can not be null!`, the error of `strconv.Atoi`
on an argument, and `not_supported_method`. -/
inductive FuncErr where
  | null
  | atoi (arg : Bytes)
  | notSupportedMethod
  deriving DecidableEq

/-- The value of decimal digits. -/
def digitsValue (digits : Bytes) : Option ℕ :=
  if digits ≠ [] ∧ digits.all fun b => 48 ≤ b ∧ b ≤ 57 then
    some (digits.foldl (fun n b => 10 * n + (b.toNat - 48)) 0)
  else none

/-- `strconv.Atoi`: a sign or none, and decimal digits, of a number of 64 bits. -/
def atoi (s : Bytes) : Option Int :=
  let value : Option Int :=
    match s with
    | 43 :: digits => (digitsValue digits).map Int.ofNat
    | 45 :: digits => (digitsValue digits).map fun n => -Int.ofNat n
    | digits => (digitsValue digits).map Int.ofNat
  value.filter fun n => -2 ^ 63 ≤ n ∧ n < 2 ^ 63

/-- The loop of `atois`: up to the first text that is not an integer. -/
def atoisLoop : List Bytes → Except FuncErr (List Int)
  | [] => .ok []
  | v :: vs =>
    match atoi v with
    | none => .error (.atoi v)
    | some n => (atoisLoop vs).map fun ret => n :: ret

/-- `atois`: integers with commas between them. -/
def atois (s : Bytes) : Except FuncErr (List Int) :=
  atoisLoop (s.splitOn 44)

/-- The functions of one argument. -/
def oneArgFunctions : List (Bytes × (Int → FuncName)) :=
  [(ascii "max", .max), (ascii "min", .min), (ascii "all", .all), (ascii "sum", .sum),
    (ascii "avg", .avg), (ascii "diff", .diff), (ascii "pdiff", .pdiff),
    (ascii "stddev", .stddev)]

/-- The functions of two arguments. -/
def twoArgFunctions : List (Bytes × (Int → Int → FuncName)) :=
  [(ascii "lookup", .lookup), (ascii "kdiff", .kdiff), (ascii "kpdiff", .kpdiff)]

/-- The function of one argument with a name. -/
def oneArg (name : Bytes) : Option (Int → FuncName) := oneArgFunctions.lookup name

/-- The function of two arguments with a name. -/
def twoArgs (name : Bytes) : Option (Int → Int → FuncName) := twoArgFunctions.lookup name

/-- The `switch` of `ParseFuncFromString`.  An argument that is not there is a panic. -/
def funcName (name : Bytes) (args : List Int) : Option (Except FuncErr FuncName) :=
  match oneArg name, twoArgs name with
  | some f, _ => args[0]?.map fun limit => .ok (f limit)
  | none, some f => args[0]?.bind fun num => args[1]?.map fun limit => .ok (f num limit)
  | none, none => some (.error .notSupportedMethod)

/-- `ParseFuncFromString`.  A slice out of bounds is a panic. -/
def parseFuncFromString (str : Bytes) (operator : String) (rightValue : F) :
    Option (Except FuncErr (Function F)) :=
  if str = [] then some (.error .null)
  else
    let idx := index 35 str
    (slice str (idx + 1) (str.length - 1)).bind fun argText =>
      match atois argText with
      | .error e => some (.error e)
      | .ok args =>
        (slice str 0 (idx - 1)).bind fun name =>
          (funcName name args).map fun r => r.map fun n => ⟨n, operator, rightValue⟩

/-- The texts that are alarm functions: `name(#a)` and `name(#a,b)`. -/
inductive Written : Bytes → FuncName → Prop where
  | one {name text : Bytes} {f : Int → FuncName} {a : Int} (hname : oneArg name = some f)
      (ha : atoi text = some a) : Written (name ++ ascii "(#" ++ text ++ ascii ")") (f a)
  | two {name text₁ text₂ : Bytes} {f : Int → Int → FuncName} {a b : Int}
      (hname : twoArgs name = some f) (ha : atoi text₁ = some a) (hb : atoi text₂ = some b) :
      Written (name ++ ascii "(#" ++ text₁ ++ ascii "," ++ text₂ ++ ascii ")") (f a b)

example : (parseFuncFromString (ascii "max(#3)") ">" ()).map (fun r => r.map Function.name) =
    some (.ok (.max 3)) := by decide

/-! ## Arguments -/

variable {str s name pre : Bytes} {f : Int → Int → FuncName} {n : FuncName} {operator : String}
  {args : List Int} {rightValue : F} {a : Int}

theorem digit_of_digitsValue {n : ℕ} (h : digitsValue s = some n) : ∀ b ∈ s, 48 ≤ b ∧ b ≤ 57 := by
  unfold digitsValue at h
  split at h
  case isTrue hs => simpa using hs.2
  case isFalse => simp at h

theorem comma_notMem_of_atoi (h : atoi s = some a) : (44 : UInt8) ∉ s := by
  have hdigits : ∀ {t : Bytes} {n : ℕ}, digitsValue t = some n → (44 : UInt8) ∉ t :=
    fun hn hmem => absurd (digit_of_digitsValue hn _ hmem).1 (by decide)
  obtain ⟨hvalue, -⟩ := Option.filter_eq_some_iff.mp h
  split at hvalue
  · obtain ⟨n, hn, -⟩ := Option.map_eq_some_iff.mp hvalue
    simp [hdigits hn]
  · obtain ⟨n, hn, -⟩ := Option.map_eq_some_iff.mp hvalue
    simp [hdigits hn]
  · obtain ⟨n, hn, -⟩ := Option.map_eq_some_iff.mp hvalue
    exact hdigits hn

theorem atoisLoop_eq_ok_iff {vs : List Bytes} :
    atoisLoop vs = .ok args ↔ List.Forall₂ (fun v n => atoi v = some n) vs args := by
  induction vs generalizing args with
  | nil => simp [atoisLoop, eq_comm]
  | cons v vs ih =>
    rw [atoisLoop, List.forall₂_cons_left_iff]
    cases hv : atoi v with
    | none => simp
    | some n =>
      have hmap : ∀ r : Except FuncErr (List Int),
          (r.map fun ret => n :: ret) = .ok args ↔ ∃ ret, r = .ok ret ∧ args = n :: ret := by
        intro r
        cases r <;> simp [Except.map, eq_comm]
      simp only [hmap, ih, Option.some_inj]
      constructor
      · rintro ⟨ret, hret, rfl⟩
        exact ⟨n, ret, rfl, hret, rfl⟩
      · rintro ⟨_, ret, rfl, hret, rfl⟩
        exact ⟨ret, hret, rfl⟩

theorem atois_eq_ok_iff :
    atois s = .ok args ↔ List.Forall₂ (fun v n => atoi v = some n) (s.splitOn 44) args :=
  atoisLoop_eq_ok_iff

theorem args_ne_nil_of_atois (h : atois s = .ok args) : args ≠ [] := by
  rintro rfl
  exact List.splitOn_ne_nil 44 s (List.forall₂_nil_right_iff.mp (atois_eq_ok_iff.mp h))

theorem atois_eq_singleton_iff : atois s = .ok [a] ↔ atoi s = some a := by
  rw [atois_eq_ok_iff]
  constructor
  · intro h
    obtain ⟨v, vs, hv, hvs, hsplit⟩ := List.forall₂_cons_right_iff.mp h
    obtain rfl : vs = [] := List.forall₂_nil_right_iff.mp hvs
    have hs : [44].intercalate (s.splitOn 44) = s := List.intercalate_splitOn 44
    rw [hsplit, List.intercalate_singleton] at hs
    rwa [← hs]
  · intro ha
    rw [List.splitOn_eq_singleton (comma_notMem_of_atoi ha)]
    exact List.Forall₂.cons ha List.Forall₂.nil

theorem atois_eq_pair_iff {b : Int} :
    atois s = .ok [a, b] ↔
      ∃ text₁ text₂, s = text₁ ++ 44 :: text₂ ∧ atoi text₁ = some a ∧ atoi text₂ = some b := by
  rw [atois_eq_ok_iff]
  constructor
  · intro h
    obtain ⟨text₁, vs, ha, hvs, hsplit⟩ := List.forall₂_cons_right_iff.mp h
    obtain ⟨text₂, vs', hb, hvs', rfl⟩ := List.forall₂_cons_right_iff.mp hvs
    obtain rfl : vs' = [] := List.forall₂_nil_right_iff.mp hvs'
    have hs : [44].intercalate (s.splitOn 44) = s := List.intercalate_splitOn 44
    rw [hsplit, List.intercalate_cons_cons, List.intercalate_singleton] at hs
    exact ⟨text₁, text₂, by simpa using hs.symm, ha, hb⟩
  · rintro ⟨text₁, text₂, rfl, ha, hb⟩
    rw [List.splitOn_append_cons_self_of_not_mem (comma_notMem_of_atoi ha),
      List.splitOn_eq_singleton (comma_notMem_of_atoi hb)]
    exact List.Forall₂.cons ha (List.Forall₂.cons hb List.Forall₂.nil)

/-! ## The parser by the first `#` -/

theorem parseFuncFromString_nil (operator : String) (rightValue : F) :
    parseFuncFromString [] operator rightValue = some (.error .null) :=
  if_pos rfl

variable {last : UInt8}

/-- Without a `#`, the text up to its last byte is read as the arguments, and the name is
out of bounds. -/
theorem parseFuncFromString_of_notMem {init : Bytes} (h : (35 : UInt8) ∉ init ++ [last])
    (operator : String) (rightValue : F) :
    (∀ e, atois init = .error e →
        parseFuncFromString (init ++ [last]) operator rightValue = some (.error e)) ∧
      ∀ args, atois init = .ok args →
        parseFuncFromString (init ++ [last]) operator rightValue = none := by
  have hidx : index 35 (init ++ [last]) = -1 := index_of_notMem h
  have hargs : slice (init ++ [last]) (index 35 (init ++ [last]) + 1)
      ((init ++ [last]).length - 1) = some init := by
    refine slice_eq_some (show _ = [] ++ init ++ [last] from rfl) ?_ ?_
    · rw [hidx]
      rfl
    · simp
  have hname : slice (init ++ [last]) 0 (index 35 (init ++ [last]) - 1) = none := by
    rw [hidx]
    exact slice_eq_none (Or.inr (Or.inl (by decide)))
  constructor
  · intro e he
    simp only [parseFuncFromString, hargs, he, Option.bind_some, if_neg (List.concat_ne_nil _ _)]
  · intro args hok
    simp only [parseFuncFromString, hargs, hok, hname, Option.bind_some, Option.bind_none,
      if_neg (List.concat_ne_nil _ _)]

/-- A `#` at the end leaves no room for the arguments. -/
theorem parseFuncFromString_hash_last (hpre : (35 : UInt8) ∉ pre) (operator : String)
    (rightValue : F) : parseFuncFromString (pre ++ [35]) operator rightValue = none := by
  have hargs : slice (pre ++ [35]) (index 35 (pre ++ [35]) + 1) ((pre ++ [35]).length - 1) =
      none := by
    rw [index_append_cons hpre]
    refine slice_eq_none (Or.inr (Or.inl ?_))
    simp
  simp only [parseFuncFromString, hargs, Option.bind_none, if_neg (List.concat_ne_nil _ _)]

/-- With a `#` before the last byte, what stands between them is read as the arguments. -/
theorem parseFuncFromString_hash (hpre : (35 : UInt8) ∉ pre) (text : Bytes) (last : UInt8)
    (operator : String) (rightValue : F) :
    (∀ e, atois text = .error e →
        parseFuncFromString (pre ++ 35 :: (text ++ [last])) operator rightValue =
          some (.error e)) ∧
      ∀ args, atois text = .ok args →
        parseFuncFromString (pre ++ 35 :: (text ++ [last])) operator rightValue =
          (slice (pre ++ 35 :: (text ++ [last])) 0 (pre.length - 1)).bind fun name =>
            (funcName name args).map fun r => r.map fun n => ⟨n, operator, rightValue⟩ := by
  have hidx := index_append_cons hpre (text ++ [last])
  have hargs : slice (pre ++ 35 :: (text ++ [last])) (pre.length + 1)
      ((pre ++ 35 :: (text ++ [last])).length - 1) = some text := by
    refine slice_eq_some (show _ = (pre ++ [35]) ++ text ++ [last] by simp) (by simp) ?_
    simp only [List.length_append, List.length_cons, List.length_nil]
    omega
  have hne : pre ++ 35 :: (text ++ [last]) ≠ [] := by simp
  constructor
  · intro e he
    simp only [parseFuncFromString, hidx, hargs, he, Option.bind_some, if_neg hne]
  · intro args hok
    simp only [parseFuncFromString, hidx, hargs, hok, Option.bind_some, if_neg hne]

/-- A `#` at the beginning leaves no room for the name. -/
theorem slice_name_nil (post : Bytes) :
    slice ([] ++ 35 :: post) 0 (([] : Bytes).length - 1) = none :=
  slice_eq_none (Or.inr (Or.inl (by decide)))

/-- The name goes up to two bytes before the `#`. -/
theorem slice_name_concat (name : Bytes) (c : UInt8) (post : Bytes) :
    slice (name ++ [c] ++ 35 :: post) 0 ((name ++ [c]).length - 1) = some name := by
  refine slice_eq_some (show _ = [] ++ name ++ (c :: 35 :: post) by simp) rfl ?_
  simp

/-! ## The texts it is for -/

theorem mem_of_lookup_eq_some {β : Type} {l : List (Bytes × β)} {b : β}
    (h : l.lookup name = some b) : (name, b) ∈ l := by
  obtain ⟨l₁, l₂, rfl, -⟩ := List.lookup_eq_some_iff.mp h
  simp

theorem hash_notMem_of_oneArg {f : Int → FuncName} (h : oneArg name = some f) :
    (35 : UInt8) ∉ name := by
  have hall : ∀ p ∈ oneArgFunctions, (35 : UInt8) ∉ p.1 := by decide
  exact hall _ (mem_of_lookup_eq_some h)

theorem hash_notMem_of_twoArgs (h : twoArgs name = some f) : (35 : UInt8) ∉ name := by
  have hall : ∀ p ∈ twoArgFunctions, (35 : UInt8) ∉ p.1 := by decide
  exact hall _ (mem_of_lookup_eq_some h)

theorem oneArg_eq_none_of_twoArgs (h : twoArgs name = some f) : oneArg name = none := by
  have hall : ∀ p ∈ twoArgFunctions, (oneArg p.1).isNone := by decide
  exact Option.isNone_iff_eq_none.mp (hall _ (mem_of_lookup_eq_some h))

/-- The name and the arguments of a function. -/
def Applies (name : Bytes) (args : List Int) (n : FuncName) : Prop :=
  (∃ f a, oneArg name = some f ∧ args = [a] ∧ n = f a) ∨
    ∃ f a b, twoArgs name = some f ∧ args = [a, b] ∧ n = f a b

theorem hash_mem_of_written (h : Written str n) : (35 : UInt8) ∈ str := by
  cases h <;> simp [ascii]

theorem written_iff :
    Written str n ↔ ∃ name text args, str = name ++ [40] ++ 35 :: (text ++ [41]) ∧
      (35 : UInt8) ∉ name ++ [40] ∧ atois text = .ok args ∧ Applies name args n := by
  constructor
  · intro h
    cases h with
    | @one name text f a hname ha =>
      refine ⟨name, text, [a], by simp [ascii], ?_, atois_eq_singleton_iff.mpr ha, ?_⟩
      · simp [hash_notMem_of_oneArg hname]
      · exact Or.inl ⟨f, a, hname, rfl, rfl⟩
    | @two name text₁ text₂ f a b hname ha hb =>
      refine ⟨name, text₁ ++ 44 :: text₂, [a, b], by simp [ascii], ?_,
        atois_eq_pair_iff.mpr ⟨text₁, text₂, rfl, ha, hb⟩, ?_⟩
      · simp [hash_notMem_of_twoArgs hname]
      · exact Or.inr ⟨f, a, b, hname, rfl, rfl⟩
  · rintro ⟨name, text, args, rfl, -, hargs, ⟨f, a, hname, rfl, rfl⟩ | ⟨f, a, b, hname, rfl, rfl⟩⟩
    · have hwritten := Written.one hname (atois_eq_singleton_iff.mp hargs)
      simpa [ascii] using hwritten
    · obtain ⟨text₁, text₂, rfl, ha, hb⟩ := atois_eq_pair_iff.mp hargs
      have hwritten := Written.two hname ha hb
      simpa [ascii] using hwritten

/-- A written function has the parts that its first `#` cuts it into. -/
theorem written_cut_iff {post : Bytes} (hpre : (35 : UInt8) ∉ pre) :
    Written (pre ++ 35 :: post) n ↔ ∃ name text args, pre = name ++ [40] ∧ post = text ++ [41] ∧
      atois text = .ok args ∧ Applies name args n := by
  rw [written_iff]
  constructor
  · rintro ⟨name, text, args, hstr, hnot, hargs, happlies⟩
    obtain ⟨rfl, rfl⟩ := eq_of_append_cons_eq hpre hnot hstr
    exact ⟨name, text, args, rfl, rfl, hargs, happlies⟩
  · rintro ⟨name, text, args, rfl, rfl, hargs, happlies⟩
    exact ⟨name, text, args, rfl, hpre, hargs, happlies⟩

/-! ## When it reads exactly these -/

/-- The parser does not panic on the text, and returns a function exactly if the text is
one, with its arguments, the operator and the right value. -/
def ReadsExactly (str : Bytes) (operator : String) (rightValue : F) : Prop :=
  ∃ r, parseFuncFromString str operator rightValue = some r ∧
    ∀ fn, r = .ok fn ↔
      fn.operator = operator ∧ fn.rightValue = rightValue ∧ Written str fn.name

/-- A known name comes with its brackets and its number of arguments. -/
def Complete (name : Bytes) (c last : UInt8) (args : List Int) : Prop :=
  ((oneArg name).isSome → c = 40 ∧ last = 41 ∧ args.length = 1) ∧
    ((twoArgs name).isSome → c = 40 ∧ last = 41 ∧ args.length = 2)

/-- A text the parser is safe on.  Without a `#`, the text up to its last byte is not a list
of integers.  With one, it is not the last byte; and if a list of integers stands between it
and the last byte, it is not the first byte either, and a known name in front comes with its
brackets and its number of arguments. -/
structure Careful (str : Bytes) : Prop where
  noHash : (35 : UInt8) ∉ str → ∀ init last, str = init ++ [last] → ∀ args, atois init ≠ .ok args
  hash : ∀ pre post, str = pre ++ 35 :: post → (35 : UInt8) ∉ pre →
    ∃ text last, post = text ++ [last] ∧ ∀ args, atois text = .ok args →
      ∃ name c, pre = name ++ [c] ∧
        Complete name c last args

/-- Nothing is read from a text that gives an error and is no function. -/
theorem readsExactly_of_error {e : FuncErr}
    (h : parseFuncFromString str operator rightValue = some (.error e))
    (hnot : ∀ n, ¬Written str n) :
    ReadsExactly str operator rightValue :=
  ⟨_, h, fun fn => ⟨fun heq => by simp at heq, fun hfn => absurd hfn.2.2 (hnot fn.name)⟩⟩

theorem not_readsExactly_of_panic (h : parseFuncFromString str operator rightValue = none) :
    ¬ReadsExactly str operator rightValue := by
  rintro ⟨r, hr, -⟩
  exact absurd (h.symm.trans hr) (by simp)

/-- If a function is returned, the text must be it. -/
theorem readsExactly_iff_of_ok
    (h : parseFuncFromString str operator rightValue = some (.ok ⟨n, operator, rightValue⟩))
    (hunique : ∀ m, Written str m → m = n) :
    ReadsExactly str operator rightValue ↔ Written str n := by
  constructor
  · rintro ⟨r, hr, hfn⟩
    obtain rfl := Option.some.inj (h.symm.trans hr)
    exact ((hfn _).mp rfl).2.2
  · intro hn
    refine ⟨_, h, fun fn => ⟨?_, ?_⟩⟩
    · intro heq
      obtain rfl := Except.ok.inj heq
      exact ⟨rfl, rfl, hn⟩
    · rintro ⟨hop, hright, hwritten⟩
      obtain ⟨m, op, right⟩ := fn
      obtain rfl : op = operator := hop
      obtain rfl : right = rightValue := hright
      rw [hunique m hwritten]

section Named

variable {name text : Bytes} {c : UInt8} {args : List Int} {n : FuncName}

/-- With a name in front and arguments behind, only the brackets and the number of
arguments are left to be looked at. -/
theorem written_named_iff (hpre : (35 : UInt8) ∉ name ++ [c]) (hargs : atois text = .ok args) :
    Written (name ++ [c] ++ 35 :: (text ++ [last])) n ↔
      c = 40 ∧ last = 41 ∧ Applies name args n := by
  rw [written_cut_iff hpre]
  constructor
  · rintro ⟨name', text', args', hname, htext, hargs', happlies⟩
    obtain ⟨rfl, hc⟩ := List.append_inj' hname rfl
    obtain ⟨rfl, hlast⟩ := List.append_inj' htext rfl
    obtain rfl := Except.ok.inj (hargs.symm.trans hargs')
    exact ⟨(List.cons.inj hc).1, (List.cons.inj hlast).1, happlies⟩
  · rintro ⟨rfl, rfl, happlies⟩
    exact ⟨name, text, args, rfl, rfl, hargs, happlies⟩

theorem parseFuncFromString_named (hpre : (35 : UInt8) ∉ name ++ [c])
    (hargs : atois text = .ok args) (operator : String) (rightValue : F) :
    parseFuncFromString (name ++ [c] ++ 35 :: (text ++ [last])) operator rightValue =
      (funcName name args).map fun r => r.map fun n => ⟨n, operator, rightValue⟩ := by
  rw [(parseFuncFromString_hash hpre text last operator rightValue).2 args hargs,
    slice_name_concat, Option.bind_some]

/-- If the arguments give a function, they must give it by themselves, and the brackets must be
there. -/
theorem readsExactly_named_of_ok (hpre : (35 : UInt8) ∉ name ++ [c]) (hargs : atois text = .ok args)
    (operator : String) (rightValue : F) {P : Prop} (hfn : funcName name args = some (.ok n))
    (happlies : ∀ m, Applies name args m ↔ P ∧ m = n) :
    ReadsExactly (name ++ [c] ++ 35 :: (text ++ [last])) operator rightValue ↔
      c = 40 ∧ last = 41 ∧ P := by
  have hparse : parseFuncFromString (name ++ [c] ++ 35 :: (text ++ [last])) operator rightValue =
      some (.ok ⟨n, operator, rightValue⟩) := by
    rw [parseFuncFromString_named hpre hargs, hfn]
    rfl
  have hunique : ∀ m, Written (name ++ [c] ++ 35 :: (text ++ [last])) m → m = n := fun m hm =>
    ((happlies m).mp ((written_named_iff hpre hargs).mp hm).2.2).2
  rw [readsExactly_iff_of_ok hparse hunique, written_named_iff hpre hargs, happlies,
    and_iff_left rfl]

/-- **With a name in front and arguments behind**, a known name must come with its brackets
and its number of arguments. -/
theorem readsExactly_named_iff (hpre : (35 : UInt8) ∉ name ++ [c])
    (hargs : atois text = .ok args) (operator : String) (rightValue : F) :
    ReadsExactly (name ++ [c] ++ 35 :: (text ++ [last])) operator rightValue ↔
      Complete name c last args := by
  rw [Complete]
  have hparse : parseFuncFromString (name ++ [c] ++ 35 :: (text ++ [last])) operator rightValue =
      (funcName name args).map fun r => r.map fun n => ⟨n, operator, rightValue⟩ :=
    parseFuncFromString_named hpre hargs operator rightValue
  obtain ⟨a, rest, rfl⟩ := List.exists_cons_of_ne_nil (args_ne_nil_of_atois hargs)
  cases hone : oneArg name with
  | some f =>
    have htwo : twoArgs name = none := by
      cases htwo : twoArgs name with
      | none => rfl
      | some g => exact absurd (hone.symm.trans (oneArg_eq_none_of_twoArgs htwo)) (by simp)
    have hfn : funcName name (a :: rest) = some (.ok (f a)) := by simp [funcName, hone]
    have happlies : ∀ m, Applies name (a :: rest) m ↔ rest = [] ∧ m = f a := by
      intro m
      simp [Applies, hone, htwo]
    rw [readsExactly_named_of_ok hpre hargs operator rightValue hfn happlies, htwo]
    simp
  | none =>
    cases htwo : twoArgs name with
    | none =>
      have hfn : funcName name (a :: rest) = some (.error .notSupportedMethod) := by
        simp [funcName, hone, htwo]
      rw [hfn] at hparse
      have hread := readsExactly_of_error hparse fun n hn => by
        have happlies := ((written_named_iff hpre hargs).mp hn).2.2
        simp [Applies, hone, htwo] at happlies
      exact ⟨fun _ => ⟨by simp, by simp⟩, fun _ => hread⟩
    | some f =>
      cases rest with
      | nil =>
        have hfn : funcName name [a] = none := by simp [funcName, hone, htwo]
        rw [hfn] at hparse
        refine ⟨fun h => absurd h (not_readsExactly_of_panic hparse), fun h => ?_⟩
        exact absurd (h.2 rfl).2.2 (by simp)
      | cons b rest =>
        have hfn : funcName name (a :: b :: rest) = some (.ok (f a b)) := by
          simp [funcName, hone, htwo]
        have happlies : ∀ m, Applies name (a :: b :: rest) m ↔ rest = [] ∧ m = f a b := by
          intro m
          simp [Applies, hone, htwo]
        rw [readsExactly_named_of_ok hpre hargs operator rightValue hfn happlies]
        simp

end Named

section Hash

variable {pre : Bytes}

theorem careful_hash_iff (hpre : (35 : UInt8) ∉ pre) {text : Bytes} :
    Careful (pre ++ 35 :: (text ++ [last])) ↔ ∀ args, atois text = .ok args →
      ∃ name c, pre = name ++ [c] ∧ Complete name c last args := by
  constructor
  · intro h
    obtain ⟨text', last', hpost, hall⟩ := h.hash pre _ rfl hpre
    obtain ⟨rfl, hlast⟩ := List.append_inj' hpost rfl
    rwa [(List.cons.inj hlast).1]
  · intro h
    refine ⟨fun hnot => absurd (by simp) hnot, fun pre' post' hstr hpre' => ?_⟩
    obtain ⟨rfl, rfl⟩ := eq_of_append_cons_eq hpre hpre' hstr
    exact ⟨text, last, rfl, h⟩

theorem not_careful_hash_last (hpre : (35 : UInt8) ∉ pre) : ¬Careful (pre ++ [35]) := by
  intro h
  obtain ⟨text, last, hpost, -⟩ := h.hash pre [] rfl hpre
  exact absurd hpost (by simp)

theorem readsExactly_hash_iff (hpre : (35 : UInt8) ∉ pre) (text : Bytes) (last : UInt8)
    (operator : String) (rightValue : F) :
    ReadsExactly (pre ++ 35 :: (text ++ [last])) operator rightValue ↔
      ∀ args, atois text = .ok args →
        ∃ name c, pre = name ++ [c] ∧ Complete name c last args := by
  obtain ⟨herror, hok⟩ := parseFuncFromString_hash hpre text last operator rightValue
  cases hargs : atois text with
  | error e =>
    refine ⟨fun _ args h => by simp at h, fun _ => readsExactly_of_error (herror e hargs) ?_⟩
    intro n hn
    obtain ⟨name, text', args, -, hpost, hargs', -⟩ := (written_cut_iff hpre).mp hn
    obtain ⟨rfl, -⟩ := List.append_inj' hpost rfl
    exact absurd (hargs.symm.trans hargs') (by simp)
  | ok args =>
    rcases List.eq_nil_or_concat' pre with rfl | ⟨name, c, rfl⟩
    · have hpanic := hok args hargs
      rw [slice_name_nil, Option.bind_none] at hpanic
      refine ⟨fun h => absurd h (not_readsExactly_of_panic hpanic), fun h => ?_⟩
      obtain ⟨name, c, hpre', -⟩ := h args rfl
      exact absurd hpre' (by simp)
    · rw [readsExactly_named_iff hpre hargs]
      constructor
      · intro h args' hargs'
        obtain rfl := Except.ok.inj hargs'
        exact ⟨name, c, rfl, h⟩
      · intro h
        obtain ⟨name', c', hpre', h⟩ := h args rfl
        obtain ⟨rfl, hc⟩ := List.append_inj' hpre' rfl
        rwa [(List.cons.inj hc).1]

end Hash

/-- Without a `#`, nothing is a function, and a list of integers is a panic. -/
theorem readsExactly_noHash_iff (h : (35 : UInt8) ∉ str) (operator : String) (rightValue : F) :
    ReadsExactly str operator rightValue ↔ Careful str := by
  have hnot : ∀ n, ¬Written str n := fun n hn => h (hash_mem_of_written hn)
  have hcut : ∀ pre post, str = pre ++ 35 :: post → (35 : UInt8) ∉ pre → ∃ text last,
      post = text ++ [last] ∧ ∀ args, atois text = .ok args →
        ∃ name c, pre = name ++ [c] ∧ Complete name c last args := by
    rintro pre post rfl
    exact absurd (by simp) h
  rcases List.eq_nil_or_concat' str with rfl | ⟨init, last, rfl⟩
  · refine ⟨fun _ => ⟨fun _ init last hstr => absurd hstr (by simp), hcut⟩, fun _ => ?_⟩
    exact readsExactly_of_error (parseFuncFromString_nil operator rightValue) hnot
  · obtain ⟨herror, hok⟩ := parseFuncFromString_of_notMem h operator rightValue
    cases hargs : atois init with
    | error e =>
      refine ⟨fun _ => ⟨?_, hcut⟩, fun _ => readsExactly_of_error (herror e hargs) hnot⟩
      intro _ init' last' hstr args hok'
      obtain ⟨rfl, -⟩ := List.append_inj' hstr rfl
      exact absurd (hargs.symm.trans hok') (by simp)
    | ok args =>
      exact ⟨fun hread => absurd hread (not_readsExactly_of_panic (hok args hargs)),
        fun hcareful => absurd hargs (hcareful.noHash h init last rfl args)⟩

/-- **The parser is safe and exact on the careful texts**, for every operator and right
value, and on no other. -/
theorem parseFuncFromString_readsExactly_iff (str : Bytes) (operator : String) (rightValue : F) :
    ReadsExactly str operator rightValue ↔ Careful str := by
  by_cases hhash : (35 : UInt8) ∈ str
  · obtain ⟨pre, post, rfl, hpre⟩ := List.eq_append_cons_of_mem hhash
    rcases List.eq_nil_or_concat' post with rfl | ⟨text, last, rfl⟩
    · have hpanic := parseFuncFromString_hash_last hpre operator rightValue
      exact ⟨fun h => absurd h (not_readsExactly_of_panic hpanic),
        fun h => absurd h (not_careful_hash_last hpre)⟩
    · rw [readsExactly_hash_iff hpre, careful_hash_iff hpre]
  · exact readsExactly_noHash_iff hhash operator rightValue

/-- Texts of at most 16 characters that the parser panics on, because the name, the
arguments or the second argument are not there, and one it takes for a function. -/
theorem func_texts_misread :
    parseFuncFromString (ascii "35") ">" (QFloat.num 80) = none ∧
      parseFuncFromString (ascii "#3)") ">" (QFloat.num 80) = none ∧
      parseFuncFromString (ascii "max(#") ">" (QFloat.num 80) = none ∧
      parseFuncFromString (ascii "lookup(#3)") ">" (QFloat.num 80) = none ∧
      parseFuncFromString (ascii "max[#3,4]") ">" (QFloat.num 80) =
        some (.ok ⟨.max 3, ">", .num 80⟩) ∧ ∀ n, ¬Written (ascii "max[#3,4]") n := by
  refine ⟨rfl, rfl, rfl, rfl, rfl, fun n hn => ?_⟩
  obtain ⟨name, text, args, hstr, -⟩ := written_iff.mp hn
  have hopen : (40 : UInt8) ∈ ascii "max[#3,4]" := by rw [hstr]; simp
  exact absurd hopen (by decide)

end OpenFalcon.Judge
