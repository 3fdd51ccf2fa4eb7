import OpenFalcon.Graph.Flushed
import OpenFalcon.Text.Lines

/-!
# Cache keys

A cache key is the checksum, the type and the step of a series with underscores between
them (`FormRrdCacheKey`), and `CommitByKey` takes it apart again (`SplitRrdCacheKey`): it
wants three parts, of which the last is a number of 32 bits.

`handleItems` looks at the endpoint and the counter of an item, but takes the type and the
step as they come.  A key splits back exactly if the type has no underscore in it and the
step fits into 32 bits (`splitRrdCacheKey_formRrdCacheKey_iff`); with any other type or step
the points of the series are cached and can never be flushed (`keys_flushable_iff`).

The checksum is 32 hexadecimal digits, and `IsMd5` says so; nothing else is assumed of it.
-/

namespace OpenFalcon.Graph

variable {F : Type} {md5 : String → String}

/-! ## Numbers and their texts -/

theorem parseDigits_toDigits (n : ℕ) : parseDigits (Nat.toDigits 10 n) = some n := by
  have hdigits : (Nat.toDigits 10 n).all Char.isDigit = true :=
    List.all_eq_true.mpr fun c hc => Nat.isDigit_of_mem_toDigits (by decide) (by decide) hc
  unfold parseDigits
  rw [if_pos ⟨Nat.toDigits_ne_nil, hdigits⟩]
  exact congrArg some (Nat.ofDigitChars_ten_toDigits (n := n))

theorem toDigits_eq_cons (n : ℕ) : ∃ c rest, Nat.toDigits 10 n = c :: rest ∧ c ≠ '+' ∧ c ≠ '-' := by
  obtain ⟨c, rest, hcons⟩ := List.exists_cons_of_ne_nil (Nat.toDigits_ne_nil (n := n) (b := 10))
  have hdigit : c.isDigit = true := by
    refine Nat.isDigit_of_mem_toDigits (b := 10) (n := n) (by decide) (by decide) ?_
    rw [hcons]
    exact List.mem_cons_self
  refine ⟨c, rest, hcons, ?_, ?_⟩
  · rintro rfl
    cases hdigit
  · rintro rfl
    cases hdigit

/-- **`ParseInt` reads what `Itoa` wrote, if it fits into 32 bits.** -/
theorem parseInt32_toString (n : Int) :
    parseInt32 (toString n).toList =
      if -2 ^ 31 ≤ n ∧ n < 2 ^ 31 then .ok n else .error "value out of range" := by
  cases n with
  | ofNat n =>
    rw [Text.toList_toString_ofNat]
    obtain ⟨c, rest, hcons, hplus, hminus⟩ := toDigits_eq_cons n
    have hparse := parseDigits_toDigits n
    rw [hcons] at hparse ⊢
    unfold parseInt32
    split
    · rename_i heq
      exact absurd (List.cons.inj heq).1 hplus
    · rename_i heq
      exact absurd (List.cons.inj heq).1 hminus
    · rw [hparse]
      rfl
  | negSucc n =>
    rw [Text.toList_toString_negSucc]
    unfold parseInt32
    split
    · rename_i heq
      exact absurd (List.cons.inj heq).1 (by decide)
    · rename_i heq
      rw [← (List.cons.inj heq).2, parseDigits_toDigits]
      rfl
    · rename_i hminus
      exact absurd rfl (hminus _)

/-! ## Splitting a key -/

theorem two_le_length_splitOn {c : Char} {l : List Char} (h : c ∈ l) :
    2 ≤ (l.splitOn c).length := by
  obtain ⟨before, behind, rfl⟩ := List.append_of_mem h
  have hbefore := List.length_pos_of_ne_nil (List.splitOn_ne_nil c before)
  have hbehind := List.length_pos_of_ne_nil (List.splitOn_ne_nil c behind)
  rw [List.splitOn_append_cons_self, List.length_append]
  omega

theorem splitOn_formRrdCacheKey {md5 : String} (hmd5 : '_' ∉ md5.toList) (dsType : String)
    (step : Int) :
    (formRrdCacheKey md5 dsType step).toList.splitOn '_' =
      md5.toList :: (dsType.toList.splitOn '_' ++ [(toString step).toList]) := by
  have htext : (formRrdCacheKey md5 dsType step).toList =
      md5.toList ++ '_' :: (dsType.toList ++ '_' :: (toString step).toList) := by
    unfold formRrdCacheKey
    simp only [String.toList_append]
    simp
  rw [htext, List.splitOn_append_cons_self_of_not_mem hmd5, List.splitOn_append_cons_self,
    List.splitOn_eq_singleton (Text.notMem_toString step (by decide) (by decide))]

/-- The type has no underscore in it, and the step fits into 32 bits. -/
def Splittable (dsType : String) (step : Int) : Prop :=
  '_' ∉ dsType.toList ∧ -2 ^ 31 ≤ step ∧ step < 2 ^ 31

instance (dsType : String) (step : Int) : Decidable (Splittable dsType step) :=
  inferInstanceAs (Decidable (_ ∧ _))

variable {dsType : String}

theorem splitRrdCacheKey_of_splittable {md5 : String} (hmd5 : '_' ∉ md5.toList) {step : Int}
    (h : Splittable dsType step) :
    splitRrdCacheKey (formRrdCacheKey md5 dsType step) = (md5, dsType, step, none) := by
  unfold splitRrdCacheKey
  rw [splitOn_formRrdCacheKey hmd5, List.splitOn_eq_singleton h.1, List.singleton_append]
  dsimp only
  rw [parseInt32_toString, if_pos h.2, String.ofList_toList, String.ofList_toList]

theorem splitRrdCacheKey_of_not_splittable {md5 : String} (hmd5 : '_' ∉ md5.toList) {step : Int}
    (h : ¬ Splittable dsType step) :
    (splitRrdCacheKey (formRrdCacheKey md5 dsType step)).2.2.2.isSome = true := by
  unfold splitRrdCacheKey
  rw [splitOn_formRrdCacheKey hmd5]
  by_cases htype : '_' ∈ dsType.toList
  · -- There are more than three parts.
    have hlength := two_le_length_splitOn htype
    split
    · rename_i parts hparts
      have := congrArg List.length hparts
      simp only [List.length_cons, List.length_append, List.length_nil] at this
      omega
    · rfl
  · have hstep : ¬ (-2 ^ 31 ≤ step ∧ step < 2 ^ 31) := fun hstep => h ⟨htype, hstep⟩
    rw [List.splitOn_eq_singleton htype, List.singleton_append]
    dsimp only
    rw [parseInt32_toString, if_neg hstep]
    rfl

/-- **When a key splits back into what it was made of.** -/
theorem splitRrdCacheKey_formRrdCacheKey_iff {md5 : String} (hmd5 : '_' ∉ md5.toList)
    (dsType : String) (step : Int) :
    splitRrdCacheKey (formRrdCacheKey md5 dsType step) = (md5, dsType, step, none) ↔
      Splittable dsType step := by
  refine ⟨fun h => ?_, splitRrdCacheKey_of_splittable hmd5⟩
  by_contra hnot
  have herr := splitRrdCacheKey_of_not_splittable hmd5 hnot
  rw [h] at herr
  cases herr

theorem splitRrdCacheKey_formRrdCacheKey_gauge :
    splitRrdCacheKey (formRrdCacheKey "0a" "GAUGE" 60) = ("0a", "GAUGE", 60, none) :=
  (splitRrdCacheKey_formRrdCacheKey_iff (by decide) "GAUGE" 60).mpr (by decide)

/-! ## Checksums -/

/-- What is known of a checksum: `Md5` prints 16 bytes as hexadecimal digits. -/
structure IsMd5 (md5 : String → String) : Prop where
  length : ∀ s, (md5 s).toList.length = 32
  hex : ∀ s, ∀ c ∈ (md5 s).toList, c ∈ "0123456789abcdef".toList

theorem IsMd5.underscore_notMem (h : IsMd5 md5) (s : String) : '_' ∉ (md5 s).toList := by
  intro hmem
  exact absurd (h.hex s '_' hmem) (by decide)

/-- A key tells its checksum, as checksums are of one length. -/
theorem IsMd5.eq_of_formRrdCacheKey_eq (h : IsMd5 md5) {name name' dsType' : String}
    {step step' : Int}
    (hkey : formRrdCacheKey (md5 name) dsType step = formRrdCacheKey (md5 name') dsType' step') :
    md5 name = md5 name' := by
  unfold formRrdCacheKey at hkey
  rw [← String.toList_inj] at hkey
  simp only [String.toList_append, List.append_assoc] at hkey
  have hlength := (h.length name).trans (h.length name').symm
  exact String.toList_inj.mp (List.append_inj hkey hlength).1

theorem IsMd5.not_panics (h : IsMd5 md5) (s : String) : rrdFileNamePanics (md5 s) = false := by
  have hlength := h.length s
  refine decide_eq_false ?_
  rw [← String.utf8Len_toList]
  match hlist : (md5 s).toList with
  | [] => simp [hlist] at hlength
  | [_] => simp [hlist] at hlength
  | c :: c' :: rest =>
    have hc := c.utf8Size_pos
    have hc' := c'.utf8Size_pos
    simp only [String.utf8Len_cons]
    omega

theorem isSome_split_itemKey {env : NodeEnv} (hmd5 : IsMd5 env.md5) {item : GraphItem F}
    (h : ¬ Splittable item.dsType item.step) :
    (splitRrdCacheKey (itemKey env item)).2.2.2.isSome = true := by
  have hno : '_' ∉ (checksum env item).toList := hmd5.underscore_notMem _
  exact splitRrdCacheKey_of_not_splittable hno h

/-- **A key of an item can be flushed exactly if its type and step are right.** -/
theorem flushable_itemKey_iff {env : NodeEnv} (hmd5 : IsMd5 env.md5) (item : GraphItem F) :
    Flushable (itemKey env item) ↔ Splittable item.dsType item.step := by
  constructor
  · intro h
    by_contra hnot
    have herr := isSome_split_itemKey hmd5 hnot
    rw [h.1] at herr
    cases herr
  · intro h
    have hno : '_' ∉ (checksum env item).toList := hmd5.underscore_notMem _
    unfold Flushable itemKey
    rw [splitRrdCacheKey_of_splittable hno h]
    exact ⟨rfl, hmd5.not_panics _⟩

/-! ## The keys of the cache -/

namespace Node

theorem mem_of_first_eq_some {s : Node F} {key : String} {item : GraphItem F}
    (h : s.first key = some item) : key ∈ s.graphItems := by
  unfold first GraphItemMap.first at h
  obtain ⟨sl, hsl, -⟩ := Option.bind_eq_some_iff.mp h
  exact AList.lookup_isSome.mp (by rw [hsl]; rfl)

variable (env : NodeEnv)

theorem mem_pushFront_iff (s : Node F) (item : GraphItem F) (key : String) :
    key ∈ (s.pushFront env item).graphItems ↔ key ∈ s.graphItems ∨ itemKey env item = key := by
  rw [← AList.lookup_isSome, ← AList.lookup_isSome]
  unfold pushFront
  rw [GraphItemMap.lookup_pushFront]
  split
  · rename_i hkey
    exact iff_of_true rfl (Or.inr hkey.symm)
  · rename_i hkey
    exact ⟨Or.inl, fun h => h.resolve_right fun h => hkey h.symm⟩

/-- An item that is valid has its key in the cache afterwards, whether it is taken or not. -/
theorem mem_handleItem_iff (s : Node F) (item : Option (GraphItem F)) (key : String) :
    key ∈ (s.handleItem env item).graphItems ↔
      key ∈ s.graphItems ∨
        ∃ it, item = some it ∧ isValidItem env it = true ∧ itemKey env it = key := by
  cases item with
  | none => simp [handleItem]
  | some item =>
    rw [handleItem_some]
    simp only [Option.some_inj, exists_eq_left']
    cases htakes : s.takes env item with
    | true =>
      have hvalid : isValidItem env item = true := (Bool.and_eq_true_iff.mp htakes).1
      rw [if_pos rfl, mem_pushFront_iff]
      simp only [hvalid, true_and]
    | false =>
      rw [if_neg Bool.false_ne_true]
      refine ⟨Or.inl, ?_⟩
      rintro (hmem | ⟨hvalid, rfl⟩)
      · exact hmem
      · -- A valid item that is not taken has found a newer one.
        unfold takes at htakes
        rw [hvalid, Bool.true_and] at htakes
        cases hfirst : s.first (itemKey env item) with
        | none =>
          rw [hfirst] at htakes
          cases htakes
        | some first => exact mem_of_first_eq_some hfirst

/-- **The keys `handleItems` inserts are those of the valid items.** -/
theorem mem_handleItems_iff (s : Node F) (items : List (Option (GraphItem F))) (key : String) :
    key ∈ (s.handleItems env items).graphItems ↔
      key ∈ s.graphItems ∨
        ∃ item, some item ∈ items ∧ isValidItem env item = true ∧ itemKey env item = key := by
  induction items generalizing s with
  | nil => simp [handleItems]
  | cons item items ih =>
    refine (ih (s.handleItem env item)).trans ?_
    rw [mem_handleItem_iff]
    constructor
    · rintro ((hmem | ⟨it, rfl, hit⟩) | ⟨it, hmem, hit⟩)
      · exact Or.inl hmem
      · exact Or.inr ⟨it, List.mem_cons_self, hit⟩
      · exact Or.inr ⟨it, List.mem_cons_of_mem _ hmem, hit⟩
    · rintro (hmem | ⟨it, hmem, hit⟩)
      · exact Or.inl (Or.inl hmem)
      · rcases List.mem_cons.mp hmem with rfl | hmem
        · exact Or.inl (Or.inr ⟨it, rfl, hit⟩)
        · exact Or.inr ⟨it, hmem, hit⟩

end Node

/-- **Every key a batch inserts can be flushed exactly if every new series in it has a type
without underscore and a step of 32 bits.**  A key can be flushed if it splits back into the
checksum, the type and the step of its item, without error, and `CommitByKey` leaves nothing
of it in the cache. -/
theorem keys_flushable_iff {env : NodeEnv} (hmd5 : IsMd5 env.md5) (s : Node F)
    (items : List (Option (GraphItem F))) :
    (∀ key, key ∈ (s.handleItems env items).graphItems → key ∉ s.graphItems →
        (∃ item, some item ∈ items ∧ itemKey env item = key ∧
          splitRrdCacheKey key = (checksum env item, item.dsType, item.step, none)) ∧
        ∀ fault, ((s.handleItems env items).commitByKey env.cfg key fault).cached key = []) ↔
      ∀ item, some item ∈ items → isValidItem env item = true →
        itemKey env item ∉ s.graphItems → Splittable item.dsType item.step := by
  constructor
  · intro h item hitem hvalid hnew
    have hmem : itemKey env item ∈ (s.handleItems env items).graphItems :=
      (Node.mem_handleItems_iff env s items _).mpr (Or.inr ⟨item, hitem, hvalid, rfl⟩)
    obtain ⟨⟨it, -, -, hsplit⟩, -⟩ := h _ hmem hnew
    by_contra hnot
    have herr := isSome_split_itemKey hmd5 hnot
    rw [hsplit] at herr
    cases herr
  · intro h key hmem hnew
    obtain ⟨item, hitem, hvalid, rfl⟩ :=
      ((Node.mem_handleItems_iff env s items key).mp hmem).resolve_left hnew
    have hsplittable := h item hitem hvalid hnew
    refine ⟨⟨item, hitem, rfl, ?_⟩, fun fault => ?_⟩
    · exact splitRrdCacheKey_of_splittable (hmd5.underscore_notMem _) hsplittable
    · exact Node.cached_commitByKey ((flushable_itemKey_iff hmd5 item).mpr hsplittable) _ _ _

theorem isMd5_loadEnv : IsMd5 loadEnv.md5 := by
  have hdigits : (loadMd5.toList.all fun c => "0123456789abcdef".toList.contains c) = true := by
    decide +kernel
  simp only [List.all_eq_true, List.contains_iff_mem] at hdigits
  exact ⟨fun _ => show loadMd5.toList.length = 32 by decide +kernel, fun _ => hdigits⟩

theorem keys_flushable_gauge :
    IsMd5 loadEnv.md5 ∧
      ∀ key, key ∈ ((Node.started []).handleItems loadEnv [some (gaugeItem 60)]).graphItems →
        key ∉ (Node.started [] : Node Unit).graphItems →
        (∃ item, some item ∈ [some (gaugeItem 60)] ∧ itemKey loadEnv item = key ∧
          splitRrdCacheKey key = (checksum loadEnv item, item.dsType, item.step, none)) ∧
        ∀ fault, (((Node.started []).handleItems loadEnv [some (gaugeItem 60)]).commitByKey
          loadEnv.cfg key fault).cached key = [] := by
  refine ⟨isMd5_loadEnv, (keys_flushable_iff isMd5_loadEnv _ _).mpr fun item hitem _ _ => ?_⟩
  obtain rfl : item = gaugeItem 60 := by simpa using hitem
  decide

/-- A point of a series with another type and step. -/
def typedItem (dsType : String) (step : Int) : GraphItem Unit :=
  { gaugeItem 60 with dsType := dsType, step := step }

/-- A type with an underscore in it, and a step that needs 33 bits: the key does not split,
and the point stays in the cache. -/
theorem unflushable_keys :
    let s := (Node.started []).handleItems loadEnv
      [some (typedItem "GAUGE_1M" 60), some (typedItem "GAUGE" 2147483648)]
    let key₁ := itemKey loadEnv (typedItem "GAUGE_1M" 60)
    let key₂ := itemKey loadEnv (typedItem "GAUGE" 2147483648)
    (splitRrdCacheKey key₁).2.2.2 = some (.plain ("bad rrd cache key: " ++ key₁)) ∧
      (s.commitByKey loadEnv.cfg key₁ .none).cached key₁ = [typedItem "GAUGE_1M" 60] ∧
      (splitRrdCacheKey key₂).2.2.2 =
        some (.plain "strconv.ParseInt: parsing \"2147483648\": value out of range") ∧
      (s.commitByKey loadEnv.cfg key₂ .none).cached key₂ = [typedItem "GAUGE" 2147483648] := by
  refine ⟨by decide, rfl, by decide, rfl⟩

end OpenFalcon.Graph
