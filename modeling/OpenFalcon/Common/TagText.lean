import OpenFalcon.Common.Tags
import OpenFalcon.Assoc.Collect
import OpenFalcon.Text.Record

/-!
# Tags and their texts

A tag map travels as a text `k=v,k=v,...`.  `SortedTags` writes it, in the order of the keys,
and two functions read it: `DictedTagstring`, at the intake of transfer, leaves out what it
cannot read, and `SplitTagsString`, where series are deleted, fails on it.  Both drop the
spaces first and let the last value of a key win.

What was read from a text has no separator in it (`CleanTags`).  Between such maps and their
texts nothing is lost: writing and reading again gives the same map
(`dictedTagstring_sortedTags`), so different maps have different texts
(`perm_of_sortedTags_eq`), and the written text is not longer than the one it came from
(`utf8ByteSize_sortedTags_le`).
-/

namespace OpenFalcon

theorem perm_entries_iff {K V : Type} [DecidableEq K] {m m' : GoMap K V} :
    m.entries.Perm m'.entries ↔ ∀ k, m.lookup k = m'.lookup k := by
  constructor
  · exact fun h k => AList.perm_lookup h
  · intro h
    refine List.lookup_ext m.nodupKeys m'.nodupKeys fun k v => ?_
    rw [show m.entries.dlookup k = m'.entries.dlookup k from h k]

namespace Common

open Text Assoc

/-! ## Writing -/

/-- The keys of a map, in their order. -/
def sortedKeys (tags : Tags) : List String := tags.keys.insertionSort (· ≤ ·)

theorem sortedTags_eq (tags : Tags) :
    sortedTags tags =
      ",".intercalate ((sortedKeys tags).map fun k => k ++ "=" ++ (tags.lookup k).getD "") := by
  obtain ⟨entries, hnodup⟩ := tags
  match entries with
  | [] => rfl
  | [⟨k, v⟩] =>
    have hlookup : AList.lookup k ⟨[⟨k, v⟩], hnodup⟩ = some v := List.dlookup_cons_eq _ _ _
    simp [sortedTags, sortedKeys, AList.keys, List.keys, hlookup]
  | _ :: _ :: _ => rfl

/-- The pairs `SortedTags` writes. -/
def sortedPairs (tags : Tags) : List (List Char × List Char) :=
  (sortedKeys tags).map fun k => (k.toList, ((tags.lookup k).getD "").toList)

theorem toList_sortedTags (tags : Tags) :
    (sortedTags tags).toList = render ',' '=' (sortedPairs tags) := by
  rw [sortedTags_eq, String.toList_intercalate, render, sortedPairs, List.map_map, List.map_map]
  congr 1
  refine List.map_congr_left fun k _ => ?_
  simp [field]

variable {tags tags' : Tags}

theorem mem_sortedKeys {k : String} : k ∈ sortedKeys tags ↔ ∃ v, tags.lookup k = some v := by
  rw [sortedKeys, List.mem_insertionSort, ← AList.mem_keys, ← AList.lookup_isSome,
    Option.isSome_iff_exists]

theorem nodup_sortedKeys (tags : Tags) : (sortedKeys tags).Nodup :=
  (List.perm_insertionSort _ _).nodup_iff.mpr tags.keys_nodup

theorem sortedKeys_congr (h : tags.entries.Perm tags'.entries) :
    sortedKeys tags = sortedKeys tags' := by
  have hkeys : (sortedKeys tags).Perm (sortedKeys tags') :=
    ((List.perm_insertionSort _ _).trans (h.map Sigma.fst)).trans
      (List.perm_insertionSort _ _).symm
  have hsorted : ∀ t : Tags, (sortedKeys t).Pairwise (· ≤ ·) := fun t =>
    List.pairwise_insertionSort _ _
  exact hkeys.eq_of_pairwise (fun a b _ _ => le_antisymm) (hsorted tags) (hsorted tags')

/-- **The text of a map does not depend on the order it is visited in.** -/
theorem sortedTags_congr (h : tags.entries.Perm tags'.entries) :
    sortedTags tags = sortedTags tags' := by
  rw [sortedTags_eq, sortedTags_eq, sortedKeys_congr h]
  simp only [fun k => (AList.perm_lookup h : tags.lookup k = tags'.lookup k)]

/-! ## Reading -/

/-- A text without its spaces. -/
def dropSpaces (s : String) : List Char := s.toList.filter (· ≠ ' ')

/-- `DictedTagstring`: a piece without `=` is left out. -/
def dictedTagstring (s : String) : Tags :=
  if s = "" then ∅
  else overrideAll ∅ (pairEntries ((records ',' '=' (dropSpaces s)).filterMap id))

/-- The loop of `SplitTagsString`: up to the first piece without `=`. -/
def splitTagsLoop : Tags → List (List Char) → Except String Tags
  | tags, [] => .ok tags
  | tags, tag :: rest =>
    match cut '=' tag with
    | some p => splitTagsLoop (tags.insert (String.ofList p.1) (String.ofList p.2)) rest
    | none => .error ("bad tag " ++ String.ofList tag)

/-- `SplitTagsString`. -/
def splitTagsString (s : String) : Except String Tags :=
  if dropSpaces s = [] then .ok ∅ else splitTagsLoop ∅ ((dropSpaces s).splitOn ',')

example : (dictedTagstring "a=1, b, a=2").entries = [⟨"a", "2"⟩] := by decide +kernel

example : splitTagsString "a=1, b" = .error "bad tag b" := by decide +kernel

/-- The tags of a text have no separators and no spaces in them. -/
def CleanTags (tags : Tags) : Prop :=
  ∀ k v, tags.lookup k = some v →
    Clean ',' '=' (k.toList, v.toList) ∧ ' ' ∉ k.toList ∧ ' ' ∉ v.toList

/-- What `DictedTagstring` leaves is one of the pairs it read. -/
theorem mem_records_of_lookup_dictedTagstring {s k v : String}
    (h : (dictedTagstring s).lookup k = some v) :
    some (k.toList, v.toList) ∈ records ',' '=' (dropSpaces s) := by
  unfold dictedTagstring at h
  split at h
  case isTrue => simp at h
  case isFalse =>
    rw [lookup_overrideAll_reverse, AList.lookup_empty, Option.or_none] at h
    have hmem := List.mem_reverse.mp (List.of_mem_dlookup h)
    obtain ⟨p, hp, heq⟩ := List.mem_map.mp hmem
    obtain ⟨rfl, hv⟩ := Sigma.mk.inj heq
    obtain rfl := eq_of_heq hv
    obtain ⟨o, ho, hid⟩ := List.mem_filterMap.mp hp
    rw [String.toList_ofList, String.toList_ofList]
    rwa [← hid]

theorem mem_dictedTagstring {s k : String} :
    k ∈ dictedTagstring s ↔ ∃ v, some (k.toList, v) ∈ records ',' '=' (dropSpaces s) := by
  constructor
  · intro h
    obtain ⟨v, hv⟩ := Option.isSome_iff_exists.mp (AList.lookup_isSome.mpr h)
    exact ⟨v.toList, mem_records_of_lookup_dictedTagstring hv⟩
  · rintro ⟨v, hv⟩
    have hs : s ≠ "" := by
      rintro rfl
      simp [records, dropSpaces, cut] at hv
    rw [dictedTagstring, if_neg hs, mem_overrideAll]
    refine Or.inr ⟨⟨k, String.ofList v⟩, List.mem_map.mpr ⟨(k.toList, v), ?_, ?_⟩, rfl⟩
    · exact List.mem_filterMap.mpr ⟨_, hv, rfl⟩
    · rw [String.ofList_toList]

/-- **What was read is clean.** -/
theorem cleanTags_dictedTagstring (s : String) : CleanTags (dictedTagstring s) := by
  intro k v h
  have hmem := mem_records_of_lookup_dictedTagstring h
  have hspace : ' ' ∉ field '=' (k.toList, v.toList) := fun hin => by
    have hin' := (mem_piece (field_mem_of_mem_records hmem) hin).1
    simp [dropSpaces] at hin'
  refine ⟨clean_of_mem_records hmem, fun hk => hspace ?_, fun hv => hspace ?_⟩
  · exact List.mem_append_left _ hk
  · exact List.mem_append_right _ (List.mem_cons_of_mem _ hv)

/-! ## Writing what was read -/

theorem mem_sortedPairs {p : List Char × List Char} (h : p ∈ sortedPairs tags) :
    ∃ k v, tags.lookup k = some v ∧ p = (k.toList, v.toList) := by
  obtain ⟨k, hk, rfl⟩ := List.mem_map.mp h
  obtain ⟨v, hv⟩ := mem_sortedKeys.mp hk
  exact ⟨k, v, hv, by rw [hv]; rfl⟩

theorem sortedPairs_eq_nil_iff : sortedPairs tags = [] ↔ tags.entries = [] := by
  rw [sortedPairs, List.map_eq_nil_iff, sortedKeys]
  constructor
  · intro h
    have hkeys : tags.keys = [] := by
      have hperm := List.perm_insertionSort (· ≤ ·) tags.keys
      rw [h] at hperm
      exact hperm.nil_eq.symm
    exact List.map_eq_nil_iff.mp hkeys
  · intro h
    rw [AList.keys, List.keys, h]
    rfl

theorem CleanTags.of_mem_sortedPairs (h : CleanTags tags) {p : List Char × List Char}
    (hp : p ∈ sortedPairs tags) : Clean ',' '=' p ∧ ' ' ∉ field '=' p := by
  obtain ⟨k, v, hkv, rfl⟩ := mem_sortedPairs hp
  obtain ⟨hclean, hk, hv⟩ := h k v hkv
  exact ⟨hclean, by simp [field, hk, hv]⟩

theorem CleanTags.dropSpaces_sortedTags (h : CleanTags tags) :
    dropSpaces (sortedTags tags) = render ',' '=' (sortedPairs tags) := by
  rw [dropSpaces, toList_sortedTags, List.filter_eq_self]
  intro c hc
  rcases mem_intercalate hc with rfl | ⟨s, hs, hcs⟩
  · decide
  · obtain ⟨p, hp, rfl⟩ := List.mem_map.mp hs
    rw [decide_eq_true_eq]
    rintro rfl
    exact (h.of_mem_sortedPairs hp).2 hcs

theorem CleanTags.records_sortedTags (h : CleanTags tags) (hne : tags.entries ≠ []) :
    records ',' '=' (dropSpaces (sortedTags tags)) = (sortedPairs tags).map some := by
  rw [h.dropSpaces_sortedTags]
  exact records_render (by decide) (fun hnil => hne (sortedPairs_eq_nil_iff.mp hnil))
    fun p hp => (h.of_mem_sortedPairs hp).1

/-- The entries of the pairs that are written are the entries of the map. -/
theorem perm_pairEntries_sortedPairs (tags : Tags) :
    (pairEntries (sortedPairs tags)).Perm tags.entries := by
  have hentries : pairEntries (sortedPairs tags) =
      (sortedKeys tags).map fun k => ⟨k, (tags.lookup k).getD ""⟩ := by
    rw [pairEntries, sortedPairs, List.map_map]
    refine List.map_congr_left fun k _ => ?_
    simp only [Function.comp_apply, String.ofList_toList]
  have hkeys : (tags.keys.map fun k => (⟨k, (tags.lookup k).getD ""⟩ : Σ _ : String, String)) =
      tags.entries := by
    rw [AList.keys, List.keys, List.map_map]
    conv_rhs => rw [← List.map_id tags.entries]
    refine List.map_congr_left fun e he => ?_
    have hlookup : tags.lookup e.1 = some e.2 := AList.mem_lookup_iff.mpr he
    simp [hlookup]
  rw [hentries, ← hkeys]
  exact (List.perm_insertionSort _ _).map _

theorem sortedTags_empty (h : tags.entries = []) : sortedTags tags = "" := by
  rw [sortedTags, h]

theorem sortedTags_ne_empty (h : tags.entries ≠ []) : sortedTags tags ≠ "" := by
  intro hempty
  have htext := toList_sortedTags tags
  rw [hempty] at htext
  obtain ⟨p, ps, hps⟩ := List.exists_cons_of_ne_nil
    fun hnil => h (sortedPairs_eq_nil_iff.mp hnil)
  rw [hps, render, List.map_cons] at htext
  cases ps with
  | nil => simp [field] at htext
  | cons q ps =>
    rw [List.map_cons, List.intercalate_cons_cons] at htext
    simp [field] at htext

/-- **Tags that are written and read are the same.** -/
theorem dictedTagstring_sortedTags (h : CleanTags tags) :
    (dictedTagstring (sortedTags tags)).entries.Perm tags.entries := by
  by_cases hne : tags.entries = []
  · rw [sortedTags_empty hne, dictedTagstring, if_pos rfl, hne]
    rfl
  · rw [perm_entries_iff]
    intro k
    rw [dictedTagstring, if_neg (sortedTags_ne_empty hne), h.records_sortedTags hne,
      List.filterMap_map, Function.id_comp, List.filterMap_some,
      lookup_overrideAll _ tags (perm_pairEntries_sortedPairs tags), AList.lookup_empty,
      Option.or_none]

/-- **Different tags have different texts.** -/
theorem perm_of_sortedTags_eq (h : CleanTags tags) (h' : CleanTags tags')
    (heq : sortedTags tags = sortedTags tags') : tags.entries.Perm tags'.entries := by
  have hread := dictedTagstring_sortedTags h
  rw [heq] at hread
  exact hread.symm.trans (dictedTagstring_sortedTags h')

/-! ## Length -/

theorem utf8ByteSize_eq_weight (s : String) : s.utf8ByteSize = weight Char.utf8Size s.toList := by
  have hlen : ∀ l : List Char, String.utf8Len l = weight Char.utf8Size l := by
    intro l
    induction l with
    | nil => rfl
    | cons c l ih =>
      rw [String.utf8Len_cons, ih]
      simp [weight, Nat.add_comm]
  rw [← hlen, ← String.utf8ByteSize_ofList, String.ofList_toList]

theorem CleanTags.nodup_fields (h : CleanTags tags) :
    ((sortedPairs tags).map (field '=')).Nodup := by
  have hpairs : (sortedPairs tags).Nodup := by
    refine (nodup_sortedKeys tags).map fun k k' hkk' => ?_
    exact String.toList_inj.mp (Prod.mk.inj hkk').1
  refine List.Nodup.map_on (fun p hp q hq hfield => ?_) hpairs
  have hcut := cut_field (h.of_mem_sortedPairs hp).1.eq_notMem
  rw [hfield, cut_field (h.of_mem_sortedPairs hq).1.eq_notMem] at hcut
  exact (Option.some.inj hcut).symm

/-- **The text of the tags of a text is not longer than the text.** -/
theorem utf8ByteSize_sortedTags_le (s : String) :
    (sortedTags (dictedTagstring s)).utf8ByteSize ≤ s.utf8ByteSize := by
  have hpieces : (sortedPairs (dictedTagstring s)).map (field '=') ⊆
      (dropSpaces s).splitOn ',' := by
    intro w hw
    obtain ⟨p, hp, rfl⟩ := List.mem_map.mp hw
    obtain ⟨k, v, hkv, rfl⟩ := mem_sortedPairs hp
    exact field_mem_of_mem_records (mem_records_of_lookup_dictedTagstring hkv)
  have hnodup := (cleanTags_dictedTagstring s).nodup_fields
  rw [utf8ByteSize_eq_weight, utf8ByteSize_eq_weight, toList_sortedTags]
  calc weight Char.utf8Size (render ',' '=' (sortedPairs (dictedTagstring s)))
      ≤ weight Char.utf8Size (dropSpaces s) := weight_intercalate_le _ hnodup hpieces
    _ ≤ weight Char.utf8Size s.toList := weight_filter_le _ _ _

/-! ## `SplitTagsString` -/

/-- Where every piece has a pair, the loop reads them all. -/
theorem splitTagsLoop_eq_ok {ws : List (List Char)} {ps : List (List Char × List Char)}
    (h : ws.map (cut '=') = ps.map some) (tags : Tags) :
    splitTagsLoop tags ws = .ok (overrideAll tags (pairEntries ps)) := by
  induction ws generalizing ps tags with
  | nil =>
    rw [List.map_eq_nil_iff.mp h.symm]
    rfl
  | cons w ws ih =>
    cases ps with
    | nil => simp at h
    | cons p ps =>
      obtain ⟨hcut, hrest⟩ := List.cons.inj h
      simp only [splitTagsLoop, hcut]
      exact ih hrest _

/-- Where the loop reads all pieces, every piece has a pair. -/
theorem exists_pairs_of_splitTagsLoop {ws : List (List Char)}
    (h : splitTagsLoop tags ws = .ok tags') :
    ∃ ps : List (List Char × List Char), ws.map (cut '=') = ps.map some := by
  induction ws generalizing tags with
  | nil => exact ⟨[], rfl⟩
  | cons w ws ih =>
    cases hcut : cut '=' w with
    | none =>
      simp only [splitTagsLoop, hcut] at h
      exact absurd h (by simp)
    | some p =>
      simp only [splitTagsLoop, hcut] at h
      obtain ⟨ps, hps⟩ := ih h
      exact ⟨p :: ps, by rw [List.map_cons, hcut, hps, List.map_cons]⟩

/-- **Where both readers read a text, they read the same.** -/
theorem eq_dictedTagstring_of_splitTagsString {s : String} (h : splitTagsString s = .ok tags) :
    tags = dictedTagstring s := by
  rw [splitTagsString] at h
  split_ifs at h with hnil
  · obtain rfl := Except.ok.inj h
    rw [dictedTagstring]
    split_ifs with hs
    · rfl
    · rw [hnil]
      rfl
  · obtain ⟨ps, hps⟩ := exists_pairs_of_splitTagsLoop h
    obtain rfl := Except.ok.inj (h.symm.trans (splitTagsLoop_eq_ok hps ∅))
    have hs : s ≠ "" := by
      rintro rfl
      exact hnil rfl
    rw [dictedTagstring, if_neg hs, records, hps, List.filterMap_map, Function.id_comp,
      List.filterMap_some]

theorem CleanTags.exists_splitTagsString (h : CleanTags tags) :
    ∃ tags', splitTagsString (sortedTags tags) = .ok tags' ∧
      tags'.entries.Perm tags.entries := by
  by_cases hne : tags.entries = []
  · exact ⟨∅, by rw [sortedTags_empty hne]; rfl, by rw [hne]; rfl⟩
  · have hrecords := h.records_sortedTags hne
    have hnil : dropSpaces (sortedTags tags) ≠ [] := by
      intro hnil
      rw [h.dropSpaces_sortedTags, ← toList_sortedTags] at hnil
      exact sortedTags_ne_empty hne (String.toList_eq_nil_iff.mp hnil)
    have hsplit : splitTagsString (sortedTags tags) =
        .ok (overrideAll ∅ (pairEntries (sortedPairs tags))) := by
      rw [splitTagsString, if_neg hnil]
      exact splitTagsLoop_eq_ok hrecords ∅
    refine ⟨_, hsplit, ?_⟩
    rw [eq_dictedTagstring_of_splitTagsString hsplit]
    exact dictedTagstring_sortedTags h

end Common
end OpenFalcon
