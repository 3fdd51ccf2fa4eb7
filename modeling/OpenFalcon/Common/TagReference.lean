import OpenFalcon.Common.TagText

/-!
# The tag parsers and renderers, letter by letter

`common/utils/tags.go` looks for the `=` of a tag by index and writes into a buffer; the
references in `tags_test.go`, which it replaced, split and join.  `Common.TagText` has one
definition for each of the three functions.  Here they are as they are written, the slices and
buffer loops of the one and the `SplitN` and `Join` of the other, and both are what they are there
(`dictedTagstringByIndex_eq`, `origDictedTagstring_eq`, `splitTagsStringBySplitN_eq`,
`sortedTagsByBuffer_eq`, `origSortedTags_eq`).

A `range` over a map visits it in some order.  The functions that write a map take the visit, so
that nothing is said about the order.
-/

namespace OpenFalcon.Common

open Text Assoc

/-! ## Splitting -/

/-- `strings.SplitN` at a separator of one character: the last piece has the rest. -/
def splitN (c : Char) : ℕ → List Char → List (List Char)
  | 0, _ => []
  | 1, s => [s]
  | n + 2, s =>
    match cut c s with
    | some p => p.1 :: splitN c (n + 1) p.2
    | none => [s]

theorem splitN_two (c : Char) (s : List Char) :
    splitN c 2 s = match cut c s with
      | some p => [p.1, p.2]
      | none => [s] := by
  rw [splitN]
  cases cut c s <;> rfl

/-- Looking for the separator and slicing around it is a cut. -/
theorem index_slice_of_cut {c : Char} {s : List Char} {p : List Char × List Char}
    (h : cut c s = some p) :
    index c s ≠ -1 ∧ slice s 0 (index c s) = some p.1 ∧
      slice s (index c s + 1) s.length = some p.2 := by
  obtain ⟨pre, post⟩ := p
  obtain ⟨rfl, hpre⟩ := cut_eq_some_iff.mp h
  rw [index_append_cons hpre]
  refine ⟨by omega, slice_eq_some (show _ = [] ++ pre ++ c :: post by simp) rfl (by simp), ?_⟩
  refine slice_eq_some (show _ = (pre ++ [c]) ++ post ++ [] by simp) (by simp) ?_
  simp only [List.length_append, List.length_cons, List.length_nil]
  push_cast
  omega

/-! ## `DictedTagstring` -/

/-- The loop of `DictedTagstring`.  A slice out of bounds would panic. -/
def dictedLoop : Tags → List (List Char) → Option Tags
  | tag_dict, [] => some tag_dict
  | tag_dict, tag :: tags =>
    let idx := index '=' tag
    if idx ≠ -1 then
      (slice tag 0 idx).bind fun key => (slice tag (idx + 1) tag.length).bind fun value =>
        dictedLoop (tag_dict.insert (String.ofList key) (String.ofList value)) tags
    else dictedLoop tag_dict tags

/-- `DictedTagstring`, as it is written. -/
def dictedTagstringByIndex (s : String) : Option Tags :=
  if s = "" then some ∅
  else
    let s' := if ' ' ∈ s.toList then dropSpaces s else s.toList
    dictedLoop ∅ (s'.splitOn ',')

/-- The loop of `origDictedTagstring`. -/
def origDictedLoop : Tags → List (List Char) → Tags
  | tag_dict, [] => tag_dict
  | tag_dict, tag :: tags =>
    match splitN '=' 2 tag with
    | [key, value] =>
      origDictedLoop (tag_dict.insert (String.ofList key) (String.ofList value)) tags
    | _ => origDictedLoop tag_dict tags

/-- `origDictedTagstring`, the reference. -/
def origDictedTagstring (s : String) : Tags :=
  if s = "" then ∅ else origDictedLoop ∅ ((dropSpaces s).splitOn ',')

theorem dictedLoop_eq (tag_dict : Tags) (tags : List (List Char)) :
    dictedLoop tag_dict tags =
      some (overrideAll tag_dict (pairEntries ((tags.map (cut '=')).filterMap id))) := by
  induction tags generalizing tag_dict with
  | nil => rfl
  | cons tag tags ih =>
    rw [dictedLoop, List.map_cons]
    cases hcut : cut '=' tag with
    | none =>
      simp only [index_of_notMem (cut_eq_none_iff.mp hcut), ne_eq, not_true_eq_false, if_false]
      exact ih tag_dict
    | some p =>
      obtain ⟨hidx, hkey, hvalue⟩ := index_slice_of_cut hcut
      simp only [if_pos hidx, hkey, hvalue, Option.bind_some]
      exact ih _

theorem origDictedLoop_eq (tag_dict : Tags) (tags : List (List Char)) :
    origDictedLoop tag_dict tags =
      overrideAll tag_dict (pairEntries ((tags.map (cut '=')).filterMap id)) := by
  induction tags generalizing tag_dict with
  | nil => rfl
  | cons tag tags ih =>
    rw [origDictedLoop, List.map_cons, splitN_two]
    cases hcut : cut '=' tag with
    | none => exact ih tag_dict
    | some p => exact ih _

theorem dictedTagstringByIndex_eq (s : String) :
    dictedTagstringByIndex s = some (dictedTagstring s) := by
  have hspaces : (if ' ' ∈ s.toList then dropSpaces s else s.toList) = dropSpaces s := by
    split_ifs with hspace
    · rfl
    · rw [dropSpaces, List.filter_eq_self.mpr]
      intro c hc
      simpa using fun heq : c = ' ' => hspace (heq ▸ hc)
  rw [dictedTagstringByIndex, dictedTagstring]
  by_cases hs : s = ""
  · rw [if_pos hs, if_pos hs]
  · rw [if_neg hs, if_neg hs]
    simp only [hspaces]
    exact dictedLoop_eq _ _

theorem origDictedTagstring_eq (s : String) : origDictedTagstring s = dictedTagstring s := by
  rw [origDictedTagstring, dictedTagstring]
  split_ifs
  · rfl
  · exact origDictedLoop_eq _ _

/-! ## `SplitTagsString` -/

/-- The loop of `SplitTagsString`, as it is written. -/
def splitTagsLoopBySplitN : Tags → List (List Char) → Except String Tags
  | tags, [] => .ok tags
  | tags, tag :: rest =>
    match splitN '=' 2 tag with
    | [key, value] =>
      splitTagsLoopBySplitN (tags.insert (String.ofList key) (String.ofList value)) rest
    | _ => .error ("bad tag " ++ String.ofList tag)

/-- `SplitTagsString`, as it is written. -/
def splitTagsStringBySplitN (s : String) : Except String Tags :=
  if dropSpaces s = [] then .ok ∅ else splitTagsLoopBySplitN ∅ ((dropSpaces s).splitOn ',')

theorem splitTagsStringBySplitN_eq (s : String) :
    splitTagsStringBySplitN s = splitTagsString s := by
  have hloop : ∀ (ws : List (List Char)) (tags : Tags),
      splitTagsLoopBySplitN tags ws = splitTagsLoop tags ws := by
    intro ws
    induction ws with
    | nil => exact fun _ => rfl
    | cons w ws ih =>
      intro tags
      rw [splitTagsLoopBySplitN, splitTagsLoop, splitN_two]
      cases cut '=' w with
      | none => rfl
      | some p => exact ih _
  rw [splitTagsStringBySplitN, splitTagsString, hloop]

/-- **`SplitTagsString` fails exactly on a part without `=`.** -/
theorem splitTagsString_eq_error_iff (s : String) :
    (∃ e, splitTagsString s = .error e) ↔
      dropSpaces s ≠ [] ∧ ∃ part ∈ (dropSpaces s).splitOn ',', '=' ∉ part := by
  have hloop : ∀ (ws : List (List Char)) (tags : Tags),
      (∃ e, splitTagsLoop tags ws = .error e) ↔ ∃ part ∈ ws, '=' ∉ part := by
    intro ws
    induction ws with
    | nil => simp [splitTagsLoop]
    | cons w ws ih =>
      intro tags
      rw [splitTagsLoop, List.exists_mem_cons_iff, ← cut_eq_none_iff]
      cases hcut : cut '=' w with
      | none => simp
      | some p => simpa using ih _
  rw [splitTagsString]
  split_ifs with hnil
  · simp [hnil]
  · rw [hloop, and_iff_right hnil]

/-! ## `SortedTags` -/

section

variable {tags : Tags}

/-- The loop of `SortedTags` over the sorted keys, from the position `j` on. -/
def writeLoop (tags : Tags) (size : ℕ) : ℕ → List String → String
  | _, [] => ""
  | j, key :: keys =>
    key ++ "=" ++ (tags.lookup key).getD "" ++ (if j ≠ size - 1 then "," else "") ++
      writeLoop tags size (j + 1) keys

/-- `SortedTags`, as it is written, with the order in which its `range` visits the map. -/
def sortedTagsByBuffer (visit : Visit tags) : String :=
  match visit.entries with
  | [] => ""
  | [⟨k, v⟩] => k ++ "=" ++ v
  | entries =>
    writeLoop tags entries.length 0 ((entries.map Sigma.fst).insertionSort (· ≤ ·))

/-- `origSortedTags`, the reference. -/
def origSortedTags (visit : Visit tags) : String :=
  match visit.entries with
  | [] => ""
  | [⟨k, v⟩] => k ++ "=" ++ v
  | entries =>
    ",".intercalate (((entries.map Sigma.fst).insertionSort (· ≤ ·)).map fun key =>
      key ++ "=" ++ (tags.lookup key).getD "")

theorem writeLoop_eq {keys : List String} {j size : ℕ} (h : j + keys.length = size) :
    writeLoop tags size j keys =
      ",".intercalate (keys.map fun key => key ++ "=" ++ (tags.lookup key).getD "") := by
  induction keys generalizing j with
  | nil => rfl
  | cons key keys ih =>
    rw [List.length_cons] at h
    rw [writeLoop, ih (by omega)]
    cases keys with
    | nil =>
      rw [List.length_nil] at h
      simp [show ¬j ≠ size - 1 by omega]
    | cons key' keys =>
      rw [List.length_cons] at h
      rw [if_pos (by omega)]
      simp [String.intercalate_cons_cons, String.append_assoc]

variable (visit : Visit tags)

theorem insertionSort_visit :
    (visit.entries.map Sigma.fst).insertionSort (· ≤ ·) = sortedKeys tags := by
  have hperm : ((visit.entries.map Sigma.fst).insertionSort (· ≤ ·)).Perm (sortedKeys tags) :=
    ((List.perm_insertionSort _ _).trans (visit.perm.map Sigma.fst)).trans
      (List.perm_insertionSort _ _).symm
  exact hperm.eq_of_pairwise (fun a b _ _ => le_antisymm) (List.pairwise_insertionSort _ _)
    (List.pairwise_insertionSort _ _)

theorem origSortedTags_eq : origSortedTags visit = sortedTags tags := by
  obtain ⟨entries, hperm⟩ := visit
  match entries with
  | [] =>
    rw [sortedTags_empty (List.nil_perm.mp hperm)]
    rfl
  | [⟨k, v⟩] =>
    simp only [origSortedTags, sortedTags, ← List.singleton_perm.mp hperm]
  | e :: e' :: rest =>
    have hkeys := insertionSort_visit ⟨e :: e' :: rest, hperm⟩
    simp only [origSortedTags, sortedTags_eq, ← hkeys]

theorem sortedTagsByBuffer_eq : sortedTagsByBuffer visit = sortedTags tags := by
  rw [← origSortedTags_eq visit, sortedTagsByBuffer, origSortedTags]
  split
  · rfl
  · rfl
  · rw [writeLoop_eq (by rw [List.length_insertionSort, List.length_map, Nat.zero_add])]

end

/-- **All tag parsers and renderers agree.**  `DictedTagstring` reads what the reference reads,
and so does `SplitTagsString` where it succeeds; it fails exactly on a part without `=` in a text
that is not only spaces.  `SortedTags` writes what the reference writes, in whatever order the maps
are visited.  What was read is read back from its text, by both parsers. -/
theorem tag_functions_agree :
    (∀ s, dictedTagstringByIndex s = some (origDictedTagstring s)) ∧
      (∀ s tags, splitTagsStringBySplitN s = .ok tags → dictedTagstringByIndex s = some tags) ∧
      (∀ s, (∃ e, splitTagsStringBySplitN s = .error e) ↔
        dropSpaces s ≠ [] ∧ ∃ part ∈ (dropSpaces s).splitOn ',', '=' ∉ part) ∧
      (∀ (tags tags' : Tags) (visit : Visit tags) (visit' : Visit tags'),
        tags.entries.Perm tags'.entries → sortedTagsByBuffer visit = origSortedTags visit') ∧
      ∀ s tags, dictedTagstringByIndex s = some tags → ∀ visit : Visit tags,
        (∃ tags', dictedTagstringByIndex (sortedTagsByBuffer visit) = some tags' ∧
            tags'.entries.Perm tags.entries) ∧
          ∃ tags', splitTagsStringBySplitN (sortedTagsByBuffer visit) = .ok tags' ∧
            tags'.entries.Perm tags.entries := by
  refine ⟨fun s => ?_, fun s tags h => ?_, fun s => ?_, fun tags tags' visit visit' h => ?_, ?_⟩
  · rw [dictedTagstringByIndex_eq, origDictedTagstring_eq]
  · rw [splitTagsStringBySplitN_eq] at h
    rw [dictedTagstringByIndex_eq, eq_dictedTagstring_of_splitTagsString h]
  · rw [splitTagsStringBySplitN_eq]
    exact splitTagsString_eq_error_iff s
  · rw [sortedTagsByBuffer_eq, origSortedTags_eq, sortedTags_congr h]
  · intro s tags hs visit
    rw [dictedTagstringByIndex_eq] at hs
    obtain rfl := Option.some.inj hs
    have hclean := cleanTags_dictedTagstring s
    rw [sortedTagsByBuffer_eq, splitTagsStringBySplitN_eq]
    refine ⟨⟨_, dictedTagstringByIndex_eq _, dictedTagstring_sortedTags hclean⟩, ?_⟩
    exact hclean.exists_splitTagsString

end OpenFalcon.Common
