import OpenFalcon.Text.Replace

/-!
# The leaves of the Grafana query

`modules/api/app/controller/graph/grafana_controller.go`.  Grafana shows counters as a tree: it
lists endpoints with `~` for every dot, and an endpoint's counters segment by segment, a segment
ending at a `#`.  The marker `$` stands for "the counter ends here".  The target a user arrives
at is sent to `GrafanaRender`, which takes it apart again (`cutEndpointCounterHelp`) and looks
for its counters: by `=` if the target ends in the marker, by a regular expression if not.

For both uses `cutEndpointCounterHelp` writes an escaped dot for every `#`.  With the marker the
text is compared letter by letter, so the backslash is still there: a leaf selects its own
counter exactly if there is no dot in it (`leaf_renders_iff`).  A line break in a counter brings
the other case: the expression that takes the target apart stops at it, so the marker is lost
and the first line is used as a regular expression.

How the database matches a regular expression is a parameter.
-/

namespace OpenFalcon.Api

open Text

/-! ## The index -/

/-- The two tables of the index that are read: endpoints with their ids, and counters with the
ids of their endpoints. -/
structure GraphIndex where
  endpoint : List (ℕ × List Char)
  endpointCounter : List (ℕ × List Char)

/-- The endpoint has the counter. -/
def GraphIndex.Indexed (db : GraphIndex) (endpoint counter : List Char) : Prop :=
  ∃ id, (id, endpoint) ∈ db.endpoint ∧ (id, counter) ∈ db.endpointCounter

variable (db : GraphIndex) (regexp : List Char → List Char → Bool) {s endpoint : List Char}
  {cond : List Char → Bool} {c : Char}

def findEndpointIdByEndpointList (hosts : List (List Char)) : List ℕ :=
  (db.endpoint.filter fun e => e.2 ∈ hosts).map Prod.fst

/-- `select distinct counter` of the endpoints with the ids, with a condition on the counter. -/
def selectCounters (hostIds : List ℕ) (cond : List Char → Bool) : List (List Char) :=
  ((db.endpointCounter.filter fun c => c.1 ∈ hostIds && cond c.2).map Prod.snd).dedup

theorem mem_selectCounters_iff {counter : List Char} :
    counter ∈ selectCounters db (findEndpointIdByEndpointList db [endpoint]) cond ↔
      db.Indexed endpoint counter ∧ cond counter = true := by
  have hid : ∀ id, id ∈ findEndpointIdByEndpointList db [endpoint] ↔
      (id, endpoint) ∈ db.endpoint := by
    intro id
    simp [findEndpointIdByEndpointList]
  rw [selectCounters, List.mem_dedup, List.mem_map]
  constructor
  · rintro ⟨⟨id, c⟩, hmem, rfl⟩
    rw [List.mem_filter, Bool.and_eq_true, decide_eq_true_eq, hid] at hmem
    exact ⟨⟨id, hmem.2.1, hmem.1⟩, hmem.2.2⟩
  · rintro ⟨⟨id, hendpoint, hcounter⟩, hcond⟩
    refine ⟨(id, counter), ?_, rfl⟩
    rw [List.mem_filter, Bool.and_eq_true, decide_eq_true_eq, hid]
    exact ⟨hcounter, hendpoint, hcond⟩

theorem selectCounters_eq_singleton_iff {counter : List Char} :
    selectCounters db (findEndpointIdByEndpointList db [endpoint]) cond = [counter] ↔
      ∀ c, db.Indexed endpoint c ∧ cond c = true ↔ c = counter := by
  simp only [← mem_selectCounters_iff]
  have hnodup : (selectCounters db (findEndpointIdByEndpointList db [endpoint]) cond).Nodup :=
    List.nodup_dedup _
  constructor
  · intro heq c
    rw [heq, List.mem_singleton]
  · intro hall
    exact List.perm_singleton.mp
      ((List.perm_ext_iff_of_nodup hnodup (List.nodup_singleton counter)).mpr fun c => by
        rw [hall c, List.mem_singleton])

/-! ## Listing endpoints -/

structure APIGrafanaMainQueryOutputs where
  expandable : Bool
  text : List Char

/-- An endpoint as it is listed, with `~` for every dot. -/
def listed (endpoint : List Char) : List Char := replaceAll ['.'] ['~'] endpoint

def responseHostsRegexp (limit : ℕ) (regexpKey : List Char) : List APIGrafanaMainQueryOutputs :=
  ((db.endpoint.filter fun e => regexp e.2 regexpKey).take limit).map fun e =>
    ⟨true, listed e.2⟩

/-! ## Taking a target apart -/

/-- From the host list on, the expression `([^#}]+)}?#(.+)`.  A character of the list cannot be
a `#` or a brace, so the list is the whole run of other characters; the counter ends at a line
break. -/
def matchHosts (s : List Char) : Option (List Char × List Char) :=
  let hosts := s.takeWhile fun c => c ≠ '#' && c ≠ '\x7d'
  let rest := s.dropWhile fun c => c ≠ '#' && c ≠ '\x7d'
  let rest := if rest.head? = some '\x7d' then rest.tail else rest
  match rest with
  | '#' :: s =>
    let counter := s.takeWhile (· ≠ '\n')
    if hosts = [] ∨ counter = [] then none else some (hosts, counter)
  | _ => none

/-- The expression `^{?([^#}]+)}?#(.+)`: with an opening brace taken off if that can be, and
with the brace as a part of the host list if not. -/
def matchTarget : List Char → Option (List Char × List Char)
  | '\x7b' :: s => (matchHosts s).orElse fun _ => matchHosts ('\x7b' :: s)
  | s => matchHosts s

def cutEndpointCounterHelp (regexpKey : List Char) : List (List Char) × List Char :=
  match matchTarget regexpKey with
  | some (hostsTmp, counterTmp) =>
    ((replaceAll ['~'] ['.'] hostsTmp).splitOn ',', replaceAll ['#'] ['\\', '.'] counterTmp)
  | none => ([], [])

/-- The white space `\s` of a regular expression. -/
def isBlank (c : Char) : Bool := c ∈ [' ', '\t', '\n', '\x0c', '\r']

/-- The expression `^\\.\$\s*$`, the marker at the start of what is left of a text. -/
def isLeaf : List Char → Bool
  | '\\' :: c :: '$' :: s => c ≠ '\n' && s.all isBlank
  | _ => false

/-- A text without the marker at its end, if it has one. -/
def cutLeaf : List Char → Option (List Char)
  | [] => none
  | c :: s => if isLeaf (c :: s) then some [] else (cutLeaf s).map (c :: ·)

/-! ## Rendering -/

/-- What is fetched for a target, host by host. -/
def renderTarget (target : List Char) : List (List Char × List Char) :=
  let (hosts, counter) := cutEndpointCounterHelp target
  let flag := (cutLeaf counter).isSome
  let counter := replaceAll ['\\', '.', '%'] ['.', '+'] ((cutLeaf counter).getD counter)
  let hostIds := findEndpointIdByEndpointList db hosts
  let counters :=
    if flag then selectCounters db hostIds (· = counter)
    else selectCounters db hostIds (regexp · counter)
  hosts.flatMap fun host => counters.map fun c => (host, c)

/-- `GrafanaRender`: the endpoints and counters of which data is fetched. -/
def grafanaRender (targets : List (List Char)) : List (List Char × List Char) :=
  targets.flatMap (renderTarget db regexp)

/-- The target of a leaf. -/
def leafTarget (endpoint counter : List Char) : List Char :=
  listed endpoint ++ '#' :: (replaceAll ['.'] ['#'] counter ++ ['#', '$'])

/-- Names without the characters that have a meaning in a target. -/
def PlainName (s : List Char) : Prop :=
  ∀ c ∈ s, c ∉ ['#', '~', '\x7b', '\x7d', ',', '$']

theorem PlainName.notMem (h : PlainName s) {c : Char}
    (hc : c ∈ ['#', '~', '\x7b', '\x7d', ',', '$']) : c ∉ s :=
  fun hs => h c hs hc

/-! ## The rewritings of a counter -/

/-- A counter with every dot escaped. -/
def escape (counter : List Char) : List Char := replaceAll ['.'] ['\\', '.'] counter

/-- A `#` for every dot and an escaped dot for every `#` is an escaped dot for every dot. -/
theorem replaceAll_replaceAll_eq_escape {counter : List Char} (h : '#' ∉ counter) :
    replaceAll ['#'] ['\\', '.'] (replaceAll ['.'] ['#'] counter) = escape counter := by
  rw [escape, replaceAll_map, replaceAll_singleton, replaceAll_singleton, List.flatMap_map]
  refine List.flatMap_congr fun c hc => ?_
  by_cases hdot : c = '.'
  · simp [hdot]
  · have hhash : c ≠ '#' := fun heq => h (heq ▸ hc)
    simp [hdot, hhash]

theorem escape_append (s t : List Char) : escape (s ++ t) = escape s ++ escape t := by
  simp only [escape, replaceAll_singleton, List.flatMap_append]

theorem escape_of_notMem (h : '.' ∉ s) : escape s = s :=
  replaceAll_of_notMem (List.mem_singleton_self '.') h

theorem mem_escape (h : c ∈ escape s) : c = '\\' ∨ c ∈ s := by
  rw [escape, replaceAll_singleton, List.mem_flatMap] at h
  obtain ⟨d, hd, hc⟩ := h
  split_ifs at hc with hdot
  · rcases List.mem_cons.mp hc with rfl | hc
    · exact Or.inl rfl
    · obtain rfl := List.mem_singleton.mp hc
      exact Or.inr (hdot ▸ hd)
  · obtain rfl := List.mem_singleton.mp hc
    exact Or.inr hd

theorem dollar_notMem_escape (h : '$' ∉ s) : '$' ∉ escape s := by
  intro hmem
  rcases mem_escape hmem with heq | hmem
  · exact absurd heq (by decide)
  · exact h hmem

theorem escape_eq_percent_cons {t : List Char} (h : escape s = '%' :: t) : s.head? = some '%' := by
  cases s with
  | nil => simp [escape] at h
  | cons c s =>
    rw [escape, replaceAll_singleton, List.flatMap_cons] at h
    split_ifs at h with hdot
    · simp at h
    · simp only [List.singleton_append, List.cons.injEq] at h
      simp [h.1]

/-- In an escaped text nothing before the first dot is a wildcard: a backslash there is followed
by another character than a dot. -/
theorem wildcard_append {pre : List Char} (h : '.' ∉ pre) (rest : List Char) :
    replaceAll ['\\', '.', '%'] ['.', '+'] (pre ++ '\\' :: rest) =
      pre ++ replaceAll ['\\', '.', '%'] ['.', '+'] ('\\' :: rest) := by
  induction pre with
  | nil => rfl
  | cons c pre ih =>
    have hpre : '.' ∉ pre := fun hmem => h (List.mem_cons_of_mem c hmem)
    have hnot : ¬['\\', '.', '%'] <+: c :: (pre ++ '\\' :: rest) := by
      rw [List.cons_prefix_cons]
      rintro ⟨-, hdot⟩
      cases pre with
      | nil =>
        rw [List.nil_append, List.cons_prefix_cons] at hdot
        exact absurd hdot.1 (by decide)
      | cons d pre =>
        rw [List.cons_append, List.cons_prefix_cons] at hdot
        exact hpre (hdot.1 ▸ List.mem_cons_self)
    rw [List.cons_append, replaceAll_cons_of_neg hnot, ih hpre, List.cons_append]

/-- **A counter survives its rewriting** exactly if there is no dot in it.  The first dot is
either still escaped or a part of a wildcard, and neither is what stood there. -/
theorem wildcard_escape_eq_iff (counter : List Char) :
    replaceAll ['\\', '.', '%'] ['.', '+'] (escape counter) = counter ↔ '.' ∉ counter := by
  constructor
  · intro heq hmem
    obtain ⟨pre, post, rfl, hpre⟩ := List.eq_append_cons_of_mem hmem
    have hescape : escape (pre ++ '.' :: post) = pre ++ '\\' :: '.' :: escape post := by
      rw [escape_append, escape_of_notMem hpre]
      simp [escape, replaceAll_singleton]
    rw [hescape, wildcard_append hpre, List.append_cancel_left_eq, replaceAll, replaceFrom] at heq
    split_ifs at heq with hwild
    · -- a wildcard was put where the dot and a percent sign stood
      obtain ⟨rest, hrest⟩ := hwild
      have hhead : post.head? = some '%' :=
        escape_eq_percent_cons (t := rest) (by simpa using hrest.symm)
      cases post with
      | nil => cases hhead
      | cons d post =>
        obtain rfl := Option.some.inj hhead
        simp at heq
    · exact absurd (List.cons.inj heq).1 (by decide)
  · intro hdot
    rw [escape_of_notMem hdot]
    exact replaceAll_of_notMem (a := '.') (by decide) hdot

/-! ## The marker -/

/-- The marker begins with its third character from the left. -/
theorem isLeaf_eq_true (h : isLeaf s = true) : ∃ c rest, s = '\\' :: c :: '$' :: rest := by
  unfold isLeaf at h
  split at h
  · exact ⟨_, _, rfl⟩
  · cases h

theorem cutLeaf_of_notMem (h : '$' ∉ s) : cutLeaf s = none := by
  induction s with
  | nil => rfl
  | cons c s ih =>
    have hleaf : ¬isLeaf (c :: s) = true := by
      intro hleaf
      obtain ⟨d, rest, heq⟩ := isLeaf_eq_true hleaf
      exact h (by simp [heq])
    rw [cutLeaf, if_neg hleaf, ih fun hs => h (List.mem_cons_of_mem c hs)]
    rfl

theorem cutLeaf_append_marker (h : '$' ∉ s) : cutLeaf (s ++ ['\\', '.', '$']) = some s := by
  induction s with
  | nil => rfl
  | cons c s ih =>
    have hs : '$' ∉ s := fun hs => h (List.mem_cons_of_mem c hs)
    have hleaf : ¬isLeaf (c :: (s ++ ['\\', '.', '$'])) = true := by
      intro hleaf
      obtain ⟨d, rest, heq⟩ := isLeaf_eq_true hleaf
      have htail := (List.cons.inj heq).2
      match s, hs, htail with
      | [], _, htail => simp at htail
      | [_], _, htail => simp at htail
      | _ :: b :: _, hs, htail =>
        simp only [List.cons_append, List.cons.injEq] at htail
        exact hs (by simp [htail.2.1])
    rw [List.cons_append, cutLeaf, if_neg hleaf, ih hs]
    rfl

/-! ## A leaf selects its own counter -/

/-- The part of a counter before its first line break. -/
def firstLine (counter : List Char) : List Char := counter.takeWhile (· ≠ '\n')

theorem firstLine_of_notMem (h : '\n' ∉ s) : firstLine s = s :=
  List.takeWhile_eq_self_iff.mpr fun c hc => by simpa using fun heq : c = '\n' => h (heq ▸ hc)

theorem firstLine_subset : firstLine s ⊆ s := List.takeWhile_subset _

theorem firstLine_append_of_mem (h : '\n' ∈ s) (t : List Char) :
    firstLine (s ++ t) = firstLine s := by
  obtain ⟨pre, post, rfl, hpre⟩ := List.eq_append_cons_of_mem h
  have hall : ∀ c ∈ pre, decide (c ≠ '\n') = true := fun c hc => by
    simpa using fun heq : c = '\n' => hpre (heq ▸ hc)
  simp only [firstLine, List.append_assoc, List.cons_append]
  rw [List.takeWhile_append_of_pos hall, List.takeWhile_append_of_pos hall]
  simp

/-- A dot written as `#` does not move the line breaks. -/
theorem firstLine_replaceAll (s : List Char) :
    firstLine (replaceAll ['.'] ['#'] s) = replaceAll ['.'] ['#'] (firstLine s) := by
  rw [replaceAll_map, replaceAll_map, firstLine, firstLine, List.takeWhile_map]
  congr 2
  funext c
  by_cases hdot : c = '.' <;> simp [hdot]

/-- The first line of a counter with a line break, with anything behind the counter. -/
theorem firstLine_replaceAll_append (h : '\n' ∈ s) (t : List Char) :
    firstLine (replaceAll ['.'] ['#'] s ++ t) = replaceAll ['.'] ['#'] (firstLine s) := by
  rw [← firstLine_replaceAll]
  refine firstLine_append_of_mem ?_ t
  rw [replaceAll_map]
  exact List.mem_map.mpr ⟨'\n', h, rfl⟩

theorem mem_replaceAll_map {a b : Char} (h : c ∈ replaceAll [a] [b] s) : c = b ∨ c ∈ s := by
  rw [replaceAll_map, List.mem_map] at h
  obtain ⟨d, hd, hc⟩ := h
  split_ifs at hc
  · exact Or.inl hc.symm
  · exact Or.inr (hc ▸ hd)

theorem matchTarget_listed (hendpoint : PlainName endpoint) (rest : List Char) :
    matchTarget (listed endpoint ++ '#' :: rest) =
      if endpoint = [] ∨ firstLine rest = [] then none
      else some (listed endpoint, firstLine rest) := by
  have hplain : ∀ c ∈ listed endpoint, c ∉ ['#', '\x7b', '\x7d'] := by
    intro c hc hmem
    rcases mem_replaceAll_map hc with rfl | hc
    · exact absurd hmem (by decide)
    · have hsub : ['#', '\x7b', '\x7d'] ⊆ ['#', '~', '\x7b', '\x7d', ',', '$'] := by decide
      exact hendpoint c hc (hsub hmem)
  have hall : ∀ c ∈ listed endpoint, (decide (c ≠ '#') && decide (c ≠ '\x7d')) = true := by
    intro c hc
    have hnot := hplain c hc
    simp only [List.mem_cons, List.not_mem_nil, or_false, not_or] at hnot
    simp [hnot.1, hnot.2.2]
  have hempty : listed endpoint = [] ↔ endpoint = [] := by
    rw [listed, replaceAll_map, List.map_eq_nil_iff]
  have hhosts : matchHosts (listed endpoint ++ '#' :: rest) =
      if endpoint = [] ∨ firstLine rest = [] then none
      else some (listed endpoint, firstLine rest) := by
    rw [matchHosts]
    simp only [List.takeWhile_append_of_pos hall, List.dropWhile_append_of_pos hall]
    simp [hempty, firstLine]
  -- the host list does not begin with a brace
  rw [← hhosts]
  unfold matchTarget
  split
  · rename_i s heq
    exfalso
    cases hlisted : listed endpoint with
    | nil =>
      rw [hlisted] at heq
      exact absurd (List.cons.inj heq).1 (by decide)
    | cons c l =>
      rw [hlisted] at heq
      refine hplain c (hlisted ▸ List.mem_cons_self) ?_
      rw [(List.cons.inj heq).1]
      decide
  · rfl

theorem cutEndpointCounterHelp_leafTarget (counter : List Char) (hendpoint : PlainName endpoint) :
    cutEndpointCounterHelp (leafTarget endpoint counter) =
      if endpoint = [] ∨ firstLine (replaceAll ['.'] ['#'] counter ++ ['#', '$']) = [] then
        ([], [])
      else ([endpoint], replaceAll ['#'] ['\\', '.']
        (firstLine (replaceAll ['.'] ['#'] counter ++ ['#', '$']))) := by
  rw [cutEndpointCounterHelp, leafTarget, matchTarget_listed hendpoint]
  split_ifs with hempty
  · rfl
  · have hback : replaceAll ['~'] ['.'] (listed endpoint) = endpoint := by
      rw [listed, replaceAll_map, replaceAll_map]
      exact map_replace_map_replace (hendpoint.notMem (by decide))
    simp only [hback]
    rw [List.splitOn_eq_singleton (hendpoint.notMem (by decide))]

/-- A single counter of a single host is fetched exactly if the selection is that counter. -/
theorem map_pair_eq_singleton_iff {counter : List Char} {counters : List (List Char)} :
    ([endpoint].flatMap fun host => counters.map fun c => (host, c)) = [(endpoint, counter)] ↔
      counters = [counter] := by
  rw [List.flatMap_singleton, List.map_eq_singleton_iff]
  constructor
  · rintro ⟨c, rfl, hpair⟩
    rw [(Prod.mk.inj hpair).2]
  · rintro rfl
    exact ⟨counter, rfl, rfl⟩

/-- **Rendering a leaf of a counter on one line.** -/
theorem renderTarget_leafTarget {counter : List Char} (hname : endpoint ≠ [])
    (hendpoint : PlainName endpoint) (hcounter : PlainName counter) (hline : '\n' ∉ counter) :
    renderTarget db regexp (leafTarget endpoint counter) =
      [endpoint].flatMap fun host =>
        (selectCounters db (findEndpointIdByEndpointList db [endpoint])
          (· = replaceAll ['\\', '.', '%'] ['.', '+'] (escape counter))).map
            fun c => (host, c) := by
  have hline' : '\n' ∉ replaceAll ['.'] ['#'] counter ++ ['#', '$'] := by
    rw [List.mem_append]
    rintro (hmem | hmem)
    · rcases mem_replaceAll_map hmem with heq | hmem
      · exact absurd heq (by decide)
      · exact hline hmem
    · exact absurd hmem (by decide)
  have hescape : replaceAll ['#'] ['\\', '.'] (replaceAll ['.'] ['#'] counter ++ ['#', '$']) =
      escape counter ++ ['\\', '.', '$'] := by
    rw [← replaceAll_replaceAll_eq_escape (hcounter.notMem (by decide)), replaceAll_singleton,
      List.flatMap_append, ← replaceAll_singleton]
    rfl
  have hdollar : '$' ∉ escape counter := dollar_notMem_escape (hcounter.notMem (by decide))
  rw [renderTarget, cutEndpointCounterHelp_leafTarget counter hendpoint,
    firstLine_of_notMem hline', if_neg (by simp [hname]), hescape]
  simp only [cutLeaf_append_marker hdollar, Option.isSome_some, if_true, Option.getD_some]

/-- **Rendering a leaf of a counter with a line break**: its first line is the expression that is
looked for. -/
theorem renderTarget_leafTarget_of_mem {counter : List Char} (hname : endpoint ≠ [])
    (hendpoint : PlainName endpoint) (hcounter : PlainName counter) (hline : '\n' ∈ counter)
    (hfirst : firstLine counter ≠ []) :
    renderTarget db regexp (leafTarget endpoint counter) =
      [endpoint].flatMap fun host =>
        (selectCounters db (findEndpointIdByEndpointList db [endpoint])
          (regexp · (replaceAll ['\\', '.', '%'] ['.', '+'] (escape (firstLine counter))))).map
            fun c => (host, c) := by
  have hsub : ∀ {c : Char}, c ∉ counter → c ∉ firstLine counter :=
    fun hc hmem => hc (firstLine_subset hmem)
  have hfirstLine : firstLine (replaceAll ['.'] ['#'] counter ++ ['#', '$']) =
      replaceAll ['.'] ['#'] (firstLine counter) := firstLine_replaceAll_append hline _
  have hnonempty : replaceAll ['.'] ['#'] (firstLine counter) ≠ [] := by
    rwa [replaceAll_map, Ne, List.map_eq_nil_iff]
  have hdollar : '$' ∉ escape (firstLine counter) :=
    dollar_notMem_escape (hsub (hcounter.notMem (by decide)))
  rw [renderTarget, cutEndpointCounterHelp_leafTarget counter hendpoint, hfirstLine,
    if_neg (by simp [hname, hnonempty]),
    replaceAll_replaceAll_eq_escape (hsub (hcounter.notMem (by decide)))]
  simp only [cutLeaf_of_notMem hdollar, Option.isSome_none, Bool.false_eq_true, if_false,
    Option.getD_none]

/-- Without an endpoint, or without a first line, a target is not taken apart and nothing is
fetched. -/
theorem renderTarget_leafTarget_of_empty {counter : List Char} (hendpoint : PlainName endpoint)
    (hempty : endpoint = [] ∨ '\n' ∈ counter ∧ firstLine counter = []) :
    renderTarget db regexp (leafTarget endpoint counter) = [] := by
  have hcut : endpoint = [] ∨ firstLine (replaceAll ['.'] ['#'] counter ++ ['#', '$']) = [] := by
    refine hempty.imp id fun ⟨hline, hfirst⟩ => ?_
    rw [firstLine_replaceAll_append hline, hfirst]
    rfl
  rw [renderTarget, cutEndpointCounterHelp_leafTarget counter hendpoint, if_pos hcut]
  rfl

/-- **A leaf selects its own counter** exactly if the endpoint has a name and there is no dot in
the counter.  A counter with a line break is looked for by its first line, as a regular
expression, and has to be the only one of the endpoint's counters that it matches. -/
theorem leaf_renders_iff {endpoint counter : List Char} (hindexed : db.Indexed endpoint counter)
    (hendpoint : PlainName endpoint) (hcounter : PlainName counter) :
    grafanaRender db regexp [leafTarget endpoint counter] = [(endpoint, counter)] ↔
      endpoint ≠ [] ∧
        if '\n' ∈ counter then
          firstLine counter ≠ [] ∧
            ∀ c, db.Indexed endpoint c →
              (regexp c (replaceAll ['\\', '.', '%'] ['.', '+'] (escape (firstLine counter))) =
                true ↔ c = counter)
        else '.' ∉ counter := by
  rw [grafanaRender, List.flatMap_singleton]
  by_cases hname : endpoint = []
  · rw [renderTarget_leafTarget_of_empty db regexp hendpoint (Or.inl hname)]
    simp [hname]
  rw [and_iff_right hname]
  split_ifs with hline
  · by_cases hfirst : firstLine counter = []
    · rw [renderTarget_leafTarget_of_empty db regexp hendpoint (Or.inr ⟨hline, hfirst⟩)]
      simp [hfirst]
    · rw [renderTarget_leafTarget_of_mem db regexp hname hendpoint hcounter hline hfirst,
        map_pair_eq_singleton_iff, selectCounters_eq_singleton_iff, and_iff_right hfirst]
      refine forall_congr' fun c => ?_
      constructor
      · intro hall hc
        rw [← hall, and_iff_right hc]
      · intro hall
        constructor
        · rintro ⟨hc, hmatch⟩
          exact (hall hc).mp hmatch
        · rintro rfl
          exact ⟨hindexed, (hall hindexed).mpr rfl⟩
  · rw [renderTarget_leafTarget db regexp hname hendpoint hcounter hline,
      map_pair_eq_singleton_iff, selectCounters_eq_singleton_iff, ← wildcard_escape_eq_iff]
    simp only [decide_eq_true_eq]
    constructor
    · intro hall
      exact ((hall counter).mpr rfl).2.symm
    · intro heq c
      rw [heq]
      constructor
      · exact fun h => h.2
      · rintro rfl
        exact ⟨hindexed, rfl⟩

/-- A host with two counters. -/
def oneHost : GraphIndex where
  endpoint := [(1, "h1".toList)]
  endpointCounter := [(1, "load".toList), (1, "cpu.idle".toList)]

theorem leaf_of_plain_counter_renders :
    grafanaRender oneHost (fun _ _ => false) [leafTarget "h1".toList "load".toList] =
      [("h1".toList, "load".toList)] := by
  have hline : '\n' ∉ "load".toList := by decide +kernel
  refine (leaf_renders_iff oneHost (fun _ _ => false) ⟨1, by decide +kernel, by decide +kernel⟩
    (by simp [PlainName]) (by simp [PlainName])).mpr ⟨by decide +kernel, ?_⟩
  rw [if_neg hline]
  decide +kernel

/-- **A counter with a dot is not found by its leaf.**  The target is the one the tree leads to,
and the counter is in the index. -/
theorem leaf_of_dotted_counter_finds_nothing :
    oneHost.Indexed "h1".toList "cpu.idle".toList ∧
      leafTarget "h1".toList "cpu.idle".toList = "h1#cpu#idle#$".toList ∧
      cutLeaf (cutEndpointCounterHelp "h1#cpu#idle#$".toList).2 = some "cpu\\.idle".toList ∧
      grafanaRender oneHost (fun _ _ => true) ["h1#cpu#idle#$".toList] = [] :=
  ⟨⟨1, by decide +kernel, by decide +kernel⟩, by decide +kernel, by decide +kernel,
    by decide +kernel⟩

end OpenFalcon.Api
