import OpenFalcon.Agent.Schedulers
import OpenFalcon.Assoc.Collect
import OpenFalcon.Text.Numeral
import OpenFalcon.Text.Path
import OpenFalcon.Text.Split

/-!
# The plugins that are wanted

`syncMinePlugins` of `modules/agent/cron` and `ListPlugins` of `modules/agent/plugins`.  The server
answers with bindings, the path of a script with or without arguments or the path of a directory.
The agent looks at its plugin directory, takes the scripts that are bound alone, and of the
directories the files whose names begin with a number and an underscore.  The number is the cycle in
seconds.  A file that is bound alone is to be left out of its directory.

The files are a parameter; a round sees them as they are at one time.  `desiredAll_eq` says what the
two loops leave: entries written over each other, first those of the scripts, then those of the
directories.  The rest follows from where an entry can come from (`scriptEntry`, `listEntry`).

* A cycle is whatever number the name begins with, so it can be zero, negative or too large for a
  duration; `desired_periods_positive_iff` says when none is.
* A script is left out of its directory by the text of its binding, and the listing compares it with
  a path that was cleaned; `script_not_repeated_iff` says when this is enough.
-/

namespace OpenFalcon.Agent

open Numeric Common Assoc Text

/-! ## The source -/

/-- `strconv.Atoi`, where an `int` has 64 bits. -/
def atoi (s : List Char) : Option Int := (parseInt 10 64 (utf8 s)).toOption

/-- What is read of an `os.FileInfo`. -/
structure FileInfo where
  isDir : Bool
  modTime : Int

/-- The name of an entry of a directory. -/
abbrev FileName := {name : List Char // Path.IsName name}

/-- The files at some time, by paths that are clean.  `readDir` does not follow links. -/
structure FileSystem where
  stat : List Char → Option FileInfo
  readDir : List Char → Option (List (FileName × FileInfo))

/-- `file.IsFile`. -/
def FileSystem.isFile (fs : FileSystem) (path : List Char) : Bool :=
  (fs.stat path).any fun fi => !fi.isDir

/-- `file.IsExist`, and not `file.IsFile`. -/
def FileSystem.isDirectory (fs : FileSystem) (path : List Char) : Bool :=
  (fs.stat path).any fun fi => fi.isDir

/-- `[]string{script_path, args}`. -/
structure Script where
  path : List Char
  args : List Char
  deriving DecidableEq

/-- The key of a script that is bound alone. -/
def Script.key (s : Script) : List Char := s.path ++ '(' :: (s.args ++ [')'])

/-- A match of `(.*)\((.*)\)` in a line: it goes up to the last `)`, and the first group as far as
the last `(` before it. -/
def matchLine (line : List Char) : Option Script :=
  (cutLast ')' line).bind fun p => (cutLast '(' p.1).map fun q => ⟨q.1, q.2⟩

/-- A binding, read by the regular expression.  A dot does not match a newline, so the first line
with a match counts. -/
def readBinding (scriptPath : List Char) : Script :=
  ((scriptPath.splitOn '\n').findSome? matchLine).getD ⟨scriptPath, []⟩

/-- `arr[0]`, of a name that is cut at the underscores. -/
def firstField (fileName : List Char) : List Char := (fileName.splitOn '_').headD []

section

variable (fs : FileSystem) (dir : List Char)

/-- `filepath.Join(g.Config().Plugin.Dir, path)`. -/
def absPath (path : List Char) : List Char := Path.join [dir, path]

/-- `filefmt_scripts`. -/
def filefmtScripts (pluginDirs : List (List Char)) : List Script :=
  (pluginDirs.map readBinding).filter fun s => fs.isFile (absPath dir s.path)

/-- `dirfmt_scripts`. -/
def dirfmtScripts (pluginDirs : List (List Char)) : List (List Char) :=
  ((pluginDirs.map readBinding).filter fun s => fs.isDirectory (absPath dir s.path)).map Script.path

/-- `taken`. -/
def taken (pluginDirs : List (List Char)) : List (List Char) :=
  (filefmtScripts fs dir pluginDirs).map Script.path

/-- The cycle of a script that is bound alone. -/
def Script.cycle (s : Script) : Option Int :=
  atoi (firstField (Path.fileName (absPath dir s.path)))

/-- The body of the loop over the scripts.  Without a `FileInfo` there is a panic. -/
def addScript (desired : GoMap (List Char) Plugin) (s : Script) :
    Option (GoMap (List Char) Plugin) :=
  match s.cycle dir with
  | none => some desired
  | some cycle =>
    (fs.stat (absPath dir s.path)).map fun fi =>
      desired.insert s.key ⟨s.path, fi.modTime, cycle, s.args⟩

/-- The body of the loop of `ListPlugins`. -/
def listEntry (scriptPath : List Char) (f : FileName × FileInfo) :
    Option (Σ _ : List Char, Plugin) :=
  if f.2.isDir ∨ (f.1.1.splitOn '_').length < 2 then none
  else
    (atoi (firstField f.1.1)).map fun cycle =>
      ⟨Path.join [scriptPath, f.1.1], ⟨Path.join [scriptPath, f.1.1], f.2.modTime, cycle, []⟩⟩

/-- What `ListPlugins` reads: nothing of a path that is empty or cannot be listed. -/
def filesOf (scriptPath : List Char) : List (FileName × FileInfo) :=
  if scriptPath = [] then [] else (fs.readDir (absPath dir scriptPath)).getD []

/-- `ListPlugins`. -/
def listPlugins (scriptPath : List Char) : GoMap (List Char) Plugin :=
  overrideAll ∅ ((filesOf fs dir scriptPath).filterMap (listEntry scriptPath))

/-- The order in which the plugins of every bound directory are ranged over. -/
abbrev DirVisits :=
  ∀ (_ : ℕ) (scriptPath : List Char), Visit (listPlugins fs dir (trim '/' scriptPath))

/-- `_, ok := taken[k]`. -/
def isTaken (taken : List (List Char)) (k : List Char) : Bool := taken.any fun path => path = k

/-- The body of the loop over the plugins of a directory. -/
def addListed (taken : List (List Char)) (desired : GoMap (List Char) Plugin)
    (e : Σ _ : List Char, Plugin) : GoMap (List Char) Plugin :=
  if isTaken taken e.1 then desired else desired.insert e.1 e.2

/-- `desiredAll`, after both loops. -/
def desiredAll (pluginDirs : List (List Char)) (visits : DirVisits fs dir) :
    Option (GoMap (List Char) Plugin) :=
  ((filefmtScripts fs dir pluginDirs).foldlM (addScript fs dir) ∅).map fun desired =>
    (dirfmtScripts fs dir pluginDirs).zipIdx.foldl (fun desired d =>
      (visits d.2 d.1).entries.foldl (addListed (taken fs dir pluginDirs)) desired) desired

end

/-! ## What the loops leave -/

section

variable {fs : FileSystem} {dir scriptPath k : List Char} {pluginDirs : List (List Char)}
  {p : Plugin}

/-- A script that is bound alone. -/
def BoundScript (fs : FileSystem) (dir : List Char) (pluginDirs : List (List Char)) (s : Script) :
    Prop :=
  ∃ b ∈ pluginDirs, readBinding b = s ∧ fs.isFile (absPath dir s.path) = true

/-- A directory that is bound, as it was typed. -/
def BoundDir (fs : FileSystem) (dir : List Char) (pluginDirs : List (List Char)) (d : List Char) :
    Prop :=
  ∃ b ∈ pluginDirs, (readBinding b).path = d ∧ fs.isDirectory (absPath dir d) = true

theorem mem_filefmtScripts {s : Script} :
    s ∈ filefmtScripts fs dir pluginDirs ↔ BoundScript fs dir pluginDirs s := by
  rw [filefmtScripts, List.mem_filter, List.mem_map]
  constructor
  · rintro ⟨⟨b, hb, hs⟩, hfile⟩
    exact ⟨b, hb, hs, hfile⟩
  · rintro ⟨b, hb, hs, hfile⟩
    exact ⟨⟨b, hb, hs⟩, hfile⟩

theorem mem_dirfmtScripts {d : List Char} :
    d ∈ dirfmtScripts fs dir pluginDirs ↔ BoundDir fs dir pluginDirs d := by
  rw [dirfmtScripts, List.mem_map]
  constructor
  · rintro ⟨s, hs, rfl⟩
    obtain ⟨hbound, hdir⟩ := List.mem_filter.mp hs
    obtain ⟨b, hb, rfl⟩ := List.mem_map.mp hbound
    exact ⟨b, hb, rfl, hdir⟩
  · rintro ⟨b, hb, rfl, hdir⟩
    exact ⟨readBinding b, List.mem_filter.mpr ⟨List.mem_map_of_mem hb, hdir⟩, rfl⟩

/-- What is taken is typed as the path of a script. -/
theorem isTaken_eq_false_iff :
    isTaken (taken fs dir pluginDirs) k = false ↔
      ∀ s, BoundScript fs dir pluginDirs s → s.path ≠ k := by
  rw [isTaken, taken, List.any_eq_false, List.forall_mem_map]
  refine forall_congr' fun s => imp_congr mem_filefmtScripts ?_
  rw [decide_eq_true_iff]

/-- What a script that is bound alone adds. -/
def scriptEntry (fs : FileSystem) (dir : List Char) (s : Script) :
    Option (Σ _ : List Char, Plugin) :=
  (s.cycle dir).bind fun cycle =>
    (fs.stat (absPath dir s.path)).map fun fi => ⟨s.key, ⟨s.path, fi.modTime, cycle, s.args⟩⟩

theorem FileSystem.exists_of_isFile {path : List Char} (h : fs.isFile path = true) :
    ∃ fi, fs.stat path = some fi := by
  unfold FileSystem.isFile at h
  cases hstat : fs.stat path with
  | none => simp [hstat] at h
  | some fi => exact ⟨fi, rfl⟩

/-- The loop over the scripts does not panic, since they were seen to be files. -/
theorem foldlM_addScript {scripts : List Script}
    (h : ∀ s ∈ scripts, fs.isFile (absPath dir s.path) = true)
    (desired : GoMap (List Char) Plugin) :
    scripts.foldlM (addScript fs dir) desired =
      some (overrideAll desired (scripts.filterMap (scriptEntry fs dir))) := by
  induction scripts generalizing desired with
  | nil => rfl
  | cons s scripts ih =>
    obtain ⟨fi, hfi⟩ := FileSystem.exists_of_isFile (h s List.mem_cons_self)
    have hstep : addScript fs dir desired s =
        some (overrideAll desired (scriptEntry fs dir s).toList) := by
      unfold addScript scriptEntry
      rw [hfi]
      cases s.cycle dir with
      | none => rfl
      | some cycle => rfl
    rw [List.foldlM_cons, hstep, Option.bind_eq_bind, Option.bind_some,
      ih fun s hs => h s (List.mem_cons_of_mem _ hs), overrideAll, overrideAll, ← List.foldl_append,
      overrideAll, List.filterMap_cons]
    cases scriptEntry fs dir s with
    | none => rfl
    | some e => rfl

/-- What the bound directories add. -/
def listedEntries (visits : DirVisits fs dir) (taken : List (List Char))
    (dirs : List (List Char × ℕ)) : List (Σ _ : List Char, Plugin) :=
  dirs.flatMap fun d => (visits d.2 d.1).entries.filter fun e => !isTaken taken e.1

theorem foldl_addListed (taken : List (List Char)) (es : List (Σ _ : List Char, Plugin))
    (desired : GoMap (List Char) Plugin) :
    es.foldl (addListed taken) desired =
      overrideAll desired (es.filter fun e => !isTaken taken e.1) := by
  rw [overrideAll, List.foldl_filter]
  refine congrArg (fun f => es.foldl f desired) (funext fun m => funext fun e => ?_)
  unfold addListed
  cases isTaken taken e.1 with
  | true => rfl
  | false => rfl

/-- **What the two loops leave.** -/
theorem desiredAll_eq (visits : DirVisits fs dir) :
    desiredAll fs dir pluginDirs visits =
      some (overrideAll
        (overrideAll ∅ ((filefmtScripts fs dir pluginDirs).filterMap (scriptEntry fs dir)))
        (listedEntries visits (taken fs dir pluginDirs)
          (dirfmtScripts fs dir pluginDirs).zipIdx)) := by
  have hdirs : ∀ (dirs : List (List Char × ℕ)) (desired : GoMap (List Char) Plugin),
      dirs.foldl (fun desired d =>
        (visits d.2 d.1).entries.foldl (addListed (taken fs dir pluginDirs)) desired) desired =
      overrideAll desired (listedEntries visits (taken fs dir pluginDirs) dirs) := by
    intro dirs
    induction dirs with
    | nil => exact fun desired => rfl
    | cons d dirs ih =>
      intro desired
      rw [List.foldl_cons, ih, foldl_addListed, overrideAll, overrideAll, ← List.foldl_append]
      rfl
  have hfiles : ∀ s ∈ filefmtScripts fs dir pluginDirs, fs.isFile (absPath dir s.path) = true :=
    fun s hs => (List.mem_filter.mp hs).2
  rw [desiredAll, foldlM_addScript hfiles, Option.map_some, hdirs]

/-- A plugin of a bound directory that is not left out. -/
def Listed (fs : FileSystem) (dir : List Char) (pluginDirs : List (List Char)) (k : List Char)
    (p : Plugin) : Prop :=
  ∃ d, BoundDir fs dir pluginDirs d ∧ (listPlugins fs dir (trim '/' d)).lookup k = some p ∧
    ∀ s, BoundScript fs dir pluginDirs s → s.path ≠ k

theorem mem_listedEntries {visits : DirVisits fs dir} :
    ⟨k, p⟩ ∈ listedEntries visits (taken fs dir pluginDirs)
        (dirfmtScripts fs dir pluginDirs).zipIdx ↔ Listed fs dir pluginDirs k p := by
  rw [listedEntries, List.mem_flatMap]
  constructor
  · rintro ⟨⟨d, i⟩, hd, he⟩
    obtain ⟨hentry, hnot⟩ := List.mem_filter.mp he
    refine ⟨d, mem_dirfmtScripts.mp (List.fst_mem_of_mem_zipIdx hd), ?_, ?_⟩
    · exact (visits i d).mem_entries.mp hentry
    · exact isTaken_eq_false_iff.mp (Bool.not_eq_true' _ ▸ hnot)
  · rintro ⟨d, hd, hlookup, hnot⟩
    obtain ⟨i, hi, hget⟩ := List.mem_iff_getElem.mp (mem_dirfmtScripts.mpr hd)
    refine ⟨(d, i), List.mem_zipIdx_iff_getElem?.mpr ?_, ?_⟩
    · rw [List.getElem?_eq_getElem hi, hget]
    · exact List.mem_filter.mpr ⟨(visits i d).mem_entries.mpr hlookup,
        (Bool.not_eq_true' _).mpr (isTaken_eq_false_iff.mpr hnot)⟩

/-- What is wanted comes from a directory, or else from a script, and nothing is lost but what has
the key of another. -/
structure Wanted (fs : FileSystem) (dir : List Char) (pluginDirs : List (List Char))
    (desired : GoMap (List Char) Plugin) : Prop where
  source : ∀ k p, desired.lookup k = some p → Listed fs dir pluginDirs k p ∨
    (∀ p', ¬ Listed fs dir pluginDirs k p') ∧
      ∃ s, BoundScript fs dir pluginDirs s ∧ scriptEntry fs dir s = some ⟨k, p⟩
  listed : ∀ k p, Listed fs dir pluginDirs k p →
    ∃ p', desired.lookup k = some p' ∧ Listed fs dir pluginDirs k p'
  script : ∀ s k p, BoundScript fs dir pluginDirs s → scriptEntry fs dir s = some ⟨k, p⟩ →
    ∃ p', desired.lookup k = some p'

/-- **What the two loops leave**, in whatever order they go. -/
theorem exists_desiredAll (pluginDirs : List (List Char)) (visits : DirVisits fs dir) :
    ∃ desired, desiredAll fs dir pluginDirs visits = some desired ∧
      Wanted fs dir pluginDirs desired := by
  refine ⟨_, desiredAll_eq visits, fun k p hp => ?_, fun k p hlisted => ?_,
    fun s k p hs hentry => ?_⟩
  · rcases lookup_overrideAll_cases hp with hlisted | ⟨hnone, hscript⟩
    · exact Or.inl (mem_listedEntries.mp hlisted)
    · obtain ⟨s, hs, hentry⟩ := List.mem_filterMap.mp (mem_of_lookup_overrideAll hscript)
      refine Or.inr ⟨fun p' hp' => ?_, s, mem_filefmtScripts.mp hs, hentry⟩
      exact hnone ⟨k, p'⟩ (mem_listedEntries.mpr hp') rfl
  · obtain ⟨p', hp', hmem⟩ := exists_lookup_overrideAll _ (mem_listedEntries.mpr hlisted)
    exact ⟨p', hp', mem_listedEntries.mp hmem⟩
  · have hmem := List.mem_filterMap.mpr ⟨s, mem_filefmtScripts.mpr hs, hentry⟩
    refine Option.isSome_iff_exists.mp (AList.lookup_isSome.mpr (mem_overrideAll.mpr (Or.inl ?_)))
    exact mem_overrideAll.mpr (Or.inr ⟨⟨k, p⟩, hmem, rfl⟩)

/-- A file of a directory that is a plugin, with the number its name begins with. -/
def PluginFile (f : FileName × FileInfo) (cycle : Int) : Prop :=
  f.2.isDir = false ∧ 2 ≤ (f.1.1.splitOn '_').length ∧ atoi (firstField f.1.1) = some cycle

theorem listEntry_eq_some_iff {f : FileName × FileInfo} :
    listEntry scriptPath f = some ⟨k, p⟩ ↔ PluginFile f p.cycle ∧
      k = Path.join [scriptPath, f.1.1] ∧ p = ⟨k, f.2.modTime, p.cycle, []⟩ := by
  unfold listEntry PluginFile
  split_ifs with hskip
  · refine iff_of_false (by simp) ?_
    rintro ⟨⟨hdir, hlen, -⟩, -⟩
    rcases hskip with hskip | hskip
    · rw [hdir] at hskip
      cases hskip
    · omega
  · rw [not_or, Bool.not_eq_true, not_lt] at hskip
    rw [Option.map_eq_some_iff]
    constructor
    · rintro ⟨cycle, hcycle, heq⟩
      obtain ⟨rfl, hp⟩ := Sigma.mk.inj heq
      obtain rfl := eq_of_heq hp
      exact ⟨⟨hskip.1, hskip.2, hcycle⟩, rfl, rfl⟩
    · rintro ⟨⟨-, -, hcycle⟩, rfl, hp⟩
      exact ⟨p.cycle, hcycle, by rw [← hp]⟩

theorem exists_of_lookup_listPlugins (h : (listPlugins fs dir scriptPath).lookup k = some p) :
    ∃ f ∈ filesOf fs dir scriptPath, PluginFile f p.cycle ∧
      k = Path.join [scriptPath, f.1.1] ∧ p = ⟨k, f.2.modTime, p.cycle, []⟩ := by
  obtain ⟨f, hf, hentry⟩ := List.mem_filterMap.mp (mem_of_lookup_overrideAll h)
  exact ⟨f, hf, listEntry_eq_some_iff.mp hentry⟩

/-- **The name of a listed file** is at the end of its key, so the key has the cycle. -/
theorem cycle_of_lookup_listPlugins (h : (listPlugins fs dir scriptPath).lookup k = some p) :
    atoi (firstField (Path.fileName k)) = some p.cycle := by
  obtain ⟨f, -, ⟨-, -, hcycle⟩, rfl, -⟩ := exists_of_lookup_listPlugins h
  rw [Path.fileName_join scriptPath f.1.2, hcycle]

theorem exists_lookup_listPlugins {f : FileName × FileInfo} {cycle : Int}
    (hf : f ∈ filesOf fs dir scriptPath) (hplugin : PluginFile f cycle) :
    ∃ p, (listPlugins fs dir scriptPath).lookup (Path.join [scriptPath, f.1.1]) = some p ∧
      p.cycle = cycle := by
  have hentry : listEntry scriptPath f = some ⟨Path.join [scriptPath, f.1.1],
      ⟨Path.join [scriptPath, f.1.1], f.2.modTime, cycle, []⟩⟩ :=
    listEntry_eq_some_iff.mpr ⟨hplugin, rfl, rfl⟩
  obtain ⟨p, hp, -⟩ := exists_lookup_overrideAll ∅ (List.mem_filterMap.mpr ⟨f, hf, hentry⟩)
  refine ⟨p, hp, ?_⟩
  have hcycle := cycle_of_lookup_listPlugins hp
  rw [Path.fileName_join scriptPath f.1.2, hplugin.2.2, Option.some_inj] at hcycle
  exact hcycle.symm

end

/-! ## Keys of scripts -/

theorem notMem_args_readBinding (b : List Char) : '(' ∉ (readBinding b).args := by
  unfold readBinding
  cases h : (b.splitOn '\n').findSome? matchLine with
  | none => exact List.not_mem_nil
  | some s =>
    obtain ⟨line, -, hline⟩ := List.exists_of_findSome?_eq_some h
    obtain ⟨p, -, hcut⟩ := Option.bind_eq_some_iff.mp hline
    obtain ⟨q, hq, rfl⟩ := Option.map_eq_some_iff.mp hcut
    exact (cutLast_eq_some_iff.mp hq).2

/-- **The key of a script has its path and its arguments.** -/
theorem Script.key_inj {s s' : Script} (h : '(' ∉ s.args) (h' : '(' ∉ s'.args)
    (hkey : s.key = s'.key) : s = s' := by
  have hparen : ∀ args : List Char, '(' ∉ args → '(' ∉ args ++ [')'] := by
    intro args hargs
    simpa using hargs
  obtain ⟨hpath, hargs⟩ := eq_of_append_cons_eq_last (hparen _ h) (hparen _ h') hkey
  obtain ⟨path, args⟩ := s
  obtain ⟨path', args'⟩ := s'
  exact Script.mk.injEq .. ▸ ⟨hpath, List.append_cancel_right hargs⟩

theorem Script.path_ne_key (s : Script) : s.path ≠ s.key := by
  intro h
  have hlength := congrArg List.length h
  rw [Script.key, List.length_append, List.length_cons] at hlength
  omega

theorem scriptEntry_eq_some_iff {fs : FileSystem} {dir k : List Char} {s : Script} {p : Plugin} :
    scriptEntry fs dir s = some ⟨k, p⟩ ↔ k = s.key ∧ s.cycle dir = some p.cycle ∧
      ∃ fi, fs.stat (absPath dir s.path) = some fi ∧ p = ⟨s.path, fi.modTime, p.cycle, s.args⟩ := by
  rw [scriptEntry, Option.bind_eq_some_iff]
  constructor
  · rintro ⟨cycle, hcycle, hmap⟩
    obtain ⟨fi, hfi, heq⟩ := Option.map_eq_some_iff.mp hmap
    obtain ⟨rfl, hp⟩ := Sigma.mk.inj heq
    obtain rfl := eq_of_heq hp
    exact ⟨rfl, hcycle, fi, hfi, rfl⟩
  · rintro ⟨rfl, hcycle, fi, hfi, hp⟩
    exact ⟨p.cycle, hcycle, Option.map_eq_some_iff.mpr ⟨fi, hfi, by rw [← hp]⟩⟩

/-! ## Cycles -/

section

variable (fs : FileSystem) (dir : List Char) (pluginDirs : List (List Char))

/-- A plugin file of a bound directory, at the path it is listed under, with its cycle.  It is not
bound alone by this path. -/
def LooseFile (k : List Char) (cycle : Int) : Prop :=
  ∃ d, BoundDir fs dir pluginDirs d ∧
    (∃ f ∈ filesOf fs dir (trim '/' d), PluginFile f cycle ∧ Path.join [trim '/' d, f.1.1] = k) ∧
    ∀ s, BoundScript fs dir pluginDirs s → s.path ≠ k

/-- Names that begin with a number begin with one that is a duration.  A script that is bound alone
does not count if a file of a bound directory has the path that is the script's key. -/
structure PositiveCycles : Prop where
  files : ∀ k cycle, LooseFile fs dir pluginDirs k cycle → 0 < wrap64 (cycle * 1000000000)
  scripts : ∀ s cycle, BoundScript fs dir pluginDirs s → s.cycle dir = some cycle →
    (∀ c, ¬ LooseFile fs dir pluginDirs s.key c) → 0 < wrap64 (cycle * 1000000000)

variable {fs dir pluginDirs}
variable {k : List Char}

theorem looseFile_iff {cycle : Int} :
    LooseFile fs dir pluginDirs k cycle ↔ ∃ p, Listed fs dir pluginDirs k p ∧ p.cycle = cycle := by
  constructor
  · rintro ⟨d, hd, ⟨f, hf, hplugin, rfl⟩, hnot⟩
    obtain ⟨p, hp, hcycle⟩ := exists_lookup_listPlugins hf hplugin
    exact ⟨p, ⟨d, hd, hp, hnot⟩, hcycle⟩
  · rintro ⟨p, ⟨d, hd, hlookup, hnot⟩, rfl⟩
    obtain ⟨f, hf, hplugin, hk, -⟩ := exists_of_lookup_listPlugins hlookup
    exact ⟨d, hd, ⟨f, hf, hplugin, hk.symm⟩, hnot⟩

/-- Two plugins that are listed under one key have one cycle. -/
theorem Listed.cycle_eq {p p' : Plugin} (h : Listed fs dir pluginDirs k p)
    (h' : Listed fs dir pluginDirs k p') : p.cycle = p'.cycle := by
  obtain ⟨d, -, hlookup, -⟩ := h
  obtain ⟨d', -, hlookup', -⟩ := h'
  exact Option.some.inj ((cycle_of_lookup_listPlugins hlookup).symm.trans
    (cycle_of_lookup_listPlugins hlookup'))

theorem PositiveCycles.period_pos (h : PositiveCycles fs dir pluginDirs)
    {desired : GoMap (List Char) Plugin} (hwanted : Wanted fs dir pluginDirs desired) {p : Plugin}
    (hp : desired.lookup k = some p) : 0 < p.period := by
  rcases hwanted.source k p hp with hlisted | ⟨hnone, s, hs, hentry⟩
  · exact h.files k p.cycle (looseFile_iff.mpr ⟨p, hlisted, rfl⟩)
  · obtain ⟨rfl, hcycle, -⟩ := scriptEntry_eq_some_iff.mp hentry
    refine h.scripts s p.cycle hs hcycle fun c hloose => ?_
    obtain ⟨p', hp', -⟩ := looseFile_iff.mp hloose
    exact hnone p' hp'

/-- With such names a round does not panic, whatever runs before it. -/
theorem PositiveCycles.sync_does (h : PositiveCycles fs dir pluginDirs) (visits : DirVisits fs dir)
    {table : PluginTable} (hsound : table.Sound) :
    ∃ desired, desiredAll fs dir pluginDirs visits = some desired ∧
      ∀ r, (Round.sync desired).Does table r → ∃ table', r = some table' ∧ table'.Sound := by
  obtain ⟨desired, hdesired, hwanted⟩ := exists_desiredAll pluginDirs visits
  refine ⟨desired, hdesired, fun r hdoes => ?_⟩
  obtain ⟨table', hr, hsound', -⟩ := hdoes.spec hsound fun k p => h.period_pos hwanted
  exact ⟨table', hr, hsound'⟩

/-- **When every wanted plugin has a ticker.**  All periods are positive exactly if every name that
begins with a number, of a script that is bound alone or of a file in a bound directory, begins with
one whose seconds are a positive duration. -/
theorem desired_periods_positive_iff (visits : DirVisits fs dir) :
    (∃ desired, desiredAll fs dir pluginDirs visits = some desired ∧
      ∀ k p, desired.lookup k = some p → 0 < p.period) ↔ PositiveCycles fs dir pluginDirs := by
  obtain ⟨desired, hdesired, hwanted⟩ := exists_desiredAll pluginDirs visits
  constructor
  · rintro ⟨desired', heq, hpos⟩
    obtain rfl := Option.some.inj (hdesired.symm.trans heq)
    refine ⟨fun k cycle hloose => ?_, fun s cycle hs hcycle hnone => ?_⟩
    · obtain ⟨p, hp, rfl⟩ := looseFile_iff.mp hloose
      obtain ⟨p', hp', hlisted⟩ := hwanted.listed k p hp
      rw [hp.cycle_eq hlisted]
      exact hpos k p' hp'
    · obtain ⟨b, -, hbs, hfile⟩ := id hs
      obtain ⟨fi, hfi⟩ := FileSystem.exists_of_isFile hfile
      obtain ⟨p, hp⟩ := hwanted.script s s.key ⟨s.path, fi.modTime, cycle, s.args⟩ hs
        (scriptEntry_eq_some_iff.mpr ⟨rfl, hcycle, fi, hfi, rfl⟩)
      -- what is found at the key was written for a script with this key, so for this script
      rcases hwanted.source s.key p hp with hlisted | ⟨-, s', ⟨b', -, hbs', -⟩, hentry⟩
      · exact absurd (looseFile_iff.mpr ⟨p, hlisted, rfl⟩) (hnone p.cycle)
      · obtain ⟨hkey, hcycle', -⟩ := scriptEntry_eq_some_iff.mp hentry
        obtain rfl := Script.key_inj (hbs ▸ notMem_args_readBinding b)
          (hbs' ▸ notMem_args_readBinding b') hkey
        rw [hcycle, Option.some_inj] at hcycle'
        rw [hcycle']
        exact hpos s.key p hp
  · exact fun h => ⟨desired, hdesired, fun k p => h.period_pos hwanted⟩

/-- A directory with one file. -/
def oneFile (name : FileName) : FileSystem where
  stat path :=
    if path = "plugin/sys".toList then some ⟨true, 1⟩
    else if path = "plugin/sys/".toList ++ name.1 then some ⟨false, 1⟩
    else none
  readDir path := if path = "plugin/sys".toList then some [(name, ⟨false, 1⟩)] else none

/-- What is wanted of a directory with `0_x.py`. -/
def zeroDesired : GoMap (List Char) Plugin :=
  AList.insert "sys/0_x.py".toList ⟨"sys/0_x.py".toList, 1, 0, []⟩ ∅

/-- `0_x.py` in a bound directory ends the agent. -/
theorem zero_cycle_panics :
    desiredAll (oneFile ⟨"0_x.py".toList, by decide⟩) "./plugin".toList ["sys".toList]
        (fun _ _ => Visit.asWritten _) = some zeroDesired ∧
      (zeroDesired.lookup "sys/0_x.py".toList).map Plugin.period = some 0 ∧
      (Round.sync zeroDesired).Does PluginTable.start none := by
  refine ⟨rfl, by decide +kernel, ?_⟩
  have hnone : ((delNoUsePlugins PluginTable.start zeroDesired (Visit.asWritten _)).bind fun s =>
      addNewPlugins s zeroDesired (Visit.asWritten _)) = none :=
    Option.isNone_iff_eq_none.mp (by decide +kernel)
  exact hnone ▸ Round.Does.sync zeroDesired (Visit.asWritten _) (Visit.asWritten _)

end

/-! ## Scripts and their directories -/

section

variable (fs : FileSystem) (dir : List Char) (pluginDirs : List (List Char))

/-- No file of a bound directory is wanted that is bound alone.  `PluginRun` runs the file at
`absPath dir p.filePath`. -/
def NotRepeated (desired : GoMap (List Char) Plugin) : Prop :=
  ∀ s d k p, BoundScript fs dir pluginDirs s → BoundDir fs dir pluginDirs d →
    (listPlugins fs dir (trim '/' d)).lookup k = some p →
    absPath dir p.filePath = absPath dir s.path → desired.lookup k ≠ some p

/-- If a bound script is a plugin file of a bound directory, then a bound script is typed as the
path of the directory, without slashes around it and cleaned, and the name of the file. -/
def SpelledAlike : Prop :=
  ∀ s d f cycle, BoundScript fs dir pluginDirs s → BoundDir fs dir pluginDirs d →
    f ∈ filesOf fs dir (trim '/' d) → PluginFile f cycle →
    absPath dir s.path = Path.join [absPath dir (trim '/' d), f.1.1] →
    ∃ s', BoundScript fs dir pluginDirs s' ∧ s'.path = Path.join [trim '/' d, f.1.1]

variable {fs dir pluginDirs}

theorem trim_ne_nil_of_mem_filesOf {d : List Char} {f : FileName × FileInfo}
    (hf : f ∈ filesOf fs dir (trim '/' d)) : trim '/' d ≠ [] := by
  intro hnil
  rw [filesOf, if_pos hnil] at hf
  cases hf

/-- **A plugin that was found in a directory runs the file that was found there.** -/
theorem absPath_join_of_mem_filesOf {d : List Char} {f : FileName × FileInfo}
    (hf : f ∈ filesOf fs dir (trim '/' d)) :
    absPath dir (Path.join [trim '/' d, f.1.1]) = Path.join [absPath dir (trim '/' d), f.1.1] := by
  exact Path.join_join dir (trim_ne_nil_of_mem_filesOf hf) (decide_eq_false (head?_trim_ne '/' d))
    f.1.1

/-- Scripts that are typed as plain paths are spelled as they are listed, if no directory is typed
with parents. -/
theorem spelledAlike_of_isPlain
    (hscripts : ∀ s, BoundScript fs dir pluginDirs s → Path.IsPlain s.path)
    (hdirs : ∀ d, BoundDir fs dir pluginDirs d → ∀ e ∈ Path.elements (trim '/' d), e ≠ Path.up) :
    SpelledAlike fs dir pluginDirs := by
  intro s d f cycle hs hd hf _ hsame
  rw [← absPath_join_of_mem_filesOf hf] at hsame
  have hlisted : Path.IsPlain (Path.join [trim '/' d, f.1.1]) :=
    Path.isPlain_join (trim_ne_nil_of_mem_filesOf hf) (decide_eq_false (head?_trim_ne '/' d))
      (hdirs d hd) f.1.2
  exact ⟨s, hs, (hscripts s hs).eq_of_join_eq hlisted hsame⟩

/-- **When a script that is bound alone is not run through its directory.**  This is so exactly if
the bindings spell the path as the listing does. -/
theorem script_not_repeated_iff (visits : DirVisits fs dir) :
    (∃ desired, desiredAll fs dir pluginDirs visits = some desired ∧
      NotRepeated fs dir pluginDirs desired) ↔ SpelledAlike fs dir pluginDirs := by
  obtain ⟨desired, hdesired, hwanted⟩ := exists_desiredAll pluginDirs visits
  constructor
  · rintro ⟨desired', heq, hnot⟩ s d f cycle hs hd hf hplugin hsame
    obtain rfl := Option.some.inj (hdesired.symm.trans heq)
    by_contra hnone
    -- the file is listed and not left out, so it is wanted through some directory
    obtain ⟨p, hp, -⟩ := exists_lookup_listPlugins hf hplugin
    obtain ⟨p', hp', d', hd', hlookup', -⟩ := hwanted.listed _ p
      ⟨d, hd, hp, fun s' hs' heq => hnone ⟨s', hs', heq⟩⟩
    obtain ⟨f', -, -, -, hpath⟩ := exists_of_lookup_listPlugins hlookup'
    refine hnot s d' _ p' hs hd' hlookup' ?_ hp'
    rw [hpath, hsame]
    exact absPath_join_of_mem_filesOf hf
  · intro h
    refine ⟨desired, hdesired, fun s d k p hs hd hlookup hsame hp => ?_⟩
    obtain ⟨f, hf, hplugin, rfl, hpath⟩ := exists_of_lookup_listPlugins hlookup
    rw [hpath] at hsame
    obtain ⟨s', hs', htyped⟩ := h s d f p.cycle hs hd hf hplugin
      (hsame.symm.trans (absPath_join_of_mem_filesOf hf))
    rcases hwanted.source _ p hp with ⟨-, -, -, hfree⟩ | ⟨-, s'', -, hentry⟩
    · exact hfree s' hs' htyped
    · obtain ⟨hkey, -, fi, -, hscript⟩ := scriptEntry_eq_some_iff.mp hentry
      -- the key of a script is not its path, but that of a listed file is
      have hfilePath : s''.path = Path.join [trim '/' d, f.1.1] := by
        rw [hscript] at hpath
        exact congrArg Plugin.filePath hpath
      exact s''.path_ne_key (hfilePath.trans hkey)

/-- `/sys/60_ntp.py` is bound, and so is `sys`: the file is run twice a minute. -/
theorem leading_slash_repeats :
    ∃ desired, desiredAll (oneFile ⟨"60_ntp.py".toList, by decide⟩) "./plugin".toList
        ["/sys/60_ntp.py".toList, "sys".toList] (fun _ _ => Visit.asWritten _) = some desired ∧
      (desired.lookup "/sys/60_ntp.py()".toList).isSome = true ∧
      ¬ NotRepeated (oneFile ⟨"60_ntp.py".toList, by decide⟩) "./plugin".toList
        ["/sys/60_ntp.py".toList, "sys".toList] desired := by
  refine ⟨_, rfl, by decide +kernel, fun h => ?_⟩
  refine h ⟨"/sys/60_ntp.py".toList, []⟩ "sys".toList "sys/60_ntp.py".toList
    ⟨"sys/60_ntp.py".toList, 1, 60, []⟩ ?_ ?_ ?_ ?_ ?_
  · exact ⟨"/sys/60_ntp.py".toList, List.mem_cons_self, by decide +kernel, by decide +kernel⟩
  · exact ⟨"sys".toList, by decide, by decide +kernel, by decide +kernel⟩
  · decide +kernel
  · decide +kernel
  · decide +kernel

end

end OpenFalcon.Agent
