import OpenFalcon.Nodata.MockCfg

/-!
# The targets of a rule

`getEndpoint` of `modules/nodata/config/service/mockcfg.go`, with `GetHostsFromGroup` of `host.go`
and the tables it reads.  The object of a rule is a text somebody typed into a form, a host, a group
or another endpoint on each line.

Blanks around a line and blank lines should not matter.  Hosts and other endpoints are trimmed, and
then they do not (`getEndpointFromHosts_padded`).  A group is trimmed to see whether the line
is blank, and looked up as it was typed.  So padding the name of a group loses its hosts, unless
they are in another group that the text names (`padding_keeps_targets_iff`).
-/

namespace OpenFalcon.Nodata

open Common Text

variable {F : Type} {now : Int} {obj : String}

/-! ## The source -/

/-- A row of `host`. -/
structure HostRow where
  id : Int
  hostname : String
  maintainBegin : Int
  maintainEnd : Int

/-- A row of `grp`. -/
structure GrpRow where
  id : Int
  grpName : String

/-- A row of `grp_host`. -/
structure GrpHostRow where
  grpId : Int
  hostId : Int

/-- The tables that `GetHostsFromGroup` reads. -/
structure Tables where
  host : List HostRow
  grp : List GrpRow
  grpHost : List GrpHostRow

/-- The host is not in maintenance: `host.maintain_begin > ? OR host.maintain_end < ?`. -/
def HostRow.inService (now : Int) (h : HostRow) : Bool :=
  now < h.maintainBegin ∨ h.maintainEnd < now

/-- The rows of the statement: `grp_host` joined with `host` and `grp`. -/
def Tables.select (db : Tables) (now : Int) (grpName : String) : List (Int × String) :=
  db.grpHost.flatMap fun gh =>
    (db.host.filter fun h => h.id = gh.hostId && h.inService now).flatMap fun h =>
      (db.grp.filter fun g => g.id = gh.grpId && g.grpName = grpName).map fun _ =>
        (h.id, h.hostname)

/-- The body of the loop over the rows; `none` is a row that cannot be scanned. -/
def addHost (hosts : GoMap String Int) : Option (Int × String) → GoMap String Int
  | none => hosts
  | some row => if row.1 < 0 ∨ row.2 = "" then hosts else hosts.insert row.2 row.1

/-- `GetHostsFromGroup`, with what the database answers; `none` if there is no connection or the
query fails. -/
def getHostsFromGroup (answer : Option (List (Option (Int × String)))) : GoMap String Int :=
  match answer with
  | none => ∅
  | some rows => rows.foldl addHost ∅

/-- `GetHostsFromGroup` on a database that answers. -/
def Tables.getHostsFromGroup (db : Tables) (now : Int) (grpName : String) : GoMap String Int :=
  Nodata.getHostsFromGroup (some ((db.select now grpName).map some))

/-! ## The hosts of a group -/

/-- A host in service in a group of that name. -/
structure Tables.Member (db : Tables) (now : Int) (grpName : String) (gh : GrpHostRow)
    (h : HostRow) (g : GrpRow) : Prop where
  bound : gh ∈ db.grpHost
  host : h ∈ db.host
  grp : g ∈ db.grp
  hostId : h.id = gh.hostId
  grpId : g.id = gh.grpId
  grpName : g.grpName = grpName
  inService : h.inService now = true

/-- A group of exactly that name has a host in service of that name. -/
def Tables.InGroup (db : Tables) (now : Int) (grpName hostname : String) : Prop :=
  hostname ≠ "" ∧ ∃ gh h g, db.Member now grpName gh h g ∧ 0 ≤ h.id ∧ h.hostname = hostname

variable {db : Tables} {grpName obj' : String}

theorem Tables.mem_select {row : Int × String} :
    row ∈ db.select now grpName ↔
      ∃ gh h g, db.Member now grpName gh h g ∧ (h.id, h.hostname) = row := by
  simp only [Tables.select, List.mem_flatMap, List.mem_map, List.mem_filter, Bool.and_eq_true,
    decide_eq_true_iff]
  constructor
  · rintro ⟨gh, hgh, h, ⟨hh, hid, hservice⟩, g, ⟨hg, hgid, hname⟩, hrow⟩
    exact ⟨gh, h, g, ⟨hgh, hh, hg, hid, hgid, hname, hservice⟩, hrow⟩
  · rintro ⟨gh, h, g, hmember, hrow⟩
    exact ⟨gh, hmember.bound, h, ⟨hmember.host, hmember.hostId, hmember.inService⟩, g,
      ⟨hmember.grp, hmember.grpId, hmember.grpName⟩, hrow⟩

theorem mem_getHostsFromGroup_some {rows : List (Int × String)} {hostname : String} :
    hostname ∈ getHostsFromGroup (some (rows.map some)) ↔
      hostname ≠ "" ∧ ∃ id, (id, hostname) ∈ rows ∧ 0 ≤ id := by
  show hostname ∈ (rows.map some).foldl addHost ∅ ↔ _
  rw [List.foldl_map]
  induction rows using List.reverseRecOn with
  | nil => simp
  | append_singleton rows row ih =>
    obtain ⟨id, name⟩ := row
    rw [List.foldl_append, List.foldl_cons, List.foldl_nil, addHost]
    simp only [List.mem_append, List.mem_singleton, Prod.mk.injEq]
    split_ifs with hskip
    · rw [ih]
      refine and_congr_right fun hne => exists_congr fun id' => and_congr_left fun hid' => ?_
      refine ⟨Or.inl, fun h => h.resolve_right ?_⟩
      rintro ⟨rfl, rfl⟩
      rcases hskip with hneg | hempty
      · omega
      · exact hne hempty
    · rw [not_or] at hskip
      rw [AList.mem_insert, ih]
      constructor
      · rintro (rfl | ⟨hne, id', hmem, hid'⟩)
        · exact ⟨hskip.2, id, Or.inr ⟨rfl, rfl⟩, not_lt.mp hskip.1⟩
        · exact ⟨hne, id', Or.inl hmem, hid'⟩
      · rintro ⟨hne, id', hmem | ⟨rfl, rfl⟩, hid'⟩
        · exact Or.inr ⟨hne, id', hmem, hid'⟩
        · exact Or.inl rfl

/-- **The hosts of a group** are those in service that the tables put into it. -/
theorem Tables.mem_getHostsFromGroup {hostname : String} :
    hostname ∈ db.getHostsFromGroup now grpName ↔ db.InGroup now grpName hostname := by
  unfold Tables.getHostsFromGroup Tables.InGroup
  rw [mem_getHostsFromGroup_some]
  refine and_congr_right fun _ => ?_
  constructor
  · rintro ⟨id, hmem, hid⟩
    obtain ⟨gh, h, g, hmember, hrow⟩ := Tables.mem_select.mp hmem
    obtain ⟨rfl, rfl⟩ := Prod.mk.inj hrow
    exact ⟨gh, h, g, hmember, hid, rfl⟩
  · rintro ⟨gh, h, g, hmember, hid, rfl⟩
    exact ⟨h.id, Tables.mem_select.mpr ⟨gh, h, g, hmember, rfl⟩, hid⟩

/-! ## Padding -/

/-- The second text is the first one with spaces, tabs or carriage returns added at the start or end
of its lines, and with blank lines added. -/
def Padded (obj obj' : String) : Prop := PadLines (linesOf obj) (linesOf obj')

theorem getEndpointFromHosts_padded (h : Padded obj obj') :
    getEndpointFromHosts obj' = getEndpointFromHosts obj := by
  unfold getEndpointFromHosts
  rw [h.filter_map_trimSpace]

/-- The text names the group, exactly as it stands on a line. -/
def Names (obj : String) (grp : List Char) : Prop := grp ∈ linesOf obj ∧ trimSpace grp ≠ []

/-- A host of a group that `obj` names and `obj'` does not is in a group that `obj'` names. -/
def Tables.Covered (db : Tables) (now : Int) (obj obj' : String) : Prop :=
  ∀ grp, Names obj grp → ¬ Names obj' grp →
    ∀ hostname, db.InGroup now (String.ofList grp) hostname →
      ∃ grp', Names obj' grp' ∧ db.InGroup now (String.ofList grp') hostname

/-- The endpoints of a rule for groups are the hosts of the groups it names. -/
theorem Tables.mem_hostsOfGroups {ep : String} :
    ep ∈ hostsOfGroups (db.getHostsFromGroup now) obj ↔
      ∃ grp, Names obj grp ∧ db.InGroup now (String.ofList grp) ep := by
  rw [Nodata.mem_hostsOfGroups]
  refine exists_congr fun grp => ?_
  rw [Tables.mem_getHostsFromGroup, Names, and_assoc]
  refine and_congr_right fun _ => and_congr_right fun _ => ?_
  exact ⟨fun h => h.1, fun h => ⟨h, h.1⟩⟩

theorem Tables.covered_iff :
    db.Covered now obj obj' ↔ ∀ ep, ep ∈ hostsOfGroups (db.getHostsFromGroup now) obj →
      ep ∈ hostsOfGroups (db.getHostsFromGroup now) obj' := by
  simp only [Tables.mem_hostsOfGroups]
  constructor
  · rintro hcovered ep ⟨grp, hnames, hin⟩
    by_cases hnames' : Names obj' grp
    · exact ⟨grp, hnames', hin⟩
    · exact hcovered grp hnames hnames' ep hin
  · exact fun hsub grp hnames _ ep hin => hsub ep ⟨grp, hnames, hin⟩

/-- **Padding keeps the targets, if and only if the groups keep their names or their hosts.**  For
every database, object type and object text, and every text that is the same but for blanks around
the lines and blank lines: `getEndpoint` returns the same endpoints exactly if the type is not
`group`, or no host is only in groups that one of the two texts does not name. -/
theorem padding_keeps_targets_iff (db : Tables) (now : Int) (row : Option (MockRow F))
    (visit : ∀ grps, Visit (hostsOfGroups (db.getHostsFromGroup now) grps)) (objType : ObjType)
    {obj obj' : String} (hpadded : Padded obj obj') :
    (∀ ep, ep ∈ (Fetched.mk row (db.getHostsFromGroup now) visit).getEndpoint objType obj' ↔
        ep ∈ (Fetched.mk row (db.getHostsFromGroup now) visit).getEndpoint objType obj) ↔
      (objType = .group → db.Covered now obj obj' ∧ db.Covered now obj' obj) := by
  have htrimmed := getEndpointFromHosts_padded hpadded
  have hgroup : ∀ text ep, ep ∈ (visit text).entries.map Sigma.fst ↔
      ep ∈ hostsOfGroups (db.getHostsFromGroup now) text :=
    fun text _ => ((visit text).perm.map Sigma.fst).mem_iff
  cases objType with
  | host =>
    refine iff_of_true (fun ep => ?_) fun h => absurd h (by decide)
    show ep ∈ getEndpointFromHosts obj' ↔ ep ∈ getEndpointFromHosts obj
    rw [htrimmed]
  | group =>
    show (∀ ep, ep ∈ (visit obj').entries.map Sigma.fst ↔
      ep ∈ (visit obj).entries.map Sigma.fst) ↔ _
    simp only [hgroup, forall_const, Tables.covered_iff]
    exact ⟨fun h => ⟨fun ep => (h ep).mpr, fun ep => (h ep).mp⟩, fun h ep => ⟨h.2 ep, h.1 ep⟩⟩
  | other =>
    refine iff_of_true (fun ep => ?_) fun h => absurd h (by decide)
    show ep ∈ getEndpointFromHosts obj' ↔ ep ∈ getEndpointFromHosts obj
    rw [htrimmed]
  | unknown text => exact iff_of_true (fun _ => Iff.rfl) fun h => absurd h (by simp)

/-- A host in a group. -/
def sampleTables : Tables where
  host := [⟨1, "web01", 0, 0⟩]
  grp := [⟨1, "web"⟩]
  grpHost := [⟨1, 1⟩]

/-- A row as it is read from that database. -/
def sampleFetched : Fetched Unit where
  row := none
  getHostsFromGroup := sampleTables.getHostsFromGroup 100
  visit := fun _ => Visit.asWritten _

theorem padded_web : Padded "web" "web\r" := by
  have hline : PadLines ["web".toList] [[] ++ "web".toList ++ ['\r']] :=
    PadLines.line (by simp) (by simp [isPad]) PadLines.nil
  exact hline

/-- A carriage return behind the name of a group, as a browser sends it. -/
theorem padding_loses_targets :
    Padded "web" "web\r" ∧ sampleFetched.getEndpoint .group "web" = ["web01"] ∧
      sampleFetched.getEndpoint .group "web\r" = [] := by
  refine ⟨padded_web, ?_, ?_⟩
  · decide +kernel
  · decide +kernel

/-- The condition met, by a host. -/
theorem padding_keeps_hosts :
    Padded "web" "web\r" ∧ ∀ ep, ep ∈ sampleFetched.getEndpoint .host "web\r" ↔
      ep ∈ sampleFetched.getEndpoint .host "web" :=
  ⟨padded_web, (padding_keeps_targets_iff sampleTables 100 none _ .host padded_web).mpr
    fun h => absurd h (by decide)⟩

end OpenFalcon.Nodata
