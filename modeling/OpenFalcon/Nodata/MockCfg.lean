import OpenFalcon.Common.TagText
import OpenFalcon.Nodata.Judge
import OpenFalcon.Text.Fields

/-!
# The rules of nodata

`modules/nodata/config/service/mockcfg.go`.  A row of the table says which series are to be mocked:
a metric with tags, for hosts, for the hosts of groups, or for other endpoints, each on a line of
its own.  `GetMockCfgFromDB` reads the rows as the database gives them and keeps one rule for every
series.  If two rows are about one series, a rule for a host replaces one for a group, and otherwise
the first one stays.

The rows are contestants (`Assoc.contest`): at a key the map has the winner of the rules that were
proposed there.  That the winner is for a group only if no host was among them is an invariant of
the contest in every order (`objType_winner`).
-/

namespace OpenFalcon.Nodata

open Common Assoc Text

variable {F : Type} {ep : String}

/-! ## The source -/

/-- What a row is about.  The column has a text. -/
inductive ObjType where
  | host
  | group
  | other
  | unknown (text : String)
  deriving DecidableEq

/-- The case of `switch objType` a text belongs to. -/
def ObjType.ofString (text : String) : ObjType :=
  if text = "host" then host
  else if text = "group" then group
  else if text = "other" then other
  else unknown text

/-- The columns of `mockcfg`. -/
structure MockRow (F : Type) where
  id : Int
  name : String
  obj : String
  objType : String
  metric : String
  tags : String
  dstype : String
  step : Int
  mock : F

/-- `MockCfg`. -/
structure MockCfg (F : Type) where
  id : Int
  name : String
  obj : String
  objType : ObjType
  metric : String
  tags : Tags
  type : String
  step : Int
  mock : F

/-- What a row is scanned into, with its tags as a map. -/
def MockRow.mockCfg (row : MockRow F) : MockCfg F where
  id := row.id
  name := row.name
  obj := row.obj
  objType := ObjType.ofString row.objType
  metric := row.metric
  tags := dictedTagstring row.tags
  type := row.dstype
  step := row.step
  mock := row.mock

/-- `checkMockCfg`. -/
def checkMockCfg (mc : MockCfg F) : Except String Unit :=
  if mc.metric = "" then .error "bad mockcfg, metric empty"
  else if mc.type ≠ "GAUGE" then .error ("bad mockcfg, type illegal, type=" ++ mc.type)
  else if mc.step < 1 then .error ("bad mockcfg, step illegal, step=" ++ toString mc.step)
  else .ok ()

/-- `model.NodataConfig`, with where it comes from. -/
structure NodataRule (F : Type) extends NodataConfig F where
  id : Int
  name : String
  objType : ObjType

/-- `NewNodataConfig`, as it is called for an endpoint of a row. -/
def newNodataConfig (t : MockCfg F) (ep : String) : NodataRule F where
  id := t.id
  name := t.name
  objType := t.objType
  endpoint := ep
  metric := t.metric
  tags := t.tags
  type := t.type
  step := t.step
  mock := t.mock

/-- `isSpuerNodataCfg`. -/
def isSpuerNodataCfg (a b : NodataRule F) : Bool :=
  if a.objType = .group ∧ b.objType = .host then false else true

/-- `strings.Split(text, "\n")`. -/
def linesOf (text : String) : List (List Char) := text.toList.splitOn '\n'

/-- `getEndpointFromHosts`, and `getEndpointFromOther`. -/
def getEndpointFromHosts (hosts : String) : List String :=
  (((linesOf hosts).map trimSpace).filter (· ≠ [])).map String.ofList

/-- The body of the loop of `getEndpointFromGroups` over the lines.  A group is looked up by the
line as it is. -/
def addGroup (getHostsFromGroup : String → GoMap String Int) (hosts : GoMap String String)
    (grp : List Char) : GoMap String String :=
  if (trimSpace grp).length < 1 then hosts
  else
    (getHostsFromGroup (String.ofList grp)).entries.foldl (fun hosts e =>
      if e.1 ≠ "" then hosts.insert e.1 e.1 else hosts) hosts

/-- The hosts of the groups, each once. -/
def hostsOfGroups (getHostsFromGroup : String → GoMap String Int) (grps : String) :
    GoMap String String :=
  (linesOf grps).foldl (addGroup getHostsFromGroup) ∅

/-- A row as it is read, `none` if it cannot be scanned, with the answers of the database about
groups at that time and the order in which their hosts are ranged over. -/
structure Fetched (F : Type) where
  row : Option (MockRow F)
  getHostsFromGroup : String → GoMap String Int
  visit : ∀ grps, Visit (hostsOfGroups getHostsFromGroup grps)

/-- `getEndpoint`. -/
def Fetched.getEndpoint (r : Fetched F) (objType : ObjType) (obj : String) : List String :=
  match objType with
  | .host => getEndpointFromHosts obj
  | .group => (r.visit obj).entries.map Sigma.fst
  | .other => getEndpointFromHosts obj
  | .unknown _ => []

/-- The body of the loop over the endpoints. -/
def addEndpoint (t : MockCfg F) (ret : GoMap String (NodataRule F)) (ep : String) :
    GoMap String (NodataRule F) :=
  contestAt isSpuerNodataCfg ret ⟨pk ep t.metric t.tags, newNodataConfig t ep⟩

/-- The configuration of a row that can be scanned and is valid. -/
def Fetched.mockCfg (r : Fetched F) : Option (MockCfg F) :=
  r.row.bind fun row =>
    match checkMockCfg row.mockCfg with
    | .ok () => some row.mockCfg
    | .error _ => none

/-- The body of the loop over the rows.  A row without endpoints adds nothing. -/
def addRow (ret : GoMap String (NodataRule F)) (r : Fetched F) : GoMap String (NodataRule F) :=
  match r.mockCfg with
  | none => ret
  | some t => (r.getEndpoint t.objType t.obj).foldl (addEndpoint t) ret

/-- `GetMockCfgFromDB`.  Without a connection or an answer there are no rows. -/
def getMockCfgFromDB (rows : List (Fetched F)) : GoMap String (NodataRule F) :=
  rows.foldl addRow ∅

/-! ## What a row is about -/

/-- The endpoints a row names: a line that is not blank, without the spaces around it, or a host of
a group that has the line as its name. -/
def Fetched.Expands (r : Fetched F) (t : MockCfg F) (ep : String) : Prop :=
  match t.objType with
  | .host => ∃ line ∈ linesOf t.obj, trimSpace line ≠ [] ∧ String.ofList (trimSpace line) = ep
  | .group => ∃ grp ∈ linesOf t.obj, trimSpace grp ≠ [] ∧
      ep ∈ r.getHostsFromGroup (String.ofList grp) ∧ ep ≠ ""
  | .other => ∃ line ∈ linesOf t.obj, trimSpace line ≠ [] ∧ String.ofList (trimSpace line) = ep
  | .unknown _ => False

/-- A row that is valid proposes a rule for the key of every endpoint it names. -/
def Fetched.Proposes (r : Fetched F) (k : String) (rule : NodataRule F) : Prop :=
  ∃ t ep, r.mockCfg = some t ∧ r.Expands t ep ∧ pk ep t.metric t.tags = k ∧
    newNodataConfig t ep = rule

theorem mem_getEndpointFromHosts {hosts : String} :
    ep ∈ getEndpointFromHosts hosts ↔
      ∃ line ∈ linesOf hosts, trimSpace line ≠ [] ∧ String.ofList (trimSpace line) = ep := by
  rw [getEndpointFromHosts, List.mem_map]
  constructor
  · rintro ⟨name, hname, rfl⟩
    obtain ⟨hmem, hne⟩ := List.mem_filter.mp hname
    obtain ⟨line, hline, rfl⟩ := List.mem_map.mp hmem
    exact ⟨line, hline, of_decide_eq_true hne, rfl⟩
  · rintro ⟨line, hline, hne, rfl⟩
    exact ⟨trimSpace line, List.mem_filter.mpr ⟨List.mem_map_of_mem hline, decide_eq_true hne⟩, rfl⟩

theorem mem_addGroup {getHostsFromGroup : String → GoMap String Int} {hosts : GoMap String String}
    {grp : List Char} :
    ep ∈ addGroup getHostsFromGroup hosts grp ↔ ep ∈ hosts ∨
      trimSpace grp ≠ [] ∧ ep ∈ getHostsFromGroup (String.ofList grp) ∧ ep ≠ "" := by
  have hloop : ∀ (es : List (Σ _ : String, Int)) (hosts : GoMap String String),
      ep ∈ es.foldl (fun hosts e => if e.1 ≠ "" then hosts.insert e.1 e.1 else hosts) hosts ↔
        ep ∈ hosts ∨ ep ∈ es.keys ∧ ep ≠ "" := by
    intro es
    induction es with
    | nil => simp
    | cons e es ih =>
      intro hosts
      rw [List.foldl_cons, ih, List.keys_cons, List.mem_cons]
      by_cases he : e.1 = ""
      · rw [if_neg (not_not.mpr he), he]
        tauto
      · rw [if_pos he, AList.mem_insert]
        constructor
        · rintro ((rfl | hmem) | hmem)
          · exact Or.inr ⟨Or.inl rfl, he⟩
          · exact Or.inl hmem
          · exact Or.inr ⟨Or.inr hmem.1, hmem.2⟩
        · rintro (hmem | ⟨rfl | hmem, hne⟩)
          · exact Or.inl (Or.inr hmem)
          · exact Or.inl (Or.inl rfl)
          · exact Or.inr ⟨hmem, hne⟩
  unfold addGroup
  split_ifs with hblank
  · have hnil : trimSpace grp = [] := List.length_eq_zero_iff.mp (by omega)
    simp [hnil]
  · have hne : trimSpace grp ≠ [] := fun hnil => hblank (by simp [hnil])
    rw [hloop]
    exact or_congr_right (by simp only [hne, ne_eq, not_false_eq_true, true_and]; rfl)

theorem mem_hostsOfGroups {getHostsFromGroup : String → GoMap String Int} {grps : String} :
    ep ∈ hostsOfGroups getHostsFromGroup grps ↔
      ∃ grp ∈ linesOf grps, trimSpace grp ≠ [] ∧
        ep ∈ getHostsFromGroup (String.ofList grp) ∧ ep ≠ "" := by
  unfold hostsOfGroups
  induction linesOf grps using List.reverseRecOn with
  | nil => simp
  | append_singleton lines grp ih =>
    rw [List.foldl_append, List.foldl_cons, List.foldl_nil, mem_addGroup, ih]
    simp only [List.mem_append, List.mem_singleton, or_and_right, exists_or, exists_eq_left]

variable {r : Fetched F}

/-- **The endpoints of a row** are those it names. -/
theorem Fetched.mem_getEndpoint {t : MockCfg F} :
    ep ∈ r.getEndpoint t.objType t.obj ↔ r.Expands t ep := by
  unfold Fetched.getEndpoint Fetched.Expands
  cases t.objType with
  | host => exact mem_getEndpointFromHosts
  | group =>
    have hkeys : ((r.visit t.obj).entries.map Sigma.fst).Perm
        (hostsOfGroups r.getHostsFromGroup t.obj).keys := (r.visit t.obj).perm.map Sigma.fst
    exact hkeys.mem_iff.trans mem_hostsOfGroups
  | other => exact mem_getEndpointFromHosts
  | unknown text => exact iff_of_false List.not_mem_nil id

/-! ## The contest -/

/-- The rules a row proposes, in order. -/
def Fetched.rules (r : Fetched F) : List (Σ _ : String, NodataRule F) :=
  match r.mockCfg with
  | none => []
  | some t => (r.getEndpoint t.objType t.obj).map fun ep =>
      ⟨pk ep t.metric t.tags, newNodataConfig t ep⟩

variable {rule : NodataRule F}

theorem Fetched.mem_rules {k : String} : ⟨k, rule⟩ ∈ r.rules ↔ r.Proposes k rule := by
  unfold Fetched.rules Fetched.Proposes
  cases r.mockCfg with
  | none => simp
  | some t =>
    refine List.mem_map.trans ?_
    constructor
    · rintro ⟨ep, hep, heq⟩
      obtain ⟨hk, hrule⟩ := Sigma.mk.inj heq
      exact ⟨t, ep, rfl, Fetched.mem_getEndpoint.mp hep, hk, eq_of_heq hrule⟩
    · rintro ⟨t', ep, ht, hep, rfl, rfl⟩
      obtain rfl := Option.some.inj ht
      exact ⟨ep, Fetched.mem_getEndpoint.mpr hep, rfl⟩

theorem addRow_eq (ret : GoMap String (NodataRule F)) (r : Fetched F) :
    addRow ret r = contest isSpuerNodataCfg ret r.rules := by
  unfold addRow Fetched.rules
  cases r.mockCfg with
  | none => rfl
  | some t =>
    show _ = ((r.getEndpoint _ _).map _).foldl (contestAt isSpuerNodataCfg) ret
    rw [List.foldl_map]
    rfl

/-- **All rows are one contest.** -/
theorem getMockCfgFromDB_eq (rows : List (Fetched F)) :
    getMockCfgFromDB rows = contest isSpuerNodataCfg ∅ (rows.flatMap Fetched.rules) := by
  unfold getMockCfgFromDB contest
  rw [List.foldl_flatMap]
  exact congrArg (fun f => rows.foldl f ∅) (funext fun ret => funext (addRow_eq ret))

/-- **A winner for a group had no host against it.** -/
theorem objType_winner {rules : List (NodataRule F)} (h : winner isSpuerNodataCfg rules = some rule)
    (hgroup : rule.objType = .group) : ∀ rule' ∈ rules, rule'.objType ≠ .host := by
  induction rules using List.reverseRecOn generalizing rule with
  | nil => cases h
  | append_singleton rules new ih =>
    rw [winner_concat] at h
    obtain rfl := Option.some.inj h
    intro rule' hrule'
    cases hold : winner isSpuerNodataCfg rules with
    | none =>
      -- the first rule proposed
      rw [hold] at hgroup
      obtain rfl : rules = [] := by
        cases rules with
        | nil => rfl
        | cons first rules => cases hold
      obtain rfl := List.mem_singleton.mp hrule'
      exact fun hhost => absurd (hgroup.symm.trans hhost) (by decide)
    | some old =>
      rw [hold] at hgroup
      have hwin : (win isSpuerNodataCfg old new).objType = .group := hgroup
      unfold win isSpuerNodataCfg at hwin
      by_cases hbeats : old.objType = .group ∧ new.objType = .host
      · -- the new rule wins, and it is for a host
        rw [if_pos hbeats, if_neg (by decide), hbeats.2] at hwin
        cases hwin
      · rw [if_neg hbeats, if_pos rfl] at hwin
        rcases List.mem_append.mp hrule' with hmem | hmem
        · exact ih hold hwin rule' hmem
        · obtain rfl := List.mem_singleton.mp hmem
          exact fun hhost => hbeats ⟨hwin, hhost⟩

/-- **Host rules beat group rules.**  Whatever the rows and their order, the map has a key exactly
if a valid row proposes a rule for it, what it has there is such a rule, and it is for a group only
if no valid row for hosts names the key. -/
theorem host_rules_beat_group_rules (rows : List (Fetched F)) (k : String) :
    (k ∈ getMockCfgFromDB rows ↔ ∃ r ∈ rows, ∃ rule, r.Proposes k rule) ∧
    ∀ rule, (getMockCfgFromDB rows).lookup k = some rule →
      (∃ r ∈ rows, r.Proposes k rule) ∧
      (rule.objType = .group →
        ∀ r ∈ rows, ∀ rule', r.Proposes k rule' → rule'.objType ≠ .host) := by
  have hvalues : ∀ rule, rule ∈ valuesAt k (rows.flatMap Fetched.rules) ↔
      ∃ r ∈ rows, r.Proposes k rule := by
    intro rule
    rw [mem_valuesAt, List.mem_flatMap]
    exact exists_congr fun r => and_congr_right fun _ => Fetched.mem_rules
  have hlookup : (getMockCfgFromDB rows).lookup k =
      winner isSpuerNodataCfg (valuesAt k (rows.flatMap Fetched.rules)) := by
    rw [getMockCfgFromDB_eq, lookup_contest]
  constructor
  · rw [← AList.lookup_isSome, hlookup]
    constructor
    · intro hsome
      obtain ⟨rule, hrule⟩ := Option.isSome_iff_exists.mp hsome
      obtain ⟨r, hr, hpropose⟩ := (hvalues rule).mp (mem_of_winner isSpuerNodataCfg hrule)
      exact ⟨r, hr, rule, hpropose⟩
    · rintro ⟨r, hr, rule, hpropose⟩
      obtain ⟨v, vs, hvs⟩ := List.exists_cons_of_ne_nil
        (List.ne_nil_of_mem ((hvalues rule).mpr ⟨r, hr, hpropose⟩))
      rw [hvs]
      rfl
  · intro rule hrule
    rw [hlookup] at hrule
    refine ⟨(hvalues rule).mp (mem_of_winner isSpuerNodataCfg hrule), ?_⟩
    intro hgroup r hr rule' hpropose
    exact objType_winner hrule hgroup rule' ((hvalues rule').mpr ⟨r, hr, hpropose⟩)

end OpenFalcon.Nodata
