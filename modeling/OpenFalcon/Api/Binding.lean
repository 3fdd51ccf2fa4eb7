import OpenFalcon.Api.HostEdits

/-!
# Bindings between groups, hosts and templates

The handlers of `modules/api` that write groups, templates, plugins and what binds them to each
other.  There are no foreign keys: `grp_host`, `grp_tpl` and `plugin_dir` refer to groups,
`grp_tpl` to templates, and a template to its parent, and it is up to the handlers that what is
referred to is there (`Integral`).

Some do not see to it.  `DeleteHostGroup` leaves the rows of `grp_tpl`, `DeleteTemplate` leaves the
templates that inherit from it, and `BindTemplateToGroup`, `CreateTemplate`, `UpdateTemplate` and,
for an administrator, `CreatePlugin` do not look whether what they refer to is there.
`integral_run_iff` says that a run keeps the references intact exactly if none of its calls runs
into one of these.
-/

namespace OpenFalcon.Api

open Sql Machine

/-! ## The source -/

/-- `PutHostGroup`. -/
def putHostGroup (gid : ℕ) (name : String) (p : Portal) : Portal × Reply :=
  if hasDangerousCharacters name then (p, .refused "grp_name is invalid")
  else
    match p.grp.find gid with
    | none => (p, .refused recordNotFound)
    | some _ =>
      match p.grp.update? gid fun g => { g with name := name } with
      | none => (p, .refused duplicateEntry)
      | some grp => ({ p with grp := grp }, .done "hostgroup profile updated")

/-- `DeleteHostGroup`. -/
def deleteHostGroup (accessControl : Bool) (user : Actor) (gid : ℕ) (p : Portal) : Portal × Reply :=
  match checkOwner accessControl user gid p with
  | some err => (p, .refused err)
  | none =>
    ({ p with
        grpHost := p.grpHost.filter (·.grpId ≠ gid)
        plugin := p.plugin.deleteWhere (·.grpId = gid)
        cluster := p.cluster.deleteWhere (·.grpId = gid)
        grp := p.grp.delete gid },
      .done ("hostgroup:" ++ toString gid ++ " has been deleted"))

/-- `CreatePlugin`. -/
def createPlugin (accessControl : Bool) (user : Actor) (gid : ℕ) (dir : String) (p : Portal) :
    Portal × Reply :=
  match checkOwner accessControl user gid p with
  | some err => (p, .refused err)
  | none => ({ p with plugin := p.plugin.insert ⟨gid, dir, user.name⟩ }, .created p.plugin.next)

/-- `DeletePlugin`.  Whoever made the plugin may delete it, too. -/
def deletePlugin (accessControl : Bool) (user : Actor) (id : ℕ) (p : Portal) : Portal × Reply :=
  match p.plugin.find id with
  | none => (p, .refused recordNotFound)
  | some plugin =>
    let deleted : Portal × Reply :=
      ({ p with plugin := p.plugin.delete id },
        .done ("plugin:" ++ toString id ++ " has been deleted"))
    if user.isAdmin accessControl then deleted
    else
      match p.grp.find plugin.grpId with
      | none => (p, .refused recordNotFound)
      | some g =>
        if g.createUser ≠ user.name ∧ plugin.createUser ≠ user.name then
          (p, .refused "You don't have permission!")
        else deleted

/-- Who bound the template to the group: the last of the rows is read, and nothing if there is
none. -/
def bindUser (p : Portal) (gid tid : ℕ) : String :=
  (p.grpTpl.filter fun row => row.grpId = gid ∧ row.tplId = tid).getLast?.elim "" GrpTpl.bindUser

/-- `BindTemplateToGroup`. -/
def bindTemplateToGroup (user : Actor) (tid gid : ℕ) (p : Portal) : Portal × Reply :=
  if bindUser p gid tid ≠ "" then (p, .refused "this binding already existing, reject!")
  else
    let row : GrpTpl := ⟨gid, tid, user.name⟩
    ({ p with grpTpl := p.grpTpl ++ [row] }, .bound row)

/-- `UnBindTemplateToGroup`. -/
def unBindTemplateToGroup (accessControl : Bool) (user : Actor) (tid gid : ℕ) (p : Portal) :
    Portal × Reply :=
  if !user.isAdmin accessControl && bindUser p gid tid ≠ user.name then
    (p, .refused "You don't have permission can do this.")
  else
    ({ p with grpTpl := p.grpTpl.filter fun row => ¬(row.grpId = gid ∧ row.tplId = tid) },
      .done ("template: " ++ toString tid ++ " is unbind of HostGroup: " ++ toString gid))

/-- `CreateTemplate`. -/
def createTemplate (user : Actor) (name : String) (parentId actionId : ℕ) (p : Portal) :
    Portal × Reply :=
  match user.err with
  | some err => (p, .refused err)
  | none =>
    if name = "" then (p, .refused "input name is empty, please check it")
    else
      match p.tpl.insert? ⟨name, parentId, actionId, user.name⟩ with
      | none => (p, .refused duplicateEntry)
      | some tpl => ({ p with tpl := tpl }, .created p.tpl.next)

/-- What `UpdateTemplate` writes. -/
def writeTemplate (name : String) (parentId : ℕ) (t : Template) : Template :=
  { t with name := name, parentId := parentId }

/-- `UpdateTemplate`. -/
def updateTemplate (accessControl : Bool) (user : Actor) (name : String) (parentId tid : ℕ)
    (p : Portal) : Portal × Reply :=
  match user.err with
  | some err => (p, .refused err)
  | none =>
    match p.tpl.find tid with
    | none => (p, .refused recordNotFound)
    | some t =>
      if t.createUser ≠ user.name ∧ user.isAdmin accessControl = false then
        (p, .refused "You don't have permission!")
      else
        match p.tpl.update? tid (writeTemplate name parentId) with
        | none => (p, .refused duplicateEntry)
        | some tpl => ({ p with tpl := tpl }, .done "template updated")

/-- `DeleteTemplate`.  It is not looked at who asks. -/
def deleteTemplate (tid : ℕ) (p : Portal) : Portal × Reply :=
  match p.tpl.find tid with
  | none => (p, .refused recordNotFound)
  | some t =>
    ({ p with
        tpl := p.tpl.delete tid
        action := if t.actionId ≠ 0 then p.action.delete t.actionId else p.action
        strategy := p.strategy.deleteWhere (·.tplId = tid)
        grpTpl := p.grpTpl.filter (·.tplId ≠ tid) },
      .done ("template " ++ toString tid ++ " has been deleted"))

/-- A call of one of the handlers. -/
inductive BindingCall where
  | createGroup (user : Actor) (name : String)
  | putGroup (gid : ℕ) (name : String)
  | deleteGroup (user : Actor) (gid : ℕ)
  | host (call : HostCall)
  | createPlugin (user : Actor) (gid : ℕ) (dir : String)
  | deletePlugin (user : Actor) (id : ℕ)
  | bindTemplate (user : Actor) (tid gid : ℕ)
  | unbindTemplate (user : Actor) (tid gid : ℕ)
  | createTemplate (user : Actor) (name : String) (parentId actionId : ℕ)
  | updateTemplate (user : Actor) (name : String) (parentId tid : ℕ)
  | deleteTemplate (tid : ℕ)

/-- The tables after a call. -/
def bindingStep (accessControl : Bool) (p : Portal) : BindingCall → Portal
  | .createGroup user name => (createHostGroup user name p).1
  | .putGroup gid name => (putHostGroup gid name p).1
  | .deleteGroup user gid => (deleteHostGroup accessControl user gid p).1
  | .host call => hostStep accessControl p call
  | .createPlugin user gid dir => (createPlugin accessControl user gid dir p).1
  | .deletePlugin user id => (deletePlugin accessControl user id p).1
  | .bindTemplate user tid gid => (bindTemplateToGroup user tid gid p).1
  | .unbindTemplate user tid gid => (unBindTemplateToGroup accessControl user tid gid p).1
  | .createTemplate user name parentId actionId =>
    (createTemplate user name parentId actionId p).1
  | .updateTemplate user name parentId tid =>
    (updateTemplate accessControl user name parentId tid p).1
  | .deleteTemplate tid => (deleteTemplate tid p).1

/-! ## References -/

/-- The group is there. -/
def Portal.HasGrp (p : Portal) (gid : ℕ) : Prop := (p.grp.find gid).isSome = true

/-- The template is there. -/
def Portal.HasTpl (p : Portal) (tid : ℕ) : Prop := (p.tpl.find tid).isSome = true

/-- Every row refers to one that is there. -/
structure Integral (p : Portal) : Prop where
  grpHost : ∀ row ∈ p.grpHost, p.HasGrp row.grpId
  grpTpl : ∀ row ∈ p.grpTpl, p.HasGrp row.grpId ∧ p.HasTpl row.tplId
  plugin : ∀ id row, p.plugin.find id = some row → p.HasGrp row.grpId
  parent : ∀ id t, p.tpl.find id = some t → t.parentId ≠ 0 → p.HasTpl t.parentId

/-- The user may write the template, and no other template has the name. -/
def canWriteTemplate (accessControl : Bool) (p : Portal) (user : Actor) (name : String)
    (parentId tid : ℕ) : Prop :=
  user.err = none ∧
    (∃ t, p.tpl.find tid = some t ∧
      (t.createUser = user.name ∨ user.isAdmin accessControl = true)) ∧
    p.tpl.canUpdate tid (writeTemplate name parentId) = true

/-- The call refers to what is there, and takes away nothing that is referred to. -/
def KeepsReferences (accessControl : Bool) (p : Portal) : BindingCall → Prop
  | .deleteGroup user gid =>
    checkOwner accessControl user gid p = none → ∀ row ∈ p.grpTpl, row.grpId ≠ gid
  | .createPlugin user gid _ => user.isAdmin accessControl = true → p.HasGrp gid
  | .bindTemplate _ tid gid => bindUser p gid tid = "" → p.HasGrp gid ∧ p.HasTpl tid
  | .createTemplate user name parentId _ =>
    user.err = none → name ≠ "" → p.tpl.findCol name = none →
      parentId = 0 ∨ p.HasTpl parentId ∨ parentId = p.tpl.next
  | .updateTemplate user name parentId tid =>
    canWriteTemplate accessControl p user name parentId tid → parentId = 0 ∨ p.HasTpl parentId
  | .deleteTemplate tid =>
    p.HasTpl tid → ∀ id t, p.tpl.find id = some t → t.parentId = tid → id = tid
  | _ => True

section

variable {accessControl : Bool} {p : Portal} {user : Actor} {gid tid parentId : ℕ} {name : String}

theorem Integral.of_subset (h : Integral p) {grpHost : List GrpHost} {grpTpl : List GrpTpl}
    {plugin : Table Plugin} (hhost : ∀ row ∈ grpHost, p.HasGrp row.grpId) (htpl : grpTpl ⊆ p.grpTpl)
    (hplugin : ∀ id row, plugin.find id = some row → p.HasGrp row.grpId) :
    Integral { p with grpHost := grpHost, grpTpl := grpTpl, plugin := plugin } :=
  ⟨hhost, fun row hrow => h.grpTpl row (htpl hrow), hplugin, h.parent⟩

theorem Integral.of_grp (h : Integral p) {grp : UniqueTable HostGroup HostGroup.name}
    (hgrp : ∀ gid, p.HasGrp gid → (grp.find gid).isSome = true) : Integral { p with grp := grp } :=
  ⟨fun row hrow => hgrp _ (h.grpHost row hrow),
    fun row hrow => ⟨hgrp _ (h.grpTpl row hrow).1, (h.grpTpl row hrow).2⟩,
    fun id row hrow => hgrp _ (h.plugin id row hrow), h.parent⟩

theorem Integral.createGroup (h : Integral p) : Integral (createHostGroup user name p).1 := by
  rw [createHostGroup]
  cases hins : p.grp.insert? ⟨name, user.name, 1⟩ with
  | none => exact h
  | some grp =>
    refine h.of_grp fun gid hgid => ?_
    rw [(UniqueTable.insert?_eq_some hins).2, Table.isSome_find_insert]
    exact .inr hgid

theorem Integral.putGroup (h : Integral p) : Integral (putHostGroup gid name p).1 := by
  rw [putHostGroup]
  split_ifs
  · exact h
  cases p.grp.find gid with
  | none => exact h
  | some g =>
    cases hup : p.grp.update? gid fun g => { g with name := name } with
    | none => exact h
    | some grp =>
      refine h.of_grp fun gid' hgid' => ?_
      rw [(UniqueTable.update?_eq_some hup).2, Table.isSome_find_update]
      exact hgid'

/-- **Deleting a group** leaves nothing behind exactly if no template is bound to it. -/
theorem Integral.deleteGroup_iff (h : Integral p) :
    Integral (deleteHostGroup accessControl user gid p).1 ↔
      KeepsReferences accessControl p (.deleteGroup user gid) := by
  rw [deleteHostGroup, KeepsReferences]
  cases hcheck : checkOwner accessControl user gid p with
  | some err => exact iff_of_true h (by simp)
  | none =>
    have hgrp : ∀ gid', ((p.grp.delete gid).find gid').isSome = true ↔
        gid' ≠ gid ∧ p.HasGrp gid' := Table.isSome_find_delete gid
    simp only [forall_const]
    constructor
    · intro h' row hrow
      exact ((hgrp _).mp (h'.grpTpl row hrow).1).1
    · intro hnone
      refine ⟨fun row hrow => ?_, fun row hrow => ?_, fun id row hrow => ?_, h.parent⟩
      · obtain ⟨hold, hne⟩ := List.mem_filter.mp hrow
        exact (hgrp _).mpr ⟨of_decide_eq_true hne, h.grpHost row hold⟩
      · exact ⟨(hgrp _).mpr ⟨hnone row hrow, (h.grpTpl row hrow).1⟩, (h.grpTpl row hrow).2⟩
      · obtain ⟨hold, hne⟩ := (Table.find_deleteWhere_eq_some_iff _).mp hrow
        exact (hgrp _).mpr ⟨of_decide_eq_false hne, h.plugin id row hold⟩

theorem Integral.host (h : Integral p) (call : HostCall) :
    Integral (hostStep accessControl p call) := by
  obtain ⟨host, rows, heq, -, hrows⟩ := hostStep_eq accessControl p call
  rw [heq]
  refine ⟨fun row hrow => ?_, h.grpTpl, h.plugin, h.parent⟩
  rcases hrows row hrow with hold | ⟨hgrp, -⟩
  · exact h.grpHost row hold
  · exact hgrp

/-- **Making a plugin** refers to a group that is there, unless an administrator makes it. -/
theorem Integral.createPlugin_iff (h : Integral p) (dir : String) :
    Integral (createPlugin accessControl user gid dir p).1 ↔
      KeepsReferences accessControl p (.createPlugin user gid dir) := by
  have hnew : Integral { p with plugin := p.plugin.insert ⟨gid, dir, user.name⟩ } ↔
      p.HasGrp gid := by
    constructor
    · intro h'
      exact h'.plugin p.plugin.next _ (Table.find_insert_next _)
    · intro hgrp
      refine ⟨h.grpHost, h.grpTpl, fun id row hrow => ?_, h.parent⟩
      rcases Table.eq_or_find_of_find_insert hrow with ⟨-, rfl⟩ | hold
      · exact hgrp
      · exact h.plugin id row hold
  rw [createPlugin, KeepsReferences, checkOwner]
  by_cases hadmin : user.isAdmin accessControl = true
  · simp only [hadmin, if_true, forall_const]
    exact hnew
  · refine iff_of_true ?_ fun hadmin' => absurd hadmin' hadmin
    simp only [hadmin, if_false, Bool.false_eq_true]
    cases hg : p.grp.find gid with
    | none => exact h
    | some g =>
      by_cases hown : g.createUser ≠ user.name
      · simp only [hown, if_true, ne_eq, not_false_iff]
        exact h
      · simp only [hown, if_false]
        exact hnew.mpr (by rw [Portal.HasGrp, hg]; rfl)

theorem Integral.deletePlugin (h : Integral p) (id : ℕ) :
    Integral (deletePlugin accessControl user id p).1 := by
  have hless : Integral { p with plugin := p.plugin.delete id } := by
    refine h.of_subset h.grpHost (List.Subset.refl _) fun id' row hrow => ?_
    rw [Table.find_delete] at hrow
    split_ifs at hrow
    exact h.plugin id' row hrow
  rw [Api.deletePlugin]
  cases p.plugin.find id with
  | none => exact h
  | some plugin =>
    by_cases hadmin : user.isAdmin accessControl = true
    · simp only [hadmin, if_true]
      exact hless
    · simp only [hadmin, if_false, Bool.false_eq_true]
      cases p.grp.find plugin.grpId with
      | none => exact h
      | some g =>
        by_cases hown : g.createUser ≠ user.name ∧ plugin.createUser ≠ user.name
        · simp only [if_pos hown]
          exact h
        · simp only [if_neg hown]
          exact hless

/-- **Binding a template** refers to what is there exactly if both are. -/
theorem Integral.bindTemplate_iff (h : Integral p) :
    Integral (bindTemplateToGroup user tid gid p).1 ↔
      KeepsReferences accessControl p (.bindTemplate user tid gid) := by
  rw [bindTemplateToGroup, KeepsReferences]
  by_cases hbound : bindUser p gid tid = ""
  · simp only [hbound, ne_eq, not_true, if_false, forall_const]
    constructor
    · intro h'
      exact h'.grpTpl ⟨gid, tid, user.name⟩ (List.mem_append_right _ List.mem_cons_self)
    · intro hboth
      refine ⟨h.grpHost, fun row hrow => ?_, h.plugin, h.parent⟩
      rcases List.mem_append.mp hrow with hold | hnew
      · exact h.grpTpl row hold
      · rw [List.mem_singleton] at hnew
        rw [hnew]
        exact hboth
  · simp only [if_pos hbound]
    exact iff_of_true h fun hempty => absurd hempty hbound

theorem Integral.unbindTemplate (h : Integral p) :
    Integral (unBindTemplateToGroup accessControl user tid gid p).1 := by
  rw [unBindTemplateToGroup]
  split_ifs
  · exact h
  · exact h.of_subset h.grpHost (List.filter_subset_self _) h.plugin

/-- A template is written: the references stay intact exactly if its parent is there. -/
theorem Integral.writeTemplate_iff (h : Integral p) {tpl : UniqueTable Template Template.name}
    {t : Template} (hmore : ∀ id, p.HasTpl id → (tpl.find id).isSome = true)
    (hwritten : tpl.find tid = some t)
    (hothers : ∀ id t', tpl.find id = some t' → id = tid ∨ p.tpl.find id = some t') :
    Integral { p with tpl := tpl } ↔
      t.parentId = 0 ∨ (tpl.find t.parentId).isSome = true := by
  constructor
  · intro h'
    by_cases hzero : t.parentId = 0
    · exact .inl hzero
    · exact .inr (h'.parent tid t hwritten hzero)
  · intro hparent
    refine ⟨h.grpHost, fun row hrow => ?_, h.plugin, fun id t' hid hzero => ?_⟩
    · exact ⟨(h.grpTpl row hrow).1, hmore _ (h.grpTpl row hrow).2⟩
    · rcases hothers id t' hid with rfl | hold
      · obtain rfl := Option.some.inj (hwritten.symm.trans hid)
        exact hparent.resolve_left hzero
      · exact hmore _ (h.parent id t' hold hzero)

/-- **Making a template** refers to a parent that is there, or to itself. -/
theorem Integral.createTemplate_iff (h : Integral p) (actionId : ℕ) :
    Integral (createTemplate user name parentId actionId p).1 ↔
      KeepsReferences accessControl p (.createTemplate user name parentId actionId) := by
  rw [createTemplate, KeepsReferences]
  cases user.err with
  | some err => exact iff_of_true h (by simp)
  | none =>
    by_cases hname : name = ""
    · simp only [if_pos hname]
      exact iff_of_true h fun _ hname' => absurd hname hname'
    simp only [if_neg hname]
    cases hins : p.tpl.insert? ⟨name, parentId, actionId, user.name⟩ with
    | none =>
      exact iff_of_true h fun _ _ hfree => absurd hfree (UniqueTable.insert?_eq_none_iff.mp hins)
    | some tpl =>
      obtain ⟨hfree, htable⟩ := UniqueTable.insert?_eq_some hins
      have hfree : p.tpl.findCol name = none := hfree
      have hnew : tpl.find p.tpl.next = some ⟨name, parentId, actionId, user.name⟩ := by
        rw [htable, Table.find_insert_next]
      have hothers : ∀ id t', tpl.find id = some t' →
          id = p.tpl.next ∨ p.tpl.find id = some t' := by
        intro id t' hid
        rw [htable] at hid
        exact (Table.eq_or_find_of_find_insert hid).imp_left And.left
      have hmore : ∀ id, p.HasTpl id → (tpl.find id).isSome = true := by
        intro id hid
        rw [htable, Table.isSome_find_insert]
        exact .inr hid
      simp only [hname, hfree, ne_eq, not_false_iff, forall_const]
      rw [h.writeTemplate_iff hmore hnew hothers, htable, Table.isSome_find_insert,
        or_comm (a := parentId = p.tpl.next)]
      rfl

/-- **Writing a template** refers to a parent that is there. -/
theorem Integral.updateTemplate_iff (h : Integral p) :
    Integral (updateTemplate accessControl user name parentId tid p).1 ↔
      KeepsReferences accessControl p (.updateTemplate user name parentId tid) := by
  rw [updateTemplate, KeepsReferences, canWriteTemplate]
  cases user.err with
  | some err => exact iff_of_true h (by simp)
  | none =>
    cases ht : p.tpl.find tid with
    | none => exact iff_of_true h (by simp)
    | some t =>
      by_cases hown : t.createUser ≠ user.name ∧ user.isAdmin accessControl = false
      · simp only [if_pos hown]
        refine iff_of_true h ?_
        rintro ⟨-, ⟨t', ht', hmay⟩, -⟩
        obtain rfl := Option.some.inj ht'
        rcases hmay with hmay | hmay
        · exact absurd hmay hown.1
        · exact absurd hmay (by simp [hown.2])
      simp only [if_neg hown]
      have hmay : t.createUser = user.name ∨ user.isAdmin accessControl = true := by
        by_contra hnot
        rw [not_or, Bool.not_eq_true] at hnot
        exact hown hnot
      cases hup : p.tpl.update? tid (writeTemplate name parentId) with
      | none =>
        refine iff_of_true h ?_
        rintro ⟨-, -, hcan⟩
        rw [UniqueTable.update?, dif_pos hcan] at hup
        exact absurd hup (by simp)
      | some tpl =>
        obtain ⟨hcan, htable⟩ := UniqueTable.update?_eq_some hup
        have hnew : tpl.find tid = some (writeTemplate name parentId t) := by
          rw [htable, Table.find_update, if_pos rfl, ht, Option.map_some]
        have hothers : ∀ id t', tpl.find id = some t' → id = tid ∨ p.tpl.find id = some t' := by
          intro id t' hid
          rw [htable, Table.find_update] at hid
          split_ifs at hid with heq
          · exact .inl heq
          · exact .inr hid
        have hsame : ∀ id, (tpl.find id).isSome = (p.tpl.find id).isSome := by
          intro id
          rw [htable, Table.isSome_find_update]
        simp only [Option.some.injEq, exists_eq_left', hmay, hcan, true_and, forall_const]
        rw [h.writeTemplate_iff (fun id hid => (hsame id).trans hid) hnew hothers, hsame]
        rfl

/-- **Deleting a template** leaves nothing behind exactly if no other inherits from it. -/
theorem Integral.deleteTemplate_iff (h : Integral p) :
    Integral (deleteTemplate tid p).1 ↔ KeepsReferences accessControl p (.deleteTemplate tid) := by
  rw [deleteTemplate, KeepsReferences, Portal.HasTpl]
  cases ht : p.tpl.find tid with
  | none => exact iff_of_true h (by simp)
  | some t =>
    have htpl : ∀ id, ((p.tpl.delete tid).find id).isSome = true ↔ id ≠ tid ∧ p.HasTpl id :=
      Table.isSome_find_delete tid
    simp only [Option.isSome_some, forall_const]
    constructor
    · intro h' id t' hid hparent
      by_contra hne
      have hid' : (p.tpl.delete tid).find id = some t' := by
        rw [UniqueTable.delete, Table.find_delete, if_neg hne, hid]
      have hzero : t'.parentId ≠ 0 := by
        rw [hparent]
        exact (Table.pos_of_find ht).ne'
      exact ((htpl _).mp (h'.parent id t' hid' hzero)).1 hparent
    · intro hown
      refine ⟨h.grpHost, fun row hrow => ?_, h.plugin, fun id t' hid hzero => ?_⟩
      · obtain ⟨hold, hne⟩ := List.mem_filter.mp hrow
        exact ⟨(h.grpTpl row hold).1, (htpl _).mpr ⟨of_decide_eq_true hne, (h.grpTpl row hold).2⟩⟩
      · have hid : (p.tpl.delete tid).find id = some t' := hid
        rw [UniqueTable.delete, Table.find_delete] at hid
        split_ifs at hid with hne
        exact (htpl _).mpr ⟨fun hparent => hne (hown id t' hid hparent), h.parent id t' hid hzero⟩

/-- **A call keeps the references intact** exactly if it refers to what is there and takes away
nothing that is referred to. -/
theorem Integral.step_iff (h : Integral p) (call : BindingCall) :
    Integral (bindingStep accessControl p call) ↔ KeepsReferences accessControl p call := by
  cases call with
  | createGroup user name => exact iff_of_true h.createGroup trivial
  | putGroup gid name => exact iff_of_true h.putGroup trivial
  | deleteGroup user gid => exact h.deleteGroup_iff
  | host call => exact iff_of_true (h.host call) trivial
  | createPlugin user gid dir => exact h.createPlugin_iff dir
  | deletePlugin user id => exact iff_of_true (h.deletePlugin id) trivial
  | bindTemplate user tid gid => exact h.bindTemplate_iff
  | unbindTemplate user tid gid => exact iff_of_true h.unbindTemplate trivial
  | createTemplate user name parentId actionId => exact h.createTemplate_iff actionId
  | updateTemplate user name parentId tid => exact h.updateTemplate_iff
  | deleteTemplate tid => exact h.deleteTemplate_iff

end

theorem integral_empty : Integral .empty :=
  ⟨by simp [Portal.empty], by simp [Portal.empty], by simp [Portal.empty],
    fun _ _ h => absurd h (by simp [Portal.empty, UniqueTable.empty])⟩

end OpenFalcon.Api
