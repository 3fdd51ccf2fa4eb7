import OpenFalcon.Api.Portal
import OpenFalcon.Machine.Run
import OpenFalcon.Text.Cut

/-!
# Expressions and their actions

`CreateExrpession`, `UpdateExrpession` and `DeleteExpression` of
`modules/api/app/controller/expression`.  Creating makes an action and an expression that refers
to it; updating writes both; deleting is meant to take both away.  For one who is no
administrator, `DeleteExpression` reads the expression to see who made it, and with it the id of
the action.  For an administrator it does not read it, and deletes the action with the id zero.

So expressions and actions stay paired exactly as long as no administrator deletes an expression
that is there (`paired_run_iff`).  Without access control everyone is one.
-/

namespace OpenFalcon.Api

open Sql Machine Text

/-! ## The source -/

/-- The action of an input. -/
structure ActionInput where
  uic : List String
  url : String
  callback : Int
  beforeCallbackSMS : Int
  afterCallbackSMS : Int
  beforeCallbackMail : Int
  afterCallbackMail : Int

/-- `APICreateExrpessionInput`, and `APIUpdateExrpessionInput` without its id. -/
structure ExpressionInput where
  expression : String
  func : String
  op : String
  rightValue : String
  maxStep : Int
  priority : Int
  note : String
  pause : Int
  action : ActionInput

/-- The row of an action. -/
def ActionInput.row (input : ActionInput) : Action where
  uic := ",".intercalate input.uic
  url := input.url
  callback := input.callback
  beforeCallbackSMS := input.beforeCallbackSMS
  beforeCallbackMail := input.beforeCallbackMail
  afterCallbackSMS := input.afterCallbackSMS
  afterCallbackMail := input.afterCallbackMail

/-- `^(>|=|<|!)(=)?$`. -/
def validOp (op : String) : Bool := op ∈ [">", "=", "<", "!", ">=", "==", "<=", "!="]

/-- `\d+`, and nothing else. -/
def allDigits (s : List Char) : Bool := s ≠ [] && s.all Char.isDigit

/-- `^\-?\d+(\.\d+)?$`. -/
def validRightValue (value : String) : Bool :=
  let s := match value.toList with
    | '-' :: s => s
    | s => s
  match cut '.' s with
  | none => allDigits s
  | some (whole, decimals) => allDigits whole && allDigits decimals

/-- `CheckFormat`: the error, if there is one. -/
def ExpressionInput.checkFormat (input : ExpressionInput) : Option String :=
  if !validOp input.op then some "op's formating is not vaild"
  else if !validRightValue input.rightValue then some "right_value's formating is not vaild"
  else none

/-- `CreateExrpession`. -/
def createExrpession (user : Actor) (input : ExpressionInput) (p : Portal) : Portal × Reply :=
  match input.checkFormat with
  | some err => (p, .refused err)
  | none =>
    let expression : Expression :=
      { expression := input.expression
        func := input.func
        op := input.op
        rightValue := input.rightValue
        maxStep := input.maxStep
        priority := input.priority
        note := input.note
        actionId := p.action.next
        createUser := user.name
        pause := input.pause }
    ({ p with
        action := p.action.insert input.action.row
        expression := p.expression.insert expression }, .done "expression created")

/-- The columns `UpdateExrpession` writes. -/
def ExpressionInput.write (input : ExpressionInput) (e : Expression) : Expression :=
  { e with
    expression := input.expression
    func := input.func
    op := input.op
    rightValue := input.rightValue
    maxStep := input.maxStep
    priority := input.priority
    note := input.note
    pause := input.pause }

/-- `UpdateExrpession`. -/
def updateExrpession (accessControl : Bool) (user : Actor) (id : ℕ) (input : ExpressionInput)
    (p : Portal) : Portal × Reply :=
  match input.checkFormat with
  | some err => (p, .refused err)
  | none =>
    match p.expression.find id with
    | none => (p, .refused ("find expression got error:" ++ recordNotFound))
    | some expression =>
      if !user.isAdmin accessControl && expression.createUser ≠ user.name then
        (p, .refused "You don't have permission!")
      else if (p.action.find expression.actionId).isNone then
        (p, .refused ("find action got error: " ++ recordNotFound))
      else
        ({ p with
            expression := p.expression.update id input.write
            action := p.action.update expression.actionId fun _ => input.action.row },
          .done ("expression:" ++ toString id ++ " has been updated"))

/-- `DeleteExpression`.  What was not read of the expression is empty and zero. -/
def deleteExpression (accessControl : Bool) (user : Actor) (eid : ℕ) (p : Portal) :
    Portal × Reply :=
  let read := if user.isAdmin accessControl then none else p.expression.find eid
  if !user.isAdmin accessControl && read.elim "" Expression.createUser ≠ user.name then
    (p, .refused "You don't have permission!")
  else
    ({ p with
        action := p.action.delete (read.elim 0 Expression.actionId)
        expression := p.expression.delete eid },
      .done ("expression:" ++ toString eid ++ " has been deleted"))

/-- A call of one of the three. -/
inductive ExpressionCall where
  | create (user : Actor) (input : ExpressionInput)
  | update (user : Actor) (id : ℕ) (input : ExpressionInput)
  | delete (user : Actor) (eid : ℕ)

/-- What a call does. -/
def ExpressionCall.run (accessControl : Bool) (p : Portal) : ExpressionCall → Portal × Reply
  | .create user input => createExrpession user input p
  | .update user id input => updateExrpession accessControl user id input p
  | .delete user eid => deleteExpression accessControl user eid p

/-- The tables after a call. -/
def expressionStep (accessControl : Bool) (p : Portal) (call : ExpressionCall) : Portal :=
  (call.run accessControl p).1

/-! ## Pairs -/

/-- Every expression has an action of its own, and every action is that of an expression. -/
structure Paired (p : Portal) : Prop where
  action : ∀ eid e, p.expression.find eid = some e → ∃ a, p.action.find e.actionId = some a
  apart : ∀ eid eid' e e', p.expression.find eid = some e → p.expression.find eid' = some e' →
    e.actionId = e'.actionId → eid = eid'
  owner : ∀ aid a, p.action.find aid = some a →
    ∃ eid e, p.expression.find eid = some e ∧ e.actionId = aid

/-- The call is not the deletion by an administrator of an expression that is there. -/
def LeavesNoAction (accessControl : Bool) (p : Portal) : ExpressionCall → Prop
  | .delete user eid => user.isAdmin accessControl = true → p.expression.find eid = none
  | _ => True

theorem paired_empty : Paired .empty :=
  ⟨fun _ _ h => by simp [Portal.empty] at h, fun _ _ _ _ h => by simp [Portal.empty] at h,
    fun _ _ h => by simp [Portal.empty] at h⟩

section

variable {p : Portal} {accessControl : Bool} {eid : ℕ}

/-- The new action is used by no other expression. -/
theorem Paired.create (h : Paired p) (user : Actor) (input : ExpressionInput) :
    Paired (createExrpession user input p).1 := by
  have hused : ∀ eid e, p.expression.find eid = some e → e.actionId ≠ p.action.next := by
    intro eid e he hnext
    obtain ⟨a, ha⟩ := h.action eid e he
    exact absurd (Table.lt_next_of_find ha) (by omega)
  rw [createExrpession]
  split
  · exact h
  · refine ⟨fun eid e he => ?_, fun eid eid' e e' he he' hsame => ?_, fun aid a ha => ?_⟩
    · rcases Table.eq_or_find_of_find_insert he with ⟨-, rfl⟩ | hold
      · exact ⟨_, Table.find_insert_next _⟩
      · obtain ⟨a, ha⟩ := h.action eid e hold
        exact ⟨a, Table.find_insert_of_find ha _⟩
    · rcases Table.eq_or_find_of_find_insert he with ⟨hnew, rfl⟩ | hold
      · rcases Table.eq_or_find_of_find_insert he' with ⟨hnew', rfl⟩ | hold'
        · rw [hnew, hnew']
        · exact absurd hsame.symm (hused eid' e' hold')
      · rcases Table.eq_or_find_of_find_insert he' with ⟨-, rfl⟩ | hold'
        · exact absurd hsame (hused eid e hold)
        · exact h.apart eid eid' e e' hold hold' hsame
    · rcases Table.eq_or_find_of_find_insert ha with ⟨hnew, -⟩ | hold
      · exact ⟨p.expression.next, _, Table.find_insert_next _, hnew.symm⟩
      · obtain ⟨eid, e, he, hid⟩ := h.owner aid a hold
        exact ⟨eid, e, Table.find_insert_of_find he _, hid⟩

theorem Paired.update (h : Paired p) (user : Actor) (id : ℕ) (input : ExpressionInput) :
    Paired (updateExrpession accessControl user id input p).1 := by
  rw [updateExrpession]
  split
  · exact h
  · split
    · exact h
    · split_ifs
      · exact h
      · exact h
      · rename_i expression hfind _ _
        -- the rows after the update, against those before
        have hexpr : ∀ eid e, (p.expression.update id input.write).find eid = some e →
            ∃ e₀, p.expression.find eid = some e₀ ∧ e₀.actionId = e.actionId := by
          intro eid e he
          obtain ⟨e₀, he₀, rfl⟩ := Table.find_update_eq_some_iff.mp he
          refine ⟨e₀, he₀, ?_⟩
          split_ifs <;> rfl
        refine ⟨fun eid e he => ?_, fun eid eid' e e' he he' hsame => ?_, fun aid a ha => ?_⟩
        · obtain ⟨e₀, he₀, hid⟩ := hexpr eid e he
          obtain ⟨a, ha⟩ := h.action eid e₀ he₀
          rw [← hid]
          exact ⟨_, Table.find_update_eq_some_iff.mpr ⟨a, ha, rfl⟩⟩
        · obtain ⟨e₀, he₀, hid⟩ := hexpr eid e he
          obtain ⟨e₀', he₀', hid'⟩ := hexpr eid' e' he'
          exact h.apart eid eid' e₀ e₀' he₀ he₀' (by rw [hid, hid', hsame])
        · obtain ⟨a₀, ha₀, -⟩ := Table.find_update_eq_some_iff.mp ha
          obtain ⟨eid, e, he, rfl⟩ := h.owner aid a₀ ha₀
          refine ⟨eid, _, Table.find_update_eq_some_iff.mpr ⟨e, he, rfl⟩, ?_⟩
          split_ifs <;> rfl

theorem Paired.delete_both (h : Paired p) {e : Expression} (he : p.expression.find eid = some e) :
    Paired { p with
      action := p.action.delete e.actionId, expression := p.expression.delete eid } := by
  have hexpr : ∀ {eid' e'}, (p.expression.delete eid).find eid' = some e' →
      eid' ≠ eid ∧ p.expression.find eid' = some e' := by
    intro eid' e' he'
    rw [Table.find_delete] at he'
    split_ifs at he' with hid
    exact ⟨hid, he'⟩
  refine ⟨fun eid' e' he' => ?_, fun eid₁ eid₂ e₁ e₂ h₁ h₂ hsame => ?_, fun aid a ha => ?_⟩
  · obtain ⟨hne, hold⟩ := hexpr he'
    rw [Table.find_delete, if_neg fun hsame => hne (h.apart eid' eid e' e hold he hsame)]
    exact h.action eid' e' hold
  · exact h.apart eid₁ eid₂ e₁ e₂ (hexpr h₁).2 (hexpr h₂).2 hsame
  · rw [Table.find_delete] at ha
    split_ifs at ha with haid
    obtain ⟨eid', e', he', rfl⟩ := h.owner aid a ha
    refine ⟨eid', e', ?_, rfl⟩
    rw [Table.find_delete, if_neg, he']
    rintro rfl
    rw [he, Option.some_inj] at he'
    exact haid (by rw [he'])

theorem paired_delete_absent_iff (habsent : p.expression.find eid = none) :
    Paired { p with action := p.action.delete 0, expression := p.expression.delete eid } ↔
      Paired p := by
  have haction : ∀ aid, (p.action.delete 0).find aid = p.action.find aid := by
    intro aid
    rw [Table.find_delete]
    split_ifs with h
    · rw [h, Table.find_zero]
    · rfl
  have hexpr : ∀ eid', (p.expression.delete eid).find eid' = p.expression.find eid' := by
    intro eid'
    rw [Table.find_delete]
    split_ifs with h
    · rw [h, habsent]
    · rfl
  constructor
  · exact fun h => ⟨by simpa only [haction, hexpr] using h.action,
      by simpa only [hexpr] using h.apart, by simpa only [haction, hexpr] using h.owner⟩
  · exact fun h => ⟨by simpa only [haction, hexpr] using h.action,
      by simpa only [hexpr] using h.apart, by simpa only [haction, hexpr] using h.owner⟩

/-- An expression that is deleted alone leaves its action behind. -/
theorem Paired.not_delete_alone (h : Paired p) {e : Expression}
    (he : p.expression.find eid = some e) :
    ¬Paired { p with action := p.action.delete 0, expression := p.expression.delete eid } := by
  intro h'
  obtain ⟨a, ha⟩ := h.action eid e he
  have ha' : (p.action.delete 0).find e.actionId = some a := by
    rw [Table.find_delete, if_neg (Table.pos_of_find ha).ne', ha]
  obtain ⟨eid', e', he', hid⟩ := h'.owner e.actionId a ha'
  rw [Table.find_delete] at he'
  split_ifs at he' with hne
  exact hne (h.apart eid' eid e' e he' he hid)

/-- **A deletion keeps the pairs** exactly if it is not that of an administrator. -/
theorem Paired.delete_iff (h : Paired p) (user : Actor) (eid : ℕ) :
    Paired (deleteExpression accessControl user eid p).1 ↔
      LeavesNoAction accessControl p (.delete user eid) := by
  rw [deleteExpression, LeavesNoAction]
  by_cases hadmin : user.isAdmin accessControl = true
  · simp only [hadmin, if_true, Bool.not_true, Bool.false_and, Bool.false_eq_true, if_false,
      Option.elim_none, forall_const]
    cases he : p.expression.find eid with
    | none => exact iff_of_true ((paired_delete_absent_iff he).mpr h) rfl
    | some e => exact iff_of_false (h.not_delete_alone he) (by simp)
  · refine iff_of_true ?_ fun hadmin' => absurd hadmin' hadmin
    simp only [eq_false_of_ne_true hadmin, Bool.false_eq_true, if_false]
    cases he : p.expression.find eid with
    | none =>
      split_ifs
      · exact h
      · exact (paired_delete_absent_iff he).mpr h
    | some e =>
      split_ifs
      · exact h
      · exact h.delete_both he

/-- **A call keeps the pairs** exactly if it leaves no action behind. -/
theorem Paired.step_iff (h : Paired p) (call : ExpressionCall) :
    Paired (expressionStep accessControl p call) ↔ LeavesNoAction accessControl p call := by
  cases call with
  | create user input => exact iff_of_true (h.create user input) trivial
  | update user id input => exact iff_of_true (h.update user id input) trivial
  | delete user eid => exact h.delete_iff user eid

end

/-- A well-formed input. -/
def sampleExpression : ExpressionInput :=
  ⟨"each(metric=agent.alive)", "all(#3)", "==", "0", 3, 1, "", 0, ⟨["ops"], "", 0, 0, 0, 0, 0⟩⟩

end OpenFalcon.Api
