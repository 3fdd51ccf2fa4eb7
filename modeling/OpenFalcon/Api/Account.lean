import OpenFalcon.Api.Portal
import OpenFalcon.Machine.Run

/-!
# Users and sessions

The handlers of `modules/api/app/controller/uic` that write users and sessions, `SessionChecking`
and `GetUser` of `modules/api/app/helper`, and the middleware `AuthSessionMidd` before the routes
that need a session.

*Privileges.*  `AdminUserDelete` and `AdminLogin` compare the role of the target with that of the
one who asks.  `AdminChangePassword` and `ChangeRoleOfUser` ask only whether the one who asks is an
administrator, so an administrator can take over or demote a user with a higher role.  A run spares
the users with a higher role exactly if no such request is made (`harmless_run_iff`).

*Expiry.*  A session gets a time until which it is good, and nothing ever reads it:
`SessionChecking` accepts whatever row there is, and `Login` and `AdminLogin` give out the row that
is there.  A run keeps to the rule exactly if no session is used, and no user logs in, after the
time has passed (`lawful_run_iff`).
-/

namespace OpenFalcon.Api

open Sql Machine

/-! ## The source -/

/-- A row of `user`.  The other columns are contact data. -/
structure User where
  name : String
  passwd : String
  role : Int
  deriving DecidableEq

/-- A row of `session`. -/
structure Session where
  uid : ℕ
  sig : String
  expired : Int
  deriving DecidableEq

/-- The tables of `uic` that the handlers write. -/
structure Uic where
  user : UniqueTable User User.name
  session : Table Session

/-- The tables without rows. -/
def Uic.empty : Uic := ⟨.empty, .empty⟩

/-- The settings that are read, and `HashIt` with the salt that is set. -/
structure Config where
  accessControl : Bool
  skipAuth : Bool
  signupDisable : Bool
  defaultToken : String
  hashIt : String → String

/-- The header `Apitoken`: not there, no JSON, or a name and a sig. -/
inductive Apitoken where
  | missing
  | malformed (err : String)
  | token (name sig : String)

/-- `GetSession`. -/
def getSession : Apitoken → Except String (String × String)
  | .missing => .error "token key is not set"
  | .malformed err => .error err
  | .token name sig =>
    if name = "" then .error "token key:name is empty"
    else if sig = "" then .error "token key:sig is empty"
    else .ok (name, sig)

/-- The sig is that of `default_token`, which is used for access from other servers. -/
def Config.isDefault (cfg : Config) (sig : String) : Bool :=
  cfg.defaultToken ≠ "" && sig = cfg.defaultToken

/-- `SessionChecking`: the error, if the token is not accepted. -/
def sessionChecking (cfg : Config) (db : Uic) (token : Apitoken) : Option String :=
  match getSession token with
  | .error err => some err
  | .ok (name, sig) =>
    if cfg.isDefault sig then none
    else
      match db.user.findCol name with
      | none => some "not found this user"
      | some (uid, _) =>
        match db.session.findBy fun s => s.sig = sig ∧ s.uid = uid with
        | none => some "session not found"
        | some _ => none

/-- `AuthSessionMidd`: the error, if the request is not let through. -/
def authSessionMidd (cfg : Config) (db : Uic) (token : Apitoken) : Option String :=
  if cfg.skipAuth then none else sessionChecking cfg db token

/-- `GetUser` of the helpers. -/
def getUser (db : Uic) (token : Apitoken) : Actor :=
  match getSession token with
  | .error err => ⟨"", 0, some err⟩
  | .ok (name, _) =>
    match db.user.findCol name with
    | none => ⟨name, 0, some recordNotFound⟩
    | some (_, u) => ⟨u.name, u.role, none⟩

/-- `IsAdmin` of a user. -/
def User.isAdmin (cfg : Config) (u : User) : Bool :=
  Actor.isAdmin cfg.accessControl ⟨u.name, u.role, none⟩

/-- The reply of a handler. -/
inductive AccountReply where
  | login (sig name : String) (admin : Bool)
  | created (sig name : String)
  | done (text : String)
  | refused (text : String)
  deriving DecidableEq

/-- The session of a user.  If there are several, the one that was made last is read. -/
def sessionOf (db : Uic) (uid : ℕ) : Option (ℕ × Session) := db.session.findBy fun s => s.uid = uid

/-- The sig of the session of a user, which is made if there is none. -/
def openSession (db : Uic) (uid : ℕ) (now : Int) (uuid : String) : Uic × String :=
  match sessionOf db uid with
  | some (_, s) => (db, s.sig)
  | none => ({ db with session := db.session.insert ⟨uid, uuid, now + 3600 * 24 * 30⟩ }, uuid)

/-- `Login`. -/
def login (cfg : Config) (now : Int) (uuid : String) (name password : String) (db : Uic) :
    Uic × AccountReply :=
  match db.user.findCol name with
  | none => (db, .refused "no such user")
  | some (uid, u) =>
    if u.passwd ≠ cfg.hashIt password then (db, .refused "password error")
    else
      let opened := openSession db uid now uuid
      (opened.1, .login opened.2 u.name (u.isAdmin cfg))

/-- `AdminLogin`. -/
def adminLogin (cfg : Config) (token : Apitoken) (now : Int) (uuid : String) (name : String)
    (db : Uic) : Uic × AccountReply :=
  let adminuser := getUser db token
  match adminuser.err with
  | some err => (db, .refused err)
  | none =>
    match db.user.findCol name with
    | none => (db, .refused "no such user")
    | some (uid, u) =>
      if u.role ≥ adminuser.role then
        (db, .refused "API_USER not admin, no permissions can do this")
      else
        let opened := openSession db uid now uuid
        (opened.1, .login opened.2 u.name (u.isAdmin cfg))

/-- `Logout`. -/
def logout (token : Apitoken) (db : Uic) : Uic × AccountReply :=
  match getSession token with
  | .error err => (db, .refused err)
  | .ok (name, sig) =>
    let uid := (db.user.findCol name).elim 0 Prod.fst
    match db.session.findBy fun s => s.sig = sig ∧ s.uid = uid with
    | none => (db, .refused "not found this kind of session in database.")
    | some (id, _) => ({ db with session := db.session.delete id }, .done "logout successful")

/-- The check of `CreateUser` when signing up is disabled: the error, if there is one. -/
def signupError (cfg : Config) (user : Actor) : Option String :=
  let disabled := "sign up is not enabled, please contact administrator"
  match user.err with
  | some err =>
    if "token key is not set".toList <:+: err.toList then some disabled
    else some (disabled ++ ". " ++ err)
  | none =>
    if user.isAdmin cfg.accessControl then none
    else some (disabled ++ ". " ++ "You are not admin, no permissions can do this")

/-- `CreateUser`.  Whoever takes the name `root` gets the highest role. -/
def createUser (cfg : Config) (token : Apitoken) (now : Int) (uuid : String)
    (name cnname password : String) (db : Uic) : Uic × AccountReply :=
  if hasDangerousCharacters cnname then (db, .refused "name pattern is invalid")
  else
    match (if cfg.signupDisable then signupError cfg (getUser db token) else none) with
    | some err => (db, .refused err)
    | none =>
      let user : User := ⟨name, cfg.hashIt password, if name = "root" then 2 else 0⟩
      match db.user.insert? user with
      | none => (db, .refused "name is already existing")
      | some users =>
        let opened := openSession { db with user := users } db.user.next now uuid
        (opened.1, .created opened.2 name)

/-- A new password for a user. -/
def setPasswd (cfg : Config) (uid : ℕ) (password : String) (db : Uic) : Uic :=
  { db with
    user := db.user.modify uid (fun u => { u with passwd := cfg.hashIt password }) fun _ => rfl }

/-- `ChangePassword`. -/
def changePassword (cfg : Config) (token : Apitoken) (oldPassword newPassword : String)
    (db : Uic) : Uic × AccountReply :=
  match getSession token with
  | .error err => (db, .refused err)
  | .ok (name, _) =>
    match db.user.findCol name with
    | none => (db, .refused recordNotFound)
    | some (uid, u) =>
      if u.passwd ≠ cfg.hashIt oldPassword then
        (db, .refused "oldPassword is not match current one")
      else (setPasswd cfg uid newPassword db, .done "password updated!")

/-- The check of the requests of administrators: the error, if there is one. -/
def adminError (cfg : Config) (cuser : Actor) : Option String :=
  match cuser.err with
  | some err => some err
  | none => if cuser.isAdmin cfg.accessControl then none else some "you don't have permission!"

/-- `AdminChangePassword`. -/
def adminChangePassword (cfg : Config) (token : Apitoken) (uid : ℕ) (password : String)
    (db : Uic) : Uic × AccountReply :=
  match adminError cfg (getUser db token) with
  | some err => (db, .refused err)
  | none =>
    match db.user.find uid with
    | none => (db, .refused recordNotFound)
    | some _ => (setPasswd cfg uid password db, .done "password updated!")

/-- The role that `ChangeRoleOfUser` writes. -/
def newRole (admin : String) (role : Int) : Int :=
  if admin = "yes" then 1 else if admin = "no" then 0 else role

/-- `ChangeRoleOfUser`.  If there is no such user, a user without a name is made.  The number of
rows is left out of the reply. -/
def changeRoleOfUser (cfg : Config) (token : Apitoken) (uid : ℕ) (admin : String) (db : Uic) :
    Uic × AccountReply :=
  match adminError cfg (getUser db token) with
  | some err => (db, .refused err)
  | none =>
    match db.user.find uid with
    | some _ =>
      ({ db with
          user := db.user.modify uid (fun u => { u with role := newRole admin u.role })
            fun _ => rfl },
        .done "user role update sccuessful")
    | none =>
      match db.user.insert? ⟨"", "", newRole admin 0⟩ with
      | none => (db, .refused duplicateEntry)
      | some users => ({ db with user := users }, .done "user role update sccuessful")

/-- `AdminUserDelete`. -/
def adminUserDelete (cfg : Config) (token : Apitoken) (uid : ℕ) (db : Uic) : Uic × AccountReply :=
  let cuser := getUser db token
  match adminError cfg cuser with
  | some err => (db, .refused err)
  | none =>
    if (db.user.find uid).any fun u => u.role ≤ cuser.role then
      ({ db with user := db.user.delete uid },
        .done ("user " ++ toString uid ++ " has been delete, affect row: 1"))
    else (db, .refused "you have no such permission or sth goes wrong")

/-- `AuthSession`. -/
def authSession (cfg : Config) (token : Apitoken) (db : Uic) : Uic × AccountReply :=
  match sessionChecking cfg db token with
  | some err => (db, .refused err)
  | none => (db, .done "session is valid!")

/-- What is asked. -/
inductive AccountCall where
  | authSession
  | login (name password : String)
  | logout
  | createUser (name cnname password : String)
  | changePassword (oldPassword newPassword : String)
  | adminLogin (name : String)
  | changeRole (uid : ℕ) (admin : String)
  | adminChangePassword (uid : ℕ) (password : String)
  | adminUserDelete (uid : ℕ)

/-- A request: its token, when it comes, the sig that `GenerateUUID` would give, and what is
asked. -/
structure AccountRequest where
  token : Apitoken
  now : Int
  uuid : String
  call : AccountCall

/-- What a handler does. -/
def AccountRequest.handle (cfg : Config) (db : Uic) (req : AccountRequest) : Uic × AccountReply :=
  match req.call with
  | .authSession => authSession cfg req.token db
  | .login name password => login cfg req.now req.uuid name password db
  | .logout => logout req.token db
  | .createUser name cnname password =>
    createUser cfg req.token req.now req.uuid name cnname password db
  | .changePassword oldPassword newPassword =>
    changePassword cfg req.token oldPassword newPassword db
  | .adminLogin name => adminLogin cfg req.token req.now req.uuid name db
  | .changeRole uid admin => changeRoleOfUser cfg req.token uid admin db
  | .adminChangePassword uid password => adminChangePassword cfg req.token uid password db
  | .adminUserDelete uid => adminUserDelete cfg req.token uid db

/-- The routes before which `AuthSessionMidd` stands. -/
def AccountCall.behindMidd : AccountCall → Bool
  | .authSession | .login .. | .logout | .createUser .. => false
  | _ => true

/-- What a request does. -/
def AccountRequest.run (cfg : Config) (db : Uic) (req : AccountRequest) : Uic × AccountReply :=
  match (if req.call.behindMidd then authSessionMidd cfg db req.token else none) with
  | some err => (db, .refused err)
  | none => req.handle cfg db

/-- The tables after a request. -/
def accountStep (cfg : Config) (db : Uic) (req : AccountRequest) : Uic := (req.run cfg db).1

/-! ## Privileges -/

/-- A request of an administrator leaves the users with a higher role alone: it does not change
their password or their role, it does not delete them, and it gives out no session of theirs. -/
def Harmless (cfg : Config) (db : Uic) (req : AccountRequest) : Prop :=
  match req.call with
  | .adminLogin _ | .changeRole .. | .adminChangePassword .. | .adminUserDelete _ =>
    ∀ uid u, db.user.find uid = some u → (getUser db req.token).role < u.role →
      (∃ u', (req.run cfg db).1.user.find uid = some u' ∧ u'.passwd = u.passwd ∧
        u'.role = u.role) ∧
      ∀ sig admin, (req.run cfg db).2 ≠ .login sig u.name admin
  | _ => True

/-- The request gets past the checks of the requests of administrators. -/
def passesAsAdmin (cfg : Config) (db : Uic) (token : Apitoken) : Prop :=
  authSessionMidd cfg db token = none ∧ adminError cfg (getUser db token) = none

/-- `AdminLogin` for the user gets past its checks. -/
def AdminLoginPasses (cfg : Config) (db : Uic) (token : Apitoken) (u : User) : Prop :=
  authSessionMidd cfg db token = none ∧ (getUser db token).err = none ∧
    u.role < (getUser db token).role

/-- No password and no role of a user with a higher role is changed: the password is the one they
have, or the role is. -/
def SparesHigher (cfg : Config) (db : Uic) (req : AccountRequest) : Prop :=
  match req.call with
  | .adminChangePassword uid password =>
    passesAsAdmin cfg db req.token → ∀ u, db.user.find uid = some u →
      (getUser db req.token).role < u.role → u.passwd = cfg.hashIt password
  | .changeRole uid admin =>
    passesAsAdmin cfg db req.token → ∀ u, db.user.find uid = some u →
      (getUser db req.token).role < u.role → newRole admin u.role = u.role
  | _ => True

variable {cfg : Config} {db : Uic} {req : AccountRequest} {token : Apitoken} {now : Int}
  {uuid : String}

theorem run_eq_handle (req : AccountRequest) (h : authSessionMidd cfg db req.token = none) :
    req.run cfg db = req.handle cfg db := by
  rw [AccountRequest.run]
  split_ifs <;> simp [h]

/-- A request of an administrator that does not get past its checks is refused. -/
theorem run_eq_refused (req : AccountRequest)
    (hcall : (∃ uid admin, req.call = .changeRole uid admin) ∨
      (∃ uid password, req.call = .adminChangePassword uid password) ∨
      ∃ uid, req.call = .adminUserDelete uid)
    (h : ¬passesAsAdmin cfg db req.token) : ∃ err, req.run cfg db = (db, .refused err) := by
  cases hmidd : authSessionMidd cfg db req.token with
  | some err =>
    refine ⟨err, ?_⟩
    obtain ⟨uid, admin, hcall⟩ | ⟨uid, password, hcall⟩ | ⟨uid, hcall⟩ := hcall <;>
      simp [AccountRequest.run, hcall, AccountCall.behindMidd, hmidd]
  | none =>
    obtain ⟨err, herr⟩ : ∃ err, adminError cfg (getUser db req.token) = some err :=
      Option.ne_none_iff_exists'.mp fun hnone => h ⟨hmidd, hnone⟩
    refine ⟨err, ?_⟩
    rw [run_eq_handle req hmidd]
    obtain ⟨uid, admin, hcall⟩ | ⟨uid, password, hcall⟩ | ⟨uid, hcall⟩ := hcall <;>
      simp [AccountRequest.handle, hcall, changeRoleOfUser, adminChangePassword, adminUserDelete,
        herr]

theorem harmless_of_user_eq (huser : (req.run cfg db).1.user = db.user)
    (hreply : ∀ sig name admin, (req.run cfg db).2 ≠ .login sig name admin) :
    Harmless cfg db req := by
  rw [Harmless]
  split
  all_goals first
    | exact fun uid u hu _ => ⟨⟨u, by rw [huser, hu], rfl, rfl⟩, fun _ _ => hreply _ _ _⟩
    | trivial

theorem harmless_of_refused {err : String} (h : req.run cfg db = (db, .refused err)) :
    Harmless cfg db req :=
  harmless_of_user_eq (by rw [h]) (by simp [h])

variable (uid : ℕ)

theorem openSession_user : (openSession db uid now uuid).1.user = db.user := by
  rw [openSession]
  cases sessionOf db uid <;> rfl

/-- `AdminLogin` is refused, or it opens a session of a user with a lower role. -/
theorem run_adminLogin_cases (cfg : Config) (db : Uic) (token : Apitoken) (now : Int)
    (uuid name : String) :
    (∃ err, (⟨token, now, uuid, .adminLogin name⟩ : AccountRequest).run cfg db =
        (db, .refused err) ∧
      ∀ uid u, db.user.findCol name = some (uid, u) → ¬AdminLoginPasses cfg db token u) ∨
    ∃ uid u admin, db.user.findCol name = some (uid, u) ∧ AdminLoginPasses cfg db token u ∧
      (⟨token, now, uuid, .adminLogin name⟩ : AccountRequest).run cfg db =
        ((openSession db uid now uuid).1, .login (openSession db uid now uuid).2 u.name admin) := by
  cases hmidd : authSessionMidd cfg db token with
  | some err =>
    refine .inl ⟨err, ?_, fun _ _ _ hpass => absurd (hmidd.symm.trans hpass.1) (by simp)⟩
    simp [AccountRequest.run, AccountCall.behindMidd, hmidd]
  | none =>
    have hrun := run_eq_handle ⟨token, now, uuid, .adminLogin name⟩ hmidd
    simp only [AccountRequest.handle, adminLogin] at hrun
    cases herr : (getUser db token).err with
    | some err =>
      rw [herr] at hrun
      exact .inl ⟨err, hrun, fun _ _ _ hpass => absurd (herr.symm.trans hpass.2.1) (by simp)⟩
    | none =>
      cases hfind : db.user.findCol name with
      | none =>
        rw [herr, hfind] at hrun
        exact .inl ⟨_, hrun, by simp⟩
      | some e =>
        obtain ⟨uid, u⟩ := e
        by_cases hrole : u.role ≥ (getUser db token).role
        · simp only [herr, hfind, if_pos hrole] at hrun
          refine .inl ⟨_, hrun, fun uid' u' heq hpass => ?_⟩
          obtain ⟨-, rfl⟩ := Prod.mk.inj (Option.some.inj heq)
          exact absurd hpass.2.2 (not_lt.mpr hrole)
        · simp only [herr, hfind, if_neg hrole] at hrun
          exact .inr ⟨uid, u, _, rfl, ⟨hmidd, herr, not_le.mp hrole⟩, hrun⟩

/-- **`AdminLogin` is harmless**: it gives out sessions of users with a lower role only. -/
theorem harmless_adminLogin (name : String) :
    Harmless cfg db ⟨token, now, uuid, .adminLogin name⟩ := by
  rcases run_adminLogin_cases cfg db token now uuid name with
    ⟨err, hrun, -⟩ | ⟨uid, u, admin, hfind, hpass, hrun⟩
  · exact harmless_of_refused hrun
  · intro uid' u' hu' hhigher
    rw [hrun]
    refine ⟨⟨u', by rw [openSession_user, hu'], rfl, rfl⟩, fun sig admin' hlogin => ?_⟩
    obtain ⟨-, hname, -⟩ := AccountReply.login.inj hlogin
    obtain ⟨hu, -⟩ := UniqueTable.findCol_eq_some_iff.mp hfind
    obtain rfl := db.user.unique _ _ _ _ hu hu' hname
    obtain rfl := Option.some.inj (hu.symm.trans hu')
    exact lt_asymm hhigher hpass.2.2

/-- **`AdminUserDelete` is harmless**: it deletes users whose role is not higher only. -/
theorem harmless_adminUserDelete : Harmless cfg db ⟨token, now, uuid, .adminUserDelete uid⟩ := by
  by_cases hpass : passesAsAdmin cfg db token
  · have hrun := run_eq_handle ⟨token, now, uuid, .adminUserDelete uid⟩ hpass.1
    simp only [AccountRequest.handle, adminUserDelete, hpass.2] at hrun
    by_cases hrole : (db.user.find uid).any fun u => u.role ≤ (getUser db token).role
    · rw [if_pos hrole] at hrun
      intro uid' u' hu' hhigher
      have hne : uid' ≠ uid := by
        rintro rfl
        rw [hu', Option.any_some, decide_eq_true_eq] at hrole
        exact absurd hrole (not_le.mpr hhigher)
      rw [hrun]
      refine ⟨⟨u', ?_, rfl, rfl⟩, fun sig admin => by simp⟩
      rw [UniqueTable.delete, Table.find_delete, if_neg hne, hu']
    · rw [if_neg hrole] at hrun
      exact harmless_of_refused hrun
  · obtain ⟨err, hrun⟩ := run_eq_refused ⟨token, now, uuid, .adminUserDelete uid⟩
      (.inr (.inr ⟨uid, rfl⟩)) hpass
    exact harmless_of_refused hrun

/-- A request that writes a column of one user is harmless exactly if it does not change it, or the
role of the user is not higher. -/
theorem harmless_modify_iff {uid : ℕ} {f : User → User} {hf : ∀ u, (f u).name = u.name}
    {text : String} (hcall : (∃ uid admin, req.call = .changeRole uid admin) ∨
      ∃ uid password, req.call = .adminChangePassword uid password)
    (hrun : req.run cfg db = ({ db with user := db.user.modify uid f hf }, .done text)) :
    Harmless cfg db req ↔ ∀ u, db.user.find uid = some u →
      (getUser db req.token).role < u.role → (f u).passwd = u.passwd ∧ (f u).role = u.role := by
  have hfind : ∀ uid', (db.user.modify uid f hf).find uid' =
      if uid' = uid then (db.user.find uid).map f else db.user.find uid' :=
    fun uid' => Table.find_update uid f uid'
  have hbody : Harmless cfg db req ↔ ∀ uid' u, db.user.find uid' = some u →
      (getUser db req.token).role < u.role →
        ∃ u', (db.user.modify uid f hf).find uid' = some u' ∧ u'.passwd = u.passwd ∧
          u'.role = u.role := by
    obtain ⟨uid', admin, hcall⟩ | ⟨uid', password, hcall⟩ := hcall <;>
      simp [Harmless, hcall, hrun]
  rw [hbody]
  constructor
  · intro h u hu hhigher
    obtain ⟨u', hu', hsame⟩ := h uid u hu hhigher
    rw [hfind, if_pos rfl, hu, Option.map_some, Option.some_inj] at hu'
    rwa [hu']
  · intro h uid' u hu hhigher
    rw [hfind]
    split_ifs with heq
    · subst heq
      exact ⟨f u, by rw [hu, Option.map_some], h u hu hhigher⟩
    · exact ⟨u, hu, rfl, rfl⟩

/-- **When `AdminChangePassword` is harmless.** -/
theorem harmless_adminChangePassword_iff (password : String) :
    Harmless cfg db ⟨token, now, uuid, .adminChangePassword uid password⟩ ↔
      SparesHigher cfg db ⟨token, now, uuid, .adminChangePassword uid password⟩ := by
  rw [SparesHigher]
  by_cases hpass : passesAsAdmin cfg db token
  · have hrun := run_eq_handle ⟨token, now, uuid, .adminChangePassword uid password⟩
      hpass.1
    simp only [AccountRequest.handle, adminChangePassword, hpass.2] at hrun
    cases hu : db.user.find uid with
    | none =>
      rw [hu] at hrun
      exact iff_of_true (harmless_of_refused hrun) (by simp [hu])
    | some u =>
      rw [hu, setPasswd] at hrun
      rw [harmless_modify_iff (.inr ⟨uid, password, rfl⟩) hrun]
      simp only [hpass, hu, and_true, forall_const, eq_comm]
  · obtain ⟨err, hrun⟩ := run_eq_refused
      ⟨token, now, uuid, .adminChangePassword uid password⟩
      (.inr (.inl ⟨uid, password, rfl⟩)) hpass
    exact iff_of_true (harmless_of_refused hrun) fun hpass' => absurd hpass' hpass

/-- **When `ChangeRoleOfUser` is harmless.** -/
theorem harmless_changeRole_iff (admin : String) :
    Harmless cfg db ⟨token, now, uuid, .changeRole uid admin⟩ ↔
      SparesHigher cfg db ⟨token, now, uuid, .changeRole uid admin⟩ := by
  rw [SparesHigher]
  by_cases hpass : passesAsAdmin cfg db token
  · have hrun := run_eq_handle ⟨token, now, uuid, .changeRole uid admin⟩ hpass.1
    simp only [AccountRequest.handle, changeRoleOfUser, hpass.2] at hrun
    cases hu : db.user.find uid with
    | none =>
      refine iff_of_true ?_ (by simp [hu])
      rw [hu] at hrun
      cases hins : db.user.insert? ⟨"", "", newRole admin 0⟩ with
      | none =>
        rw [hins] at hrun
        exact harmless_of_refused hrun
      | some users =>
        rw [hins] at hrun
        intro uid' u' hu' _
        rw [hrun]
        refine ⟨⟨u', ?_, rfl, rfl⟩, fun sig admin => by simp⟩
        show users.toTable.find uid' = some u'
        rw [(UniqueTable.insert?_eq_some hins).2, Table.find_insert_of_find hu']
    | some u =>
      rw [hu] at hrun
      rw [harmless_modify_iff (.inl ⟨uid, admin, rfl⟩) hrun]
      simp only [hpass, hu, true_and, forall_const]
  · obtain ⟨err, hrun⟩ := run_eq_refused ⟨token, now, uuid, .changeRole uid admin⟩
      (.inl ⟨uid, admin, rfl⟩) hpass
    exact iff_of_true (harmless_of_refused hrun) fun hpass' => absurd hpass' hpass

/-- **A request is harmless** exactly if it spares the users with a higher role. -/
theorem harmless_iff (cfg : Config) (db : Uic) (req : AccountRequest) :
    Harmless cfg db req ↔ SparesHigher cfg db req := by
  obtain ⟨token, now, uuid, call⟩ := req
  cases call with
  | adminLogin name => exact iff_of_true (harmless_adminLogin name) trivial
  | changeRole uid admin => exact harmless_changeRole_iff uid admin
  | adminChangePassword uid password => exact harmless_adminChangePassword_iff uid password
  | adminUserDelete uid => exact iff_of_true (harmless_adminUserDelete uid) trivial
  | _ => exact iff_of_true trivial trivial

/-- **No privilege escalation**: every request of a run leaves the users alone whose role is higher
than that of the one who asks, exactly if none changes the password or the role of one of them. -/
theorem harmless_run_iff (cfg : Config) (db : Uic) (reqs : List AccountRequest) :
    Meets (accountStep cfg) (Harmless cfg) db reqs ↔
      Meets (accountStep cfg) (SparesHigher cfg) db reqs :=
  meets_congr (harmless_iff cfg) db reqs

/-- Access control, and no default token. -/
def sampleConfig : Config := ⟨true, false, false, "", fun password => "md5:" ++ password⟩

/-- Root signs up, then another user, whom root makes an administrator. -/
def sampleUic : Uic :=
  [⟨.missing, 0, "s1", .createUser "root" "root" "secret"⟩,
    ⟨.missing, 0, "s2", .createUser "ops" "ops" "ops"⟩,
    ⟨.token "root" "s1", 1, "", .changeRole 2 "yes"⟩].foldl (accountStep sampleConfig) .empty

/-- The administrator sets a new password for root, logs in with it, and takes root's role
away. -/
theorem administrator_takes_over_root :
    let changed := (⟨.token "ops" "s2", 2, "", .adminChangePassword 1 "mine"⟩ :
      AccountRequest).run sampleConfig sampleUic
    let demoted := (⟨.token "ops" "s2", 2, "", .changeRole 1 "no"⟩ :
      AccountRequest).run sampleConfig sampleUic
    sampleUic.user.find 1 = some ⟨"root", "md5:secret", 2⟩ ∧
      sampleUic.user.find 2 = some ⟨"ops", "md5:ops", 1⟩ ∧
      changed.2 = .done "password updated!" ∧
      changed.1.user.find 1 = some ⟨"root", "md5:mine", 2⟩ ∧
      (login sampleConfig 3 "" "root" "mine" changed.1).2 = .login "s1" "root" true ∧
      demoted.2 = .done "user role update sccuessful" ∧
      demoted.1.user.find 1 = some ⟨"root", "md5:secret", 0⟩ := by
  decide +kernel

/-! ## Expiry -/

/-- The user has a session with the sig whose time is as said. -/
def HasSession (db : Uic) (name sig : String) (good : Int → Prop) : Prop :=
  ∃ uid u, db.user.find uid = some u ∧ u.name = name ∧
    ∃ sid s, db.session.find sid = some s ∧ s.uid = uid ∧ s.sig = sig ∧ good s.expired

/-- **The rule**: the user has a session with the sig whose time has not passed. -/
def ValidAt (db : Uic) (now : Int) (name sig : String) : Prop :=
  HasSession db name sig fun expired => now ≤ expired

/-- The token is looked at by `SessionChecking`. -/
def AccountCall.checked (call : AccountCall) : Prop := call = .authSession ∨ call.behindMidd = true

/-- The request keeps to the rule: if its token is accepted and is not the default one, it is
valid, and the sig that a login gives out is valid. -/
def Lawful (cfg : Config) (db : Uic) (req : AccountRequest) : Prop :=
  (req.call.checked → sessionChecking cfg db req.token = none →
    ∀ name sig, req.token = .token name sig → cfg.isDefault sig = false →
      ValidAt db req.now name sig) ∧
  match req.call with
  | .login .. | .adminLogin _ =>
    ∀ sig name admin, (req.run cfg db).2 = .login sig name admin →
      ValidAt (accountStep cfg db req) req.now name sig
  | _ => True

/-- The session of the user, if there is one, is valid. -/
def SessionValid (db : Uic) (now : Int) (uid : ℕ) (name : String) : Prop :=
  ∀ sid s, sessionOf db uid = some (sid, s) → ValidAt db now name s.sig

/-- No session is used whose time has passed: the token is not that of such a session, and the
user who logs in, or is logged in, has none. -/
def Unexpired (cfg : Config) (db : Uic) (req : AccountRequest) : Prop :=
  (req.call.checked → ∀ name sig, getSession req.token = .ok (name, sig) →
    cfg.isDefault sig = false → HasSession db name sig (fun _ => True) →
      ValidAt db req.now name sig) ∧
  match req.call with
  | .login name password =>
    ∀ uid u, db.user.findCol name = some (uid, u) → u.passwd = cfg.hashIt password →
      SessionValid db req.now uid name
  | .adminLogin name =>
    ∀ uid u, db.user.findCol name = some (uid, u) → AdminLoginPasses cfg db req.token u →
      SessionValid db req.now uid name
  | _ => True

section Expiry

variable {name sig : String} {uid : ℕ} {u : User}

theorem getSession_eq_ok (h : getSession token = .ok (name, sig)) : token = .token name sig := by
  cases token with
  | missing => simp [getSession] at h
  | malformed err => simp [getSession] at h
  | token name' sig' =>
    rw [getSession] at h
    split_ifs at h
    simpa using h

/-- **What `SessionChecking` accepts**: the default token, and every session there is. -/
theorem sessionChecking_eq_none_iff :
    sessionChecking cfg db token = none ↔
      ∃ name sig, getSession token = .ok (name, sig) ∧
        (cfg.isDefault sig = true ∨ HasSession db name sig fun _ => True) := by
  rw [sessionChecking]
  cases hget : getSession token with
  | error err => simp
  | ok res =>
    obtain ⟨name, sig⟩ := res
    have hres : (∃ name' sig', (Except.ok (name, sig) : Except String (String × String)) =
        .ok (name', sig') ∧ (cfg.isDefault sig' = true ∨
          HasSession db name' sig' fun _ => True)) ↔
        cfg.isDefault sig = true ∨ HasSession db name sig fun _ => True := by
      simp
    rw [hres]
    by_cases hdefault : cfg.isDefault sig = true
    · simp [hdefault]
    simp only [hdefault, if_false, Bool.false_eq_true, false_or]
    cases hfind : db.user.findCol name with
    | none =>
      refine iff_of_false (by simp) ?_
      rintro ⟨uid, u, hu, rfl, -⟩
      exact UniqueTable.findCol_eq_none_iff.mp hfind uid u hu rfl
    | some e =>
      obtain ⟨uid, u⟩ := e
      obtain ⟨hu, hname⟩ := UniqueTable.findCol_eq_some_iff.mp hfind
      cases hs : db.session.findBy fun s => s.sig = sig ∧ s.uid = uid with
      | none =>
        refine iff_of_false (by simp only [hs, reduceCtorEq, not_false_iff]) ?_
        rintro ⟨uid', u', hu', hname', sid, s, hsid, rfl, rfl, -⟩
        obtain rfl := db.user.unique _ _ _ _ hu hu' (hname.trans hname'.symm)
        exact absurd (Table.findBy_eq_none_iff.mp hs sid s hsid) (by simp)
      | some e =>
        obtain ⟨sid, s⟩ := e
        obtain ⟨hsid, hcond⟩ := Table.find_of_findBy hs
        obtain ⟨hsig, huid⟩ := of_decide_eq_true hcond
        exact iff_of_true (by simp only [hs]) ⟨uid, u, hu, hname, sid, s, hsid, huid, hsig, trivial⟩

/-- A login gives out a valid sig exactly if the session of the user, if there is one, is valid. -/
theorem openSession_valid_iff (uuid : String) (hu : db.user.find uid = some u) :
    ValidAt (openSession db uid now uuid).1 now u.name (openSession db uid now uuid).2 ↔
      SessionValid db now uid u.name := by
  rw [openSession, SessionValid]
  cases hs : sessionOf db uid with
  | some e =>
    obtain ⟨sid, s⟩ := e
    simp
  | none =>
    refine iff_of_true ⟨uid, u, hu, rfl, db.session.next, ⟨uid, uuid, now + 3600 * 24 * 30⟩,
      ?_, rfl, rfl, ?_⟩ (by simp)
    · exact Table.find_insert_next _
    · show now ≤ now + 3600 * 24 * 30
      omega

/-- The token of a request keeps to the rule exactly if it is not that of a session whose time has
passed. -/
theorem lawful_token_iff :
    (sessionChecking cfg db token = none → ∀ name sig, token = .token name sig →
        cfg.isDefault sig = false → ValidAt db now name sig) ↔
      ∀ name sig, getSession token = .ok (name, sig) → cfg.isDefault sig = false →
        HasSession db name sig (fun _ => True) → ValidAt db now name sig := by
  constructor
  · intro h name sig hget hdefault hknown
    exact h (sessionChecking_eq_none_iff.mpr ⟨name, sig, hget, .inr hknown⟩) name sig
      (getSession_eq_ok hget) hdefault
  · intro h haccept name sig htoken hdefault
    obtain ⟨name', sig', hget, hor⟩ := sessionChecking_eq_none_iff.mp haccept
    obtain ⟨rfl, rfl⟩ := Apitoken.token.inj ((getSession_eq_ok hget).symm.trans htoken)
    exact h _ _ hget hdefault (hor.resolve_left (by simp [hdefault]))

theorem valid_of_refused {err : String} (h : req.run cfg db = (db, .refused err)) :
    ∀ sig name admin, (req.run cfg db).2 = .login sig name admin →
      ValidAt (accountStep cfg db req) req.now name sig := by
  simp [h]

/-- A request that opens a session gives out a valid sig exactly if that of the user, if there is
one, is valid. -/
theorem valid_of_opened_iff {admin : Bool} (hu : db.user.find uid = some u)
    (hrun : req.run cfg db = ((openSession db uid req.now req.uuid).1,
      .login (openSession db uid req.now req.uuid).2 u.name admin))
    :
    (∀ sig name admin, (req.run cfg db).2 = .login sig name admin →
        ValidAt (accountStep cfg db req) req.now name sig) ↔
      SessionValid db req.now uid u.name := by
  rw [← openSession_valid_iff req.uuid hu, accountStep, hrun]
  constructor
  · exact fun h => h _ _ _ rfl
  · intro h sig name admin hlogin
    obtain ⟨rfl, rfl, -⟩ := AccountReply.login.inj hlogin
    exact h

/-- **When `Login` gives out a valid sig.** -/
theorem login_valid_iff (name password : String) :
    (∀ sig name' admin,
      ((⟨token, now, uuid, .login name password⟩ : AccountRequest).run cfg db).2 =
          .login sig name' admin →
        ValidAt (accountStep cfg db ⟨token, now, uuid, .login name password⟩) now name' sig) ↔
      ∀ uid u, db.user.findCol name = some (uid, u) → u.passwd = cfg.hashIt password →
        SessionValid db now uid name := by
  have hrun : (⟨token, now, uuid, .login name password⟩ : AccountRequest).run cfg db =
      login cfg now uuid name password db := rfl
  rw [login] at hrun
  cases hfind : db.user.findCol name with
  | none =>
    rw [hfind] at hrun
    exact iff_of_true (valid_of_refused hrun) (by simp)
  | some e =>
    obtain ⟨uid, u⟩ := e
    obtain ⟨hu, rfl⟩ := UniqueTable.findCol_eq_some_iff.mp hfind
    by_cases hpasswd : u.passwd = cfg.hashIt password
    · simp only [hfind, hpasswd, ne_eq, not_true, if_false] at hrun
      rw [valid_of_opened_iff hu hrun]
      simp [hpasswd]
    · simp only [hfind, ne_eq, hpasswd, not_false_iff, if_true] at hrun
      refine iff_of_true (valid_of_refused hrun) ?_
      simp [hpasswd]

/-- **When `AdminLogin` gives out a valid sig.** -/
theorem adminLogin_valid_iff (name : String) :
    (∀ sig name' admin,
      ((⟨token, now, uuid, .adminLogin name⟩ : AccountRequest).run cfg db).2 =
          .login sig name' admin →
        ValidAt (accountStep cfg db ⟨token, now, uuid, .adminLogin name⟩) now name' sig) ↔
      ∀ uid u, db.user.findCol name = some (uid, u) → AdminLoginPasses cfg db token u →
        SessionValid db now uid name := by
  rcases run_adminLogin_cases cfg db token now uuid name with
    ⟨err, hrun, hnot⟩ | ⟨uid, u, admin, hfind, hpass, hrun⟩
  · exact iff_of_true (valid_of_refused hrun) fun uid u hu hpass => absurd hpass (hnot uid u hu)
  · obtain ⟨hu, rfl⟩ := UniqueTable.findCol_eq_some_iff.mp hfind
    rw [valid_of_opened_iff hu hrun]
    constructor
    · intro h uid' u' heq _
      obtain ⟨rfl, rfl⟩ := Prod.mk.inj (Option.some.inj (hfind.symm.trans heq))
      exact h
    · exact fun h => h uid u hfind hpass

/-- **A request keeps to the rule** exactly if it uses no session whose time has passed. -/
theorem lawful_iff (cfg : Config) (db : Uic) (req : AccountRequest) :
    Lawful cfg db req ↔ Unexpired cfg db req := by
  obtain ⟨token, now, uuid, call⟩ := req
  refine and_congr (imp_congr_right fun _ => lawful_token_iff) ?_
  cases call with
  | login name password => exact login_valid_iff name password
  | adminLogin name => exact adminLogin_valid_iff name
  | _ => exact Iff.rfl

end Expiry

/-- **Sessions expire**: every request of a run keeps to the rule exactly if none uses a session
whose time has passed. -/
theorem lawful_run_iff (cfg : Config) (db : Uic) (reqs : List AccountRequest) :
    Meets (accountStep cfg) (Lawful cfg) db reqs ↔
      Meets (accountStep cfg) (Unexpired cfg) db reqs :=
  meets_congr (lawful_iff cfg) db reqs

/-- The session that root got at the time zero is good until 2592000.  One second later it is
accepted, and root gets it again by logging in. -/
theorem expired_session_accepted :
    sampleUic.session.find 1 = some ⟨1, "s1", 2592000⟩ ∧
      ((⟨.token "root" "s1", 2592001, "", .authSession⟩ : AccountRequest).run sampleConfig
        sampleUic).2 = .done "session is valid!" ∧
      ((⟨.missing, 2592001, "s3", .login "root" "secret"⟩ : AccountRequest).run sampleConfig
        sampleUic).2 = .login "s1" "root" true := by
  decide +kernel

end OpenFalcon.Api
