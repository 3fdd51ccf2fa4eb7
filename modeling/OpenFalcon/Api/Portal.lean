import OpenFalcon.Sql.Table

/-!
# The portal database

The tables of `falcon_portal` that the handlers of `modules/api` write: groups, hosts,
templates, expressions, and what binds them to each other.  There are no foreign keys; that a
row refers to one that is there is up to the handlers.  `grp_host` and `grp_tpl` have no key at
all, so they are lists.

A handler takes who asks, what is asked and the tables, and gives the tables and the reply.
Inputs are taken as the binding of the request left them.  Ids are natural numbers, as their
columns are unsigned.
-/

namespace OpenFalcon.Api

open Sql

/-! ## Who asks -/

/-- What `GetUser` finds of the one who asks, and its error.  The handlers that do not look at the
error go on with the name of the token, if there is one, and no role. -/
structure Actor where
  name : String
  role : Int
  err : Option String

/-- `IsAdmin`, with the setting `access_control`. -/
def Actor.isAdmin (accessControl : Bool) (actor : Actor) : Bool :=
  !accessControl || actor.role = 2 || actor.role = 1

/-- An administrator. -/
def sampleAdmin : Actor := ⟨"admin", 1, none⟩

/-- `HasDangerousCharacters`. -/
def hasDangerousCharacters (s : String) : Bool :=
  s.toList.any fun c => c ∈ ['<', '>', '&', '\'', '"']

/-! ## Rows -/

/-- A row of `grp`. -/
structure HostGroup where
  name : String
  createUser : String
  comeFrom : Int
  deriving DecidableEq

/-- A row of `host`. -/
structure Host where
  hostname : String
  deriving DecidableEq

/-- A row of `grp_host`. -/
structure GrpHost where
  grpId : ℕ
  hostId : ℕ
  deriving DecidableEq

/-- A row of `grp_tpl`. -/
structure GrpTpl where
  grpId : ℕ
  tplId : ℕ
  bindUser : String
  deriving DecidableEq

/-- A row of `plugin_dir`. -/
structure Plugin where
  grpId : ℕ
  dir : String
  createUser : String
  deriving DecidableEq

/-- A row of `cluster`, the aggregators. -/
structure Cluster where
  grpId : ℕ
  deriving DecidableEq

/-- A row of `tpl`. -/
structure Template where
  name : String
  parentId : ℕ
  actionId : ℕ
  createUser : String
  deriving DecidableEq

/-- A row of `strategy`. -/
structure Strategy where
  tplId : ℕ
  deriving DecidableEq

/-- A row of `action`. -/
structure Action where
  uic : String
  url : String
  callback : Int
  beforeCallbackSMS : Int
  beforeCallbackMail : Int
  afterCallbackSMS : Int
  afterCallbackMail : Int
  deriving DecidableEq

/-- A row of `expression`. -/
structure Expression where
  expression : String
  func : String
  op : String
  rightValue : String
  maxStep : Int
  priority : Int
  note : String
  actionId : ℕ
  createUser : String
  pause : Int
  deriving DecidableEq

/-- The tables. -/
structure Portal where
  grp : UniqueTable HostGroup HostGroup.name
  host : UniqueTable Host Host.hostname
  grpHost : List GrpHost
  grpTpl : List GrpTpl
  plugin : Table Plugin
  cluster : Table Cluster
  tpl : UniqueTable Template Template.name
  strategy : Table Strategy
  action : Table Action
  expression : Table Expression

/-- The tables without rows. -/
def Portal.empty : Portal :=
  ⟨.empty, .empty, [], [], .empty, .empty, .empty, .empty, .empty, .empty⟩

/-! ## Replies -/

/-- The reply of a handler: a text or the row it made, here as its id if it has one, or an
error. -/
inductive Reply where
  | done (text : String)
  | created (id : ℕ)
  | bound (row : GrpTpl)
  | refused (text : String)
  deriving DecidableEq

/-- The reply is an error. -/
def Reply.isError : Reply → Bool
  | .refused _ => true
  | _ => false

/-- The error of a query that finds no row. -/
def recordNotFound : String := "record not found"

/-- The error of a row whose unique key is there already. -/
def duplicateEntry : String := "Error 1062: Duplicate entry"

/-- The error of a statement that fails. -/
def databaseError : String := "invalid connection"

end OpenFalcon.Api
