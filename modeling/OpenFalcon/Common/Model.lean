import OpenFalcon.Common.Tags

/-!
# The shared records

`common/model`: templates, strategies and expressions as the heartbeat server
reads them from the database and the judge evaluates them.  A Go pointer that may
be nil is an `Option`.
-/

namespace OpenFalcon.Common

/-- `model.Template`. -/
structure Template where
  id : Int
  name : String
  parentId : Int
  actionId : Int
  creator : String
  deriving DecidableEq

/-- `model.Strategy`. -/
structure Strategy (F : Type) where
  id : Int
  metric : String
  tags : Tags
  func : String
  operator : String
  rightValue : F
  maxStep : Int
  priority : Int
  note : String
  tpl : Option Template

/-- `model.HostStrategy`. -/
structure HostStrategy (F : Type) where
  hostname : String
  strategies : List (Strategy F)

/-- `model.Expression`. -/
structure Expression (F : Type) where
  id : Int
  metric : String
  tags : Tags
  func : String
  operator : String
  rightValue : F
  maxStep : Int
  priority : Int
  note : String
  actionId : Int

end OpenFalcon.Common
