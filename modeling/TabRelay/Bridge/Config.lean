import TabRelay.Storage.Event

/-!
# Where an application is mounted and which ports it uses
-/

namespace TabRelay.Bridge

open TabRelay.Storage

structure Config where
  node : String := "myapp"
  storePort : String := "storeCache"
  changePort : String := "onStoreChange"
  area : AreaKind := .localArea
  deriving DecidableEq, Repr, Inhabited

end TabRelay.Bridge
