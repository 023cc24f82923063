/-!
# Action numbers
-/

namespace BackupRetention

/-- The number of an action within one action list. -/
structure ActionId where
  val : Nat
  deriving DecidableEq, Repr

/-- Actions are shown by their number behind a hash sign. -/
def ActionId.text (id : ActionId) : String :=
  "#" ++ toString id.val

end BackupRetention
