import BackupRetention.Fault.Violation

/-!
# Names

Names of hosts, volumes and devices end up inside the names of files. They are not empty and
hold ASCII letters, digits and a few further characters, never `/` or `-`.
-/

namespace BackupRetention

def isNameChar (extra : List Char) (c : Char) : Bool :=
  c.isAlphanum || extra.contains c

namespace NameKind

/-- Whether `name` may name a thing of this kind. -/
def accepts (kind : NameKind) (name : String) : Bool :=
  !name.toList.isEmpty && name.toList.all (isNameChar kind.extra.toList)

def check (kind : NameKind) (name : String) : Except Violation Unit :=
  if kind.accepts name then .ok () else .error (.name kind name)

/-- Checks names in order; the first that is not accepted is reported. -/
def checkAll (kind : NameKind) : List String → Except Violation Unit
  | [] => .ok ()
  | name :: rest =>
    match kind.check name with
    | .error v => .error v
    | .ok () => kind.checkAll rest

theorem check_eq_ok_iff {kind : NameKind} {name : String} :
    kind.check name = .ok () ↔ kind.accepts name = true := by
  unfold check
  split <;> simp_all

end NameKind

end BackupRetention
