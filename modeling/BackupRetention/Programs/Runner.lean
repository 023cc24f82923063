import BackupRetention.Fault.Basic
import BackupRetention.Files.Tree

/-!
# Running programs

A runner takes a command line and gives an exit status, which is 0 for success. What it does
to files is part of it. A machine keeps its files and the command lines run on it.
-/

namespace BackupRetention

/-- What runs programs. -/
abbrev Runner := List String → FileTree → Except Fault Int × FileTree

structure Machine where
  tree : FileTree
  /-- The command lines run so far, in order. -/
  calls : List (List String)

namespace Machine

def ofTree (tree : FileTree) : Machine := ⟨tree, []⟩

/-- Runs a command line. -/
def execute (m : Machine) (runner : Runner) (args : List String) : Except Fault Int × Machine :=
  let (outcome, tree) := runner args m.tree
  (outcome, ⟨tree, m.calls ++ [args]⟩)

@[simp] theorem calls_execute (m : Machine) (runner : Runner) (args : List String) :
    (m.execute runner args).2.calls = m.calls ++ [args] := rfl

end Machine

/-- The command line that removes whatever is at `path`. -/
def removeTree (path : String) : List String :=
  ["rm", "-rf", path]

end BackupRetention
