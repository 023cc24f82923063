import BackupRetention.Files.Operations
import BackupRetention.Programs.Runner

/-!
# Scripted programs

A runner that answers by a script: one argument of the command line says which answer is
given. An answer can take some files away first.
-/

namespace BackupRetention

structure ScriptedAnswer where
  /-- What is given, if the script says. -/
  outcome : Option (Except Fault Int) := none
  /-- What is removed before. -/
  alsoRemove : List String := []

/-- Answers by the argument at `position`. Where the script gives no outcome, `otherwise` is
done and succeeds. -/
def Runner.scripted (position : Nat) (script : String → ScriptedAnswer)
    (otherwise : String → FileTree → FileTree) : Runner := fun args t =>
  match args[position]? with
  | none => (.error (.io (.other "no such argument")), t)
  | some key =>
    let answer := script key
    let t := answer.alsoRemove.foldl FileTree.removeAll t
    match answer.outcome with
    | some outcome => (outcome, t)
    | none => (.ok 0, otherwise key t)

/-- A runner for `removeTree` that removes what it is told to, unless the script says
otherwise. -/
def Runner.scriptedRemoval (script : String → ScriptedAnswer) : Runner :=
  Runner.scripted 2 script fun path t => t.removeAll path

/-- A runner for programs that do nothing, by the names of the programs. -/
def Runner.scriptedPrograms (script : String → ScriptedAnswer) : Runner :=
  Runner.scripted 0 script fun _ t => t

end BackupRetention
