import BackupRetention.Text.Lines

/-!
# Paths

A path is a text with `/` between names. Joining keeps the text of both sides; nothing is
normalised before a path is looked up.
-/

namespace BackupRetention.Path

def isAbsolute (path : String) : Bool :=
  path.toList.head? == some '/'

/-- Whether only a directory can be meant. -/
def endsInSlash (path : String) : Bool :=
  path.toList.getLast? == some '/'

/-- `part` below `base`. An absolute part stands for itself, and an empty one leaves a slash
at the end. -/
def join (base part : String) : String :=
  if isAbsolute part then part
  else if base.toList = [] ∨ endsInSlash base then base ++ part
  else base ++ "/" ++ part

/-- The names along a path; repeated slashes count once. -/
def names (path : String) : List String :=
  (Text.split '/' path).filter (· ≠ "")

/-- The names along a path without those that stay in place. A relative path may start in
place. -/
def steps (path : String) : List String :=
  match names path with
  | [] => []
  | n :: ns =>
    let rest := ns.filter (· ≠ ".")
    if n = "." ∧ isAbsolute path then rest else n :: rest

/-- The non-empty beginnings of a list, longest first. -/
def beginnings : List String → List (List String)
  | [] => []
  | n :: ns => (beginnings ns).map (n :: ·) ++ [[n]]

/-- The path itself and the directories above it, innermost first; the root or the current
directory closes the list. -/
def ancestors (path : String) : List String :=
  let top := if isAbsolute path then "/" else ""
  let above := (beginnings (steps path)).map fun ns => top ++ String.intercalate "/" ns
  path :: (above.drop 1 ++ (if steps path = [] then [] else [top]))

example : join "s" "" = "s/" ∧ join "s/" "h" = "s/h" ∧ join "s" "/h" = "/h" := by decide

example : ancestors "a//b/./c" = ["a//b/./c", "a/b", "a", ""] := by decide

end BackupRetention.Path
