import BackupRetention.Text.Blank

/-!
# Lines

A text as the sequence of its lines, and two ways to lay lines out again: indented below
a heading, and folded onto one line.
-/

namespace BackupRetention.Text

/-- The pieces between the occurrences of `sep`, one more than there are separators. -/
def pieces (sep : Char) : List Char → List (List Char)
  | [] => [[]]
  | c :: cs =>
    if c = sep then [] :: pieces sep cs
    else
      match pieces sep cs with
      | [] => [[c]]
      | p :: ps => (c :: p) :: ps

@[simp] theorem pieces_nil (sep : Char) : pieces sep [] = [[]] := rfl

theorem pieces_ne_nil (sep : Char) (cs : List Char) : pieces sep cs ≠ [] := by
  cases cs with
  | nil => simp
  | cons c cs =>
    unfold pieces
    split
    · simp
    · split <;> simp

/-- Joining the pieces with the separator gives the text back. -/
theorem intercalate_pieces (sep : Char) (cs : List Char) :
    [sep].intercalate (pieces sep cs) = cs := by
  induction cs with
  | nil => rfl
  | cons c cs ih =>
    unfold pieces
    split
    · next h =>
      subst h
      cases hp : pieces c cs with
      | nil => exact absurd hp (pieces_ne_nil c cs)
      | cons p ps => rw [hp] at ih; simpa [List.intercalate] using ih
    · cases hp : pieces sep cs with
      | nil => exact absurd hp (pieces_ne_nil sep cs)
      | cons p ps =>
        rw [hp] at ih
        cases ps with
        | nil => simpa [List.intercalate] using ih
        | cons q qs => simpa [List.intercalate] using ih

/-- `s` cut at every `sep`. -/
def split (sep : Char) (s : String) : List String :=
  (pieces sep s.toList).map String.ofList

/-- A line end may be written with a carriage return in front of the line feed. -/
def dropReturn (line : List Char) : List Char :=
  if line.getLast? = some '\r' then line.dropLast else line

/-- The lines of a text. A text that ends in a line feed has no empty line after it, and a
last line without a line feed keeps its carriage return. -/
def lines (cs : List Char) : List (List Char) :=
  let ps := pieces '\n' cs
  ps.dropLast.map dropReturn ++ (ps.getLast?.toList.filter (· ≠ []))

/-- Two blanks in front of every line that is not empty. -/
def indentLine (line : List Char) : List Char :=
  if line = [] then [] else ' ' :: ' ' :: line

/-- Every line moved two columns to the right; line ends become plain line feeds. -/
def indentChars (cs : List Char) : List Char :=
  ['\n'].intercalate ((lines cs).map indentLine) ++
    (if cs.getLast? = some '\n' then ['\n'] else [])

def indent (s : String) : String :=
  String.ofList (indentChars s.toList)

/-- All lines trimmed and joined by single blanks. -/
def foldChars (cs : List Char) : List Char :=
  [' '].intercalate ((lines cs).map trimChars)

def fold (s : String) : String :=
  String.ofList (foldChars s.toList)

@[simp] theorem toList_indent (s : String) : (indent s).toList = indentChars s.toList := by
  simp [indent]

@[simp] theorem toList_fold (s : String) : (fold s).toList = foldChars s.toList := by
  simp [fold]

example : lines "a\r\nb\n\nc\r".toList = ["a".toList, "b".toList, [], "c\r".toList] := by decide

example : indent "x\n\n y\n" = "  x\n\n   y\n" := by decide

example : fold " a\n b \n" = "a b" := by decide

end BackupRetention.Text
