import BackupRetention.Yaml.Character

/-!
# Places in a document

A cursor is what is left of a document, with its line, its column and how far it is from the
start. Columns count characters.
-/

namespace BackupRetention.Yaml

structure Cursor where
  rest : List Char
  index : Nat
  line : Nat
  column : Nat
  deriving DecidableEq, Repr

namespace Cursor

def start (cs : List Char) : Cursor := ⟨cs, 0, 0, 0⟩

/-- The next character. -/
def next? (c : Cursor) : Option Char := c.rest.head?

/-- The character `n` places on. -/
def ahead? (c : Cursor) (n : Nat) : Option Char := c.rest[n]?

def atEnd (c : Cursor) : Bool := c.rest.isEmpty

/-- Goes on by `n` characters of the same line. -/
def advance (n : Nat) (c : Cursor) : Cursor :=
  { c with rest := c.rest.drop n, index := c.index + n, column := c.column + n }

/-- Goes on behind a line end, which may have two characters. -/
def skipBreak (c : Cursor) : Cursor :=
  match c.rest with
  | '\r' :: '\n' :: rest => ⟨rest, c.index + 2, c.line + 1, 0⟩
  | x :: rest => if isBreak x then ⟨rest, c.index + 1, c.line + 1, 0⟩ else c
  | [] => c

/-- What the line end at the cursor adds to a text. -/
def breakText (c : Cursor) : List Char :=
  match c.rest with
  | x :: _ => if isBreak x then Yaml.breakText x else []
  | [] => []

/-- The characters up to the first that does not satisfy `p`, and what follows them. -/
def takeWhile (p : Char → Bool) (c : Cursor) : List Char × Cursor :=
  let cs := c.rest.takeWhile p
  (cs, c.advance cs.length)

def skipWhile (p : Char → Bool) (c : Cursor) : Cursor :=
  (c.takeWhile p).2

/-- Goes to the end of the line. -/
def skipLine (c : Cursor) : Cursor :=
  c.skipWhile fun x => !isBreak x

/-- Goes on behind blanks, a comment and the end of the line; nothing else may be there. -/
def finishLine? (c : Cursor) : Option Cursor :=
  let c := c.skipWhile isTabOrSpace
  let c := if c.next? = some '#' then c.skipLine else c
  match c.next? with
  | none => some c
  | some x => if isBreak x then some c.skipBreak else none

/-- Whether a line opens with `mark` three times. -/
def atMark (mark : Char) (c : Cursor) : Bool :=
  c.column == 0 && [mark, mark, mark].isPrefixOf c.rest && isGap (c.ahead? 3)

/-- Whether the start or the end of a document is marked here. -/
def atDocumentMark (c : Cursor) : Bool :=
  c.atMark '-' || c.atMark '.'

end Cursor

end BackupRetention.Yaml
