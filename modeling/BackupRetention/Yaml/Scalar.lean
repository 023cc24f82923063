import BackupRetention.Text.Json
import BackupRetention.Yaml.Cursor

/-!
# Scalars

The texts of a document: plain ones, ones between quotes, and blocks of lines. Line ends
inside a plain or quoted text are folded, a single one to a blank.

## Main definitions

* `Scalar.plain?`, `Scalar.quoted?`, `Scalar.block?`: the text at a cursor.
-/

namespace BackupRetention.Yaml

/-- How a scalar is written. -/
inductive ScalarStyle where
  | plain
  | singleQuoted
  | doubleQuoted
  | literal
  | folded
  deriving DecidableEq, Repr

namespace Scalar

/-! ## Gaps -/

/-- Blanks and line ends between two words of a text. -/
structure Gap where
  /-- The blanks before the first line end. -/
  blanks : List Char
  /-- Whether there is a line end. -/
  broken : Bool
  /-- What the first line end adds to a text. -/
  first : List Char
  /-- What the other line ends add. -/
  more : List Char
  deriving DecidableEq, Repr

namespace Gap

def empty : Gap := ⟨[], false, [], []⟩

/-- A gap behind a line end that is to add nothing. -/
def afterEscape : Gap := ⟨[], true, [], []⟩

/-- Blanks count only before the first line end. -/
def addBlank (x : Char) (g : Gap) : Gap :=
  if g.broken then g else { g with blanks := g.blanks ++ [x] }

def addBreak (text : List Char) (g : Gap) : Gap :=
  if g.broken then { g with more := g.more ++ text }
  else { g with broken := true, first := text }

/-- What a gap adds to a text. A line feed alone is a blank, and of several the first one is
dropped. -/
def text (g : Gap) : List Char :=
  if g.broken then
    if g.first = ['\n'] then if g.more = [] then [' '] else g.more
    else g.first ++ g.more
  else g.blanks

end Gap

/-- The gap at a cursor, added to `g`. On a later line, a tab may not stand left of `indent`.
`fuel` bounds the number of blanks and line ends. -/
def gap? (indent : Int) : Nat → Gap → Cursor → Option (Gap × Cursor)
  | 0, g, c => some (g, c)
  | fuel + 1, g, c =>
    match c.next? with
    | none => some (g, c)
    | some x =>
      if isTabOrSpace x then
        if g.broken ∧ c.column < indent ∧ x = '\t' then none
        else gap? indent fuel (g.addBlank x) (c.advance 1)
      else if isBreak x then gap? indent fuel (g.addBreak c.breakText) c.skipBreak
      else some (g, c)

/-! ## Plain scalars -/

/-- The end of a word of a plain scalar: how many characters it has. In a flow collection a
colon may not stand in front of an indicator. -/
def plainWord? (flow : Bool) : List Char → Option Nat
  | [] => some 0
  | x :: rest =>
    if isGap (some x) then some 0
    else if flow ∧ x = ':' ∧ rest.head?.any (fun y => isFlowIndicator y || y == '?') then none
    else if x = ':' ∧ isGap rest.head? then some 0
    else if flow ∧ isFlowIndicator x then some 0
    else (plainWord? flow rest).map (· + 1)

/-- The rest of a plain scalar behind `text` and the gap `g`, what follows it, and whether it
ends behind a line end. -/
def plainFrom? (flow : Bool) (indent : Int) :
    Nat → List Char → Gap → Cursor → Option (List Char × Bool × Cursor)
  | 0, text, g, c => some (text, g.broken, c)
  | fuel + 1, text, g, c =>
    if c.atDocumentMark ∨ c.next? = some '#' then some (text, g.broken, c)
    else
      match plainWord? flow c.rest with
      | none => none
      | some 0 => some (text, g.broken, c)
      | some n =>
        let text := text ++ g.text ++ c.rest.take n
        let c := c.advance n
        if c.next?.any (fun x => isTabOrSpace x || isBreak x) then
          match gap? indent c.rest.length .empty c with
          | none => none
          | some (g, c) =>
            if ¬ flow ∧ c.column < indent then some (text, g.broken, c)
            else plainFrom? flow indent fuel text g c
        else some (text, false, c)

/-- The plain scalar at a cursor, what follows it, and whether it ends behind a line end. -/
def plain? (flow : Bool) (indent : Int) (c : Cursor) : Option (List Char × Bool × Cursor) :=
  plainFrom? flow indent (c.rest.length + 1) [] .empty c

/-! ## Quoted scalars -/

/-- What stands behind a backslash: a character, or the number of hexadecimal digits of its
code point. -/
def escape? (x : Char) : Option (Char ⊕ Nat) :=
  if x = '0' then some (.inl '\x00')
  else if x = 'a' then some (.inl '\x07')
  else if x = 'b' then some (.inl '\x08')
  else if x = 't' ∨ x = '\t' then some (.inl '\t')
  else if x = 'n' then some (.inl '\n')
  else if x = 'v' then some (.inl '\x0b')
  else if x = 'f' then some (.inl '\x0c')
  else if x = 'r' then some (.inl '\r')
  else if x = 'e' then some (.inl '\x1b')
  else if x = ' ' ∨ x = '"' ∨ x = '/' ∨ x = '\\' then some (.inl x)
  else if x = 'N' then some (.inl '\u0085')
  else if x = '_' then some (.inl '\u00a0')
  else if x = 'L' then some (.inl '\u2028')
  else if x = 'P' then some (.inl '\u2029')
  else if x = 'x' then some (.inr 2)
  else if x = 'u' then some (.inr 4)
  else if x = 'U' then some (.inr 8)
  else none

/-- The number of hexadecimal digits. -/
def hexNumber? (digits : List Char) : Option Nat :=
  digits.foldl (fun n d => do return (← n) * 16 + (← Text.hexDigit? d)) (some 0)

/-- The character with a code point. -/
def ofCodePoint? (n : Nat) : Option Char :=
  if n.isValidChar then some (Char.ofNat n) else none

/-- How a word of a quoted scalar ends. -/
inductive WordEnd where
  | closed
  | gap
  /-- At a line end that is to add nothing. -/
  | escapedBreak
  deriving DecidableEq, Repr

/-- The rest of a word between quotes behind `text`. -/
def quotedWord? (single : Bool) :
    Nat → List Char → Cursor → Option (List Char × WordEnd × Cursor)
  | 0, text, c => some (text, .gap, c)
  | fuel + 1, text, c =>
    match c.rest with
    | [] => some (text, .gap, c)
    | x :: rest =>
      if isGap (some x) then some (text, .gap, c)
      else if single then
        if x = '\'' then
          if rest.head? = some '\'' then quotedWord? single fuel (text ++ ['\'']) (c.advance 2)
          else some (text, .closed, c.advance 1)
        else quotedWord? single fuel (text ++ [x]) (c.advance 1)
      else if x = '"' then some (text, .closed, c.advance 1)
      else if x = '\\' then
        match rest.head? with
        | none => none
        | some y =>
          if isBreak y then some (text, .escapedBreak, (c.advance 1).skipBreak)
          else
            match escape? y with
            | none => none
            | some (.inl z) => quotedWord? single fuel (text ++ [z]) (c.advance 2)
            | some (.inr n) =>
              let digits := (c.rest.drop 2).take n
              if digits.length = n then
                match (hexNumber? digits).bind ofCodePoint? with
                | none => none
                | some z => quotedWord? single fuel (text ++ [z]) (c.advance (2 + n))
              else none
      else quotedWord? single fuel (text ++ [x]) (c.advance 1)

/-- The rest of a quoted scalar behind `text`, and what follows its closing quote. -/
def quotedFrom? (single : Bool) : Nat → List Char → Cursor → Option (List Char × Cursor)
  | 0, _, _ => none
  | fuel + 1, text, c =>
    if c.atDocumentMark ∨ c.atEnd then none
    else
      match quotedWord? single c.rest.length text c with
      | none => none
      | some (text, .closed, c) => some (text, c)
      | some (text, .gap, c) =>
        match gap? 0 c.rest.length .empty c with
        | none => none
        | some (g, c) => quotedFrom? single fuel (text ++ g.text) c
      | some (text, .escapedBreak, c) =>
        match gap? 0 c.rest.length .afterEscape c with
        | none => none
        | some (g, c) => quotedFrom? single fuel (text ++ g.text) c

/-- The scalar behind an opening quote, and what follows it. -/
def quoted? (single : Bool) (c : Cursor) : Option (List Char × Cursor) :=
  quotedFrom? single (c.rest.length + 1) [] c

/-! ## Block scalars -/

/-- Which line ends at the end of a block are kept. -/
inductive Chomping where
  | strip
  | clip
  | keep
  deriving DecidableEq, Repr

/-- The header of a block scalar: a chomping indicator and an indentation, in either order.
An indentation of 0 stands for none. -/
def blockHeader? (c : Cursor) : Option (Chomping × Nat × Cursor) :=
  let (chomping, c) := chompingAt .clip c
  match indentAt c with
  | none => none
  | some (n, c) =>
    let (chomping, c) := if chomping = .clip then chompingAt .clip c else (chomping, c)
    some (chomping, n, c)
where
  chompingAt (otherwise : Chomping) (c : Cursor) : Chomping × Cursor :=
    if c.next? = some '+' then (.keep, c.advance 1)
    else if c.next? = some '-' then (.strip, c.advance 1)
    else (otherwise, c)
  indentAt (c : Cursor) : Option (Nat × Cursor) :=
    match c.next? with
    | none => some (0, c)
    | some x =>
      if x = '0' then none
      else if x.isDigit then some (x.toNat - '0'.toNat, c.advance 1)
      else some (0, c)

/-- The blanks of an indentation at a cursor; an indentation of 0 is not known yet. -/
def skipIndent (indent : Nat) (c : Cursor) : Cursor :=
  let spaces := (c.rest.takeWhile (· == ' ')).length
  c.advance (if indent = 0 then spaces else min spaces (indent - c.column))

/-- The blank lines at a cursor: the widest of them, what their ends add, and the line behind
them, its indentation skipped. A tab may not stand in the place of the indentation. -/
def blankLines? (indent : Nat) :
    Nat → Nat → List Char → Cursor → Option (Nat × List Char × Cursor)
  | 0, widest, text, c => some (widest, text, c)
  | fuel + 1, widest, text, c =>
    let c := skipIndent indent c
    let widest := max widest c.column
    if (indent = 0 ∨ c.column < indent) ∧ c.next? = some '\t' then none
    else if c.next?.any isBreak then
      blankLines? indent fuel widest (text ++ c.breakText) c.skipBreak
    else some (widest, text, c)

/-- The text of a block so far. -/
structure Block where
  text : List Char
  /-- The end of the last line that is not blank. -/
  lineEnd : List Char
  /-- The ends of the blank lines behind it. -/
  blankEnds : List Char
  /-- Whether that line starts with a blank. -/
  indented : Bool
  deriving DecidableEq, Repr

/-- Adds the line ends in front of a line. Folding makes a blank of a line feed between two
lines of which neither starts with a blank. -/
def Block.join (literal : Bool) (b : Block) (line : List Char) : Block :=
  let indented := line.head?.any isTabOrSpace
  let ends :=
    if ¬ literal ∧ b.lineEnd.head? = some '\n' ∧ ¬ b.indented ∧ ¬ indented then
      if b.blankEnds = [] then [' '] else b.blankEnds
    else b.lineEnd ++ b.blankEnds
  ⟨b.text ++ ends ++ line, [], [], indented⟩

/-- The lines of a block with a known indentation, behind those in `b`. -/
def blockLines? (literal : Bool) (indent : Nat) : Nat → Block → Cursor → Option (Block × Cursor)
  | 0, b, c => some (b, c)
  | fuel + 1, b, c =>
    if c.column = indent ∧ ¬ c.atEnd then
      let (line, c) := c.takeWhile fun x => !isBreak x
      let b := { b.join literal line with lineEnd := c.breakText }
      match blankLines? indent (c.rest.length + 1) 0 [] c.skipBreak with
      | none => none
      | some (_, ends, c) => blockLines? literal indent fuel { b with blankEnds := ends } c
    else some (b, c)

/-- The text of a block, its end chomped. -/
def Block.chomp (chomping : Chomping) (b : Block) : List Char :=
  match chomping with
  | .strip => b.text
  | .clip => b.text ++ b.lineEnd
  | .keep => b.text ++ b.lineEnd ++ b.blankEnds

/-- The block scalar behind its indicator, and what follows it. `around` is the indentation of
what the block stands in, -1 for the document. -/
def block? (literal : Bool) (around : Int) (c : Cursor) : Option (List Char × Cursor) :=
  match blockHeader? c with
  | none => none
  | some (chomping, increment, c) =>
    match c.finishLine? with
    | none => none
    | some c =>
      let given := if increment = 0 then 0 else (max around 0).toNat + increment
      match blankLines? given (c.rest.length + 1) 0 [] c with
      | none => none
      | some (widest, ends, c) =>
        let indent := if given = 0 then max widest (max (around + 1) 1).toNat else given
        match blockLines? literal indent (c.rest.length + 1) ⟨[], [], ends, false⟩ c with
        | none => none
        | some (b, c) => some (b.chomp chomping, c)

end Scalar

end BackupRetention.Yaml
