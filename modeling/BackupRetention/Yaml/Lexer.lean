import BackupRetention.Yaml.Token

/-!
# Cutting a document into tokens

Indentation opens and closes collections in block style. Where a key may stand is noted, since
only the colon behind it tells that it is one; it must be on the line of the colon and not
longer than 1024 characters. Once it is known, the tokens that belong in front of it are put
there.

## Main definitions

* `Lexer.step?`: the next token, with those that come with it.
* `tokens?`: all tokens of a document.
-/

namespace BackupRetention.Yaml

/-- A place where a key may stand. -/
structure KeyPlace where
  /-- Whether nothing else may stand there. -/
  required : Bool
  /-- How many tokens there are in front of it. -/
  position : Nat
  index : Nat
  line : Nat
  column : Nat
  deriving DecidableEq, Repr

structure Lexer where
  cursor : Cursor
  tokens : List Token
  /-- The column of the innermost block collection, -1 outside all of them. -/
  indent : Int
  /-- The columns around it. -/
  outer : List Int
  /-- The possible key of the block context and of each flow collection, innermost first. -/
  places : List (Option KeyPlace)
  /-- Whether a key may stand here. -/
  keyAllowed : Bool
  /-- Whether the end has been reached. -/
  ended : Bool
  deriving Repr

/-- The longest key. -/
def maxKeyLength : Nat := 1024

namespace Lexer

def start (cs : List Char) : Lexer :=
  ⟨.start cs, [], -1, [], [none], true, false⟩

/-- Whether the lexer is inside a flow collection. -/
def inFlow (s : Lexer) : Bool := 1 < s.places.length

def column (s : Lexer) : Int := s.cursor.column

def emit (t : Token) (s : Lexer) : Lexer :=
  { s with tokens := s.tokens ++ [t] }

/-- Puts a token behind the first `n` ones. -/
def insert (n : Nat) (t : Token) (s : Lexer) : Lexer :=
  { s with tokens := s.tokens.take n ++ t :: s.tokens.drop n }

def advance (n : Nat) (s : Lexer) : Lexer :=
  { s with cursor := s.cursor.advance n }

def setCursor (c : Cursor) (s : Lexer) : Lexer :=
  { s with cursor := c }

def allowKey (b : Bool) (s : Lexer) : Lexer :=
  { s with keyAllowed := b }

/-- The innermost place of a key. -/
def place? (s : Lexer) : Option KeyPlace :=
  s.places.head?.join

def setPlace (p : Option KeyPlace) (s : Lexer) : Lexer :=
  { s with places := p :: s.places.drop 1 }

/-- Gives the innermost place up. A required key cannot be given up. -/
def dropPlace? (s : Lexer) : Option Lexer :=
  if s.place?.any KeyPlace.required then none else some (s.setPlace none)

/-- Notes that a key may stand here. -/
def savePlace? (s : Lexer) : Option Lexer :=
  if s.keyAllowed then
    let place : KeyPlace :=
      { required := !s.inFlow && s.indent == s.column
        position := s.tokens.length
        index := s.cursor.index
        line := s.cursor.line
        column := s.cursor.column }
    s.dropPlace?.map (setPlace (some place))
  else some s

/-- Whether a key that may stand at `p` would be too long or end on another line. -/
def isStale (c : Cursor) (p : KeyPlace) : Bool :=
  p.line < c.line || p.index + maxKeyLength < c.index

/-- Gives up the places that are too far back. -/
def dropStale? (s : Lexer) : Option Lexer :=
  if s.places.any fun p => p.any fun p => isStale s.cursor p && p.required then none
  else some { s with places := s.places.map (Option.filter fun p => !isStale s.cursor p) }

/-- Opens a block collection at `column` if that is further in; its token goes behind the first
`position` ones. -/
def openBlock (column : Int) (position : Nat) (t : Token) (s : Lexer) : Lexer :=
  if s.inFlow ∨ column ≤ s.indent then s
  else insert position t { s with indent := column, outer := s.indent :: s.outer }

/-- Closes the block collections further in than `column`. -/
def closeBlocks (column : Int) (s : Lexer) : Lexer :=
  if s.inFlow then s else close s.outer.length s
where
  close : Nat → Lexer → Lexer
    | 0, s => s
    | n + 1, s =>
      if column < s.indent then
        match s.outer with
        | [] => s
        | i :: outer => close n (emit .blockEnd { s with indent := i, outer := outer })
      else s

/-- Goes on behind blanks, comments and line ends. Behind a line end a key may stand. A tab is
no blank where a key may stand in block style. -/
def skipSpace : Nat → Lexer → Lexer
  | 0, s => s
  | fuel + 1, s =>
    let c := s.cursor
    let c := if c.index = 0 ∧ c.next? = some byteOrderMark then c.advance 1 else c
    let c := c.skipWhile fun x => x == ' ' || (x == '\t' && (s.inFlow || !s.keyAllowed))
    let c := if c.next? = some '#' then c.skipLine else c
    if c.next?.any isBreak then
      skipSpace fuel { s with cursor := c.skipBreak, keyAllowed := s.keyAllowed || !s.inFlow }
    else { s with cursor := c }

/-! ## Tokens -/

/-- A token that ends all block collections. -/
def outermost? (s : Lexer) : Option Lexer :=
  ((s.closeBlocks (-1)).dropPlace?).map (allowKey false)

def streamEnd? (s : Lexer) : Option Lexer :=
  s.outermost?.map fun s => { s.emit .streamEnd with ended := true }

def directive? (s : Lexer) : Option Lexer :=
  match s.outermost? with
  | none => none
  | some s =>
    match Token.directive? s.cursor with
    | none => none
    | some (t, c) => some ((s.emit t).setCursor c)

def documentMark? (t : Token) (s : Lexer) : Option Lexer :=
  s.outermost?.map fun s => (s.emit t).advance 3

def flowStart? (t : Token) (s : Lexer) : Option Lexer :=
  s.savePlace?.map fun s =>
    ((({ s with places := none :: s.places }).allowKey true).emit t).advance 1

def flowEnd? (t : Token) (s : Lexer) : Option Lexer :=
  s.dropPlace?.map fun s =>
    let places := if s.inFlow then s.places.drop 1 else s.places
    ((({ s with places := places }).allowKey false).emit t).advance 1

def flowEntry? (s : Lexer) : Option Lexer :=
  s.dropPlace?.map fun s => ((s.allowKey true).emit .flowEntry).advance 1

/-- Outside flow collections an entry or a key needs a place for a key. -/
def blockStart? (t : Token) (s : Lexer) : Option Lexer :=
  if s.inFlow then some s
  else if s.keyAllowed then some (s.openBlock s.column s.tokens.length t)
  else none

def blockEntry? (s : Lexer) : Option Lexer :=
  match s.blockStart? .blockSequence with
  | none => none
  | some s => s.dropPlace?.map fun s => ((s.allowKey true).emit .blockEntry).advance 1

def key? (s : Lexer) : Option Lexer :=
  match s.blockStart? .blockMapping with
  | none => none
  | some s => s.dropPlace?.map fun s => ((s.allowKey (!s.inFlow)).emit .key).advance 1

def value? (s : Lexer) : Option Lexer :=
  match s.place? with
  | some p =>
    let s := (s.insert p.position .key).openBlock p.column p.position .blockMapping
    some ((((s.setPlace none).allowKey false).emit .value).advance 1)
  | none =>
    (s.blockStart? .blockMapping).map fun s =>
      ((s.allowKey (!s.inFlow)).emit .value).advance 1

/-- A token that may be a key and behind which none may stand. -/
def keyToken? (read : Cursor → Option (Token × Cursor)) (s : Lexer) : Option Lexer :=
  match s.savePlace? with
  | none => none
  | some s =>
    match read s.cursor with
    | none => none
    | some (t, c) => some (((s.allowKey false).emit t).setCursor c)

def anchor? (make : List Char → Token) (s : Lexer) : Option Lexer :=
  s.keyToken? fun c => (Token.anchorName? c).map fun (name, c) => (make name, c)

def quoted? (single : Bool) (s : Lexer) : Option Lexer :=
  let style := if single then ScalarStyle.singleQuoted else .doubleQuoted
  s.keyToken? fun c => (Scalar.quoted? single (c.advance 1)).map fun (cs, c) =>
    (.scalar style cs, c)

/-- A plain scalar that ends behind a line end leaves a place for a key. -/
def plain? (s : Lexer) : Option Lexer :=
  match s.savePlace? with
  | none => none
  | some s =>
    match Scalar.plain? s.inFlow (s.indent + 1) s.cursor with
    | none => none
    | some (cs, broken, c) => some (((s.allowKey broken).emit (.scalar .plain cs)).setCursor c)

def block? (literal : Bool) (s : Lexer) : Option Lexer :=
  match s.dropPlace? with
  | none => none
  | some s =>
    match Scalar.block? literal s.indent (s.cursor.advance 1) with
    | none => none
    | some (cs, c) =>
      let style := if literal then ScalarStyle.literal else .folded
      some (((s.allowKey true).emit (.scalar style cs)).setCursor c)

/-- Whether a plain scalar may start with `x` in front of `y`. -/
def startsPlain (flow : Bool) (x : Char) (y : Option Char) : Bool :=
  !isIndicator x || (x == '-' && !y.any isTabOrSpace) ||
    (!flow && (x == '?' || x == ':') && !isGap y)

/-- The token that starts with `x`. -/
def tokenAt? (x : Char) (s : Lexer) : Option Lexer :=
  let y := s.cursor.ahead? 1
  if s.cursor.column = 0 ∧ x = '%' then s.directive?
  else if s.cursor.atMark '-' then s.documentMark? .documentStart
  else if s.cursor.atMark '.' then s.documentMark? .documentEnd
  else if x = '[' then s.flowStart? .flowSequence
  else if x = '\x7b' then s.flowStart? .flowMapping
  else if x = ']' then s.flowEnd? .flowSequenceEnd
  else if x = '\x7d' then s.flowEnd? .flowMappingEnd
  else if x = ',' then s.flowEntry?
  else if x = '-' ∧ isGap y then s.blockEntry?
  else if x = '?' ∧ (s.inFlow ∨ isGap y) then s.key?
  else if x = ':' ∧ (s.inFlow ∨ isGap y) then s.value?
  else if x = '*' then s.anchor? .alias
  else if x = '&' then s.anchor? .anchor
  else if x = '!' then s.keyToken? (Token.tag? s.inFlow)
  else if x = '|' ∧ ¬ s.inFlow then s.block? true
  else if x = '>' ∧ ¬ s.inFlow then s.block? false
  else if x = '\'' then s.quoted? true
  else if x = '"' then s.quoted? false
  else if startsPlain s.inFlow x y then s.plain?
  else none

/-- The next token. -/
def step? (s : Lexer) : Option Lexer :=
  match (s.skipSpace (s.cursor.rest.length + 1)).dropStale? with
  | none => none
  | some s =>
    let s := s.closeBlocks s.column
    match s.cursor.next? with
    | none => s.streamEnd?
    | some x => s.tokenAt? x

/-- Goes on to the end. `fuel` bounds the number of tokens. -/
def finish? : Nat → Lexer → Option Lexer
  | 0, _ => none
  | fuel + 1, s =>
    match s.step? with
    | none => none
    | some s => if s.ended then some s else finish? fuel s

end Lexer

/-- The tokens of a document. -/
def tokens? (cs : List Char) : Option (List Token) :=
  if cs.all isAllowed then
    ((Lexer.start cs).finish? (cs.length + 2)).map Lexer.tokens
  else none

end BackupRetention.Yaml
