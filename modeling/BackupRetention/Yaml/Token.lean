import BackupRetention.Text.Decimal
import BackupRetention.Yaml.Scalar

/-!
# Tokens

The tokens that a document is cut into, and the ones that are cut at a cursor without looking
around: anchors, aliases, tags and directives.

## Main definitions

* `Token`: all tokens.
* `Token.anchor?`, `Token.tag?`, `Token.directive?`: the token at a cursor.
-/

namespace BackupRetention.Yaml

inductive Token where
  | version (major minor : Nat)
  | tagShorthand (handle expansion : List Char)
  | documentStart
  | documentEnd
  | blockSequence
  | blockMapping
  | blockEnd
  | flowSequence
  | flowSequenceEnd
  | flowMapping
  | flowMappingEnd
  | blockEntry
  | flowEntry
  | key
  | value
  | alias (name : List Char)
  | anchor (name : List Char)
  | tag (handle suffix : List Char)
  | scalar (style : ScalarStyle) (text : List Char)
  | streamEnd
  deriving DecidableEq, Repr

namespace Token

/-- What may follow the name of an anchor besides a gap. -/
def endsAnchor (c : Char) : Bool :=
  ['?', ':', ',', ']', '\x7d', '%', '@', '\x60'].contains c

/-- The name behind the indicator of an anchor or an alias. -/
def anchorName? (c : Cursor) : Option (List Char × Cursor) :=
  let (name, c) := (c.advance 1).takeWhile isWordChar
  if name ≠ [] ∧ (isGap c.next? ∨ c.next?.any endsAnchor) then some (name, c) else none

/-! ## Tags -/

/-- The bytes of an escaped character: the first one tells how many there are. -/
def byteCount? (first : Nat) : Option Nat :=
  if first < 0x80 then some 1
  else if 0xC0 ≤ first ∧ first < 0xE0 then some 2
  else if 0xE0 ≤ first ∧ first < 0xF0 then some 3
  else if 0xF0 ≤ first ∧ first < 0xF8 then some 4
  else none

/-- An escaped byte. -/
def escapedByte? : List Char → Option Nat
  | '%' :: a :: b :: _ => do return (← Text.hexDigit? a) * 16 + (← Text.hexDigit? b)
  | _ => none

/-- The bytes of `n` escapes. -/
def escapedBytes? : Nat → List Char → Option (List Nat)
  | 0, _ => some []
  | n + 1, cs =>
    match escapedByte? cs with
    | none => none
    | some b => (escapedBytes? n (cs.drop 3)).map (b :: ·)

/-- The characters that some bytes encode. -/
def decodeBytes? (bytes : List Nat) : Option (List Char) :=
  (String.fromUTF8? (ByteArray.mk (bytes.map UInt8.ofNat).toArray)).map String.toList

/-- The escaped character at a cursor, and how many bytes it has. -/
def escapedChar? (cs : List Char) : Option (List Char × Nat) :=
  match (escapedByte? cs).bind byteCount? with
  | none => none
  | some n =>
    match (escapedBytes? n cs).bind decodeBytes? with
    | none => none
    | some text => some (text, n)

/-- The rest of a tag behind `text`. Between angle brackets some flow indicators may stand in
it too. -/
def tagText? (verbatim : Bool) : Nat → List Char → Cursor → Option (List Char × Cursor)
  | 0, text, c => some (text, c)
  | fuel + 1, text, c =>
    match c.next? with
    | none => some (text, c)
    | some x =>
      if x = '%' then
        match escapedChar? c.rest with
        | none => none
        | some (cs, n) => tagText? verbatim fuel (text ++ cs) (c.advance (3 * n))
      else if isWordChar x ∨ isTagChar x ∨ (verbatim ∧ (x = ',' ∨ x = '[' ∨ x = ']')) then
        tagText? verbatim fuel (text ++ [x]) (c.advance 1)
      else some (text, c)

/-- A tag that goes on as `tagText?` reads it, not empty. -/
def tagUri? (verbatim : Bool) (c : Cursor) : Option (List Char × Cursor) :=
  match tagText? verbatim c.rest.length [] c with
  | some ([], _) => none
  | other => other

/-- An exclamation mark and what goes on from it as a handle, which ends in another one. -/
def tagHandle? (c : Cursor) : Option (List Char × Cursor) :=
  if c.next? = some '!' then
    let (name, c) := (c.advance 1).takeWhile isWordChar
    if c.next? = some '!' then some ('!' :: name ++ ['!'], c.advance 1)
    else some ('!' :: name, c)
  else none

/-- Whether the text of a handle is closed by a second exclamation mark. -/
def isClosed (handle : List Char) : Bool :=
  1 < handle.length && handle.getLast? == some '!'

/-- The handle and the suffix of a tag. -/
def tagParts? (c : Cursor) : Option (List Char × List Char × Cursor) :=
  if c.ahead? 1 = some '<' then
    match tagUri? true (c.advance 2) with
    | none => none
    | some (suffix, c) =>
      if c.next? = some '>' then some ([], suffix, c.advance 1) else none
  else
    match tagHandle? c with
    | none => none
    | some (handle, c) =>
      if isClosed handle then
        (tagUri? false c).map fun (suffix, c) => (handle, suffix, c)
      else
        match tagText? false c.rest.length (handle.drop 1) c with
        | none => none
        | some ([], c) => some ([], ['!'], c)
        | some (suffix, c) => some (['!'], suffix, c)

/-- The tag at a cursor. A gap must follow, or a comma in a flow collection. -/
def tag? (flow : Bool) (c : Cursor) : Option (Token × Cursor) :=
  match tagParts? c with
  | none => none
  | some (handle, suffix, c) =>
    if isGap c.next? ∨ (flow ∧ c.next? = some ',') then some (.tag handle suffix, c) else none

/-! ## Directives -/

/-- A number of at most nine digits. -/
def versionNumber? (c : Cursor) : Option (Nat × Cursor) :=
  let (ds, c) := c.takeWhile Char.isDigit
  if 9 < ds.length then none else (Text.number? ds).map (·, c)

def version? (c : Cursor) : Option (Token × Cursor) := do
  let (major, c) ← versionNumber? (c.skipWhile isTabOrSpace)
  if c.next? = some '.' then
    let (minor, c) ← versionNumber? (c.advance 1)
    return (.version major minor, c)
  else none

def tagShorthand? (c : Cursor) : Option (Token × Cursor) := do
  let (handle, c) ← tagHandle? (c.skipWhile isTabOrSpace)
  if (isClosed handle ∨ handle = ['!']) ∧ c.next?.any isTabOrSpace then
    let (expansion, c) ← tagUri? true (c.skipWhile isTabOrSpace)
    if isGap c.next? then return (.tagShorthand handle expansion, c) else none
  else none

/-- The directive at a cursor, and what follows its line. -/
def directive? (c : Cursor) : Option (Token × Cursor) := do
  let (name, c) := (c.advance 1).takeWhile isWordChar
  if isGap c.next? then
    let (t, c) ←
      if name = "YAML".toList then version? c
      else if name = "TAG".toList then tagShorthand? c
      else none
    return (t, ← c.finishLine?)
  else none

end Token

end BackupRetention.Yaml
