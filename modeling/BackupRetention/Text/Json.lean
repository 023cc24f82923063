/-!
# Strings of data files

One string in the notation of JSON, read and written. Reading takes blanks around the
string and every escape of the notation; writing needs escapes for quotes, backslashes and
control characters only.
-/

namespace BackupRetention.Text

/-- The value of a hexadecimal digit. -/
def hexDigit? (c : Char) : Option Nat :=
  if c.isDigit then some (c.toNat - '0'.toNat)
  else if 'a' ≤ c ∧ c ≤ 'f' then some (c.toNat - 'a'.toNat + 10)
  else if 'A' ≤ c ∧ c ≤ 'F' then some (c.toNat - 'A'.toNat + 10)
  else none

/-- The code unit of four hexadecimal digits. -/
def codeUnit? (a b c d : Char) : Option Nat :=
  match hexDigit? a, hexDigit? b, hexDigit? c, hexDigit? d with
  | some a, some b, some c, some d => some (((a * 16 + b) * 16 + c) * 16 + d)
  | _, _, _, _ => none

/-- The character of a one-letter escape. -/
def escaped? (c : Char) : Option Char :=
  if c = '"' ∨ c = '\\' ∨ c = '/' then some c
  else if c = 'b' then some '\x08'
  else if c = 'f' then some '\x0c'
  else if c = 'n' then some '\n'
  else if c = 'r' then some '\r'
  else if c = 't' then some '\t'
  else none

/-- The blanks that may stand around a value. -/
def isJsonBlank (c : Char) : Bool :=
  c == ' ' || c == '\t' || c == '\n' || c == '\r'

/-- The code unit at the front of a text, and what follows it. -/
def takeCodeUnit? : List Char → Option (Nat × List Char)
  | a :: b :: c :: d :: rest => (codeUnit? a b c d).map (·, rest)
  | _ => none

/-- The second half of a pair of code units, behind its own escape. -/
def takeLowUnit? : List Char → Option (Nat × List Char)
  | x :: y :: rest => if x = '\\' ∧ y = 'u' then takeCodeUnit? rest else none
  | _ => none

/-- The character of a numbered escape. Code points beyond the first plane are two escapes,
and half of such a pair is no character. -/
def takeNumbered? (cs : List Char) : Option (Char × List Char) := do
  let (u, rest) ← takeCodeUnit? cs
  if 0xD800 ≤ u ∧ u ≤ 0xDBFF then
    let (v, rest) ← takeLowUnit? rest
    if 0xDC00 ≤ v ∧ v ≤ 0xDFFF then
      return (Char.ofNat (0x10000 + (u - 0xD800) * 0x400 + (v - 0xDC00)), rest)
    else none
  else if 0xDC00 ≤ u ∧ u ≤ 0xDFFF then none
  else return (Char.ofNat u, rest)

/-- What a backslash stands for, and what follows the escape. -/
def takeEscape? : List Char → Option (Char × List Char)
  | [] => none
  | c :: rest => if c = 'u' then takeNumbered? rest else (escaped? c).map (·, rest)

/-- The characters up to the closing quote, and what follows it. `fuel` bounds the number
of characters and may be the length of the text. -/
def jsonBody? : Nat → List Char → Option (List Char × List Char)
  | 0, _ => none
  | _, [] => none
  | fuel + 1, c :: rest =>
    if c = '"' then some ([], rest)
    else if c = '\\' then do
      let (d, rest) ← takeEscape? rest
      let (ds, rest) ← jsonBody? fuel rest
      return (d :: ds, rest)
    else if c.toNat < 0x20 then none
    else do
      let (ds, rest) ← jsonBody? fuel rest
      return (c :: ds, rest)

/-- The string that `s` writes, if `s` is one string and nothing else. -/
def ofJsonString? (s : String) : Option String :=
  match s.toList.dropWhile isJsonBlank with
  | [] => none
  | q :: rest =>
    if q = '"' then
      match jsonBody? rest.length rest with
      | some (cs, r) => if r.all isJsonBlank then some (String.ofList cs) else none
      | none => none
    else none

/-- `c` inside a written string. -/
def jsonChar (c : Char) : List Char :=
  if c = '"' then ['\\', '"']
  else if c = '\\' then ['\\', '\\']
  else if c = '\n' then ['\\', 'n']
  else if c = '\r' then ['\\', 'r']
  else if c = '\t' then ['\\', 't']
  else if c = '\x08' then ['\\', 'b']
  else if c = '\x0c' then ['\\', 'f']
  else if c.toNat < 0x20 then
    ['\\', 'u', '0', '0', (c.toNat / 16).digitChar, (c.toNat % 16).digitChar]
  else [c]

def jsonString (s : String) : String :=
  String.ofList ('"' :: (s.toList.flatMap jsonChar ++ ['"']))

example : ofJsonString? " \"2024-02-\\u0032\\t\" " = some "2024-02-2\t" := by decide

end BackupRetention.Text
