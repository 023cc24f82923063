/-!
# Characters of YAML

Which characters may stand in a document, and the classes that tokens are cut by.
-/

namespace BackupRetention.Yaml

/-- Whether `c` may stand in a document at all: control characters and half pairs may not. -/
def isAllowed (c : Char) : Bool :=
  let n := c.toNat
  n == 0x09 || n == 0x0A || n == 0x0D || (0x20 ≤ n && n ≤ 0x7E) || n == 0x85 ||
    (0xA0 ≤ n && n ≤ 0xD7FF) || (0xE000 ≤ n && n ≤ 0xFFFD) || 0x10000 ≤ n

/-- The mark that may open a document. -/
def byteOrderMark : Char := '\ufeff'

/-- A line ends in a line feed, a carriage return or both, or in one of three separators. -/
def isBreak (c : Char) : Bool :=
  c == '\n' || c == '\r' || c == '\u0085' || c == '\u2028' || c == '\u2029'

/-- What a line end adds to a text: two of the separators stand for themselves. -/
def breakText (c : Char) : List Char :=
  if c = '\u2028' ∨ c = '\u2029' then [c] else ['\n']

def isTabOrSpace (c : Char) : Bool :=
  c == ' ' || c == '\t'

/-- Whether nothing more, a blank or a line end comes next. -/
def isGap : Option Char → Bool
  | none => true
  | some c => isTabOrSpace c || isBreak c

/-- The characters of names of anchors, tags and directives. -/
def isWordChar (c : Char) : Bool :=
  c.isAlphanum || c == '_' || c == '-'

/-- The brackets, braces and commas of flow collections. -/
def isFlowIndicator (c : Char) : Bool :=
  [',', '[', ']', '\x7b', '\x7d'].contains c

/-- The characters that open something other than a plain scalar. -/
def isIndicator (c : Char) : Bool :=
  isFlowIndicator c ||
    ['-', '?', ':', '#', '&', '*', '!', '|', '>', '\'', '"', '%', '@', '\x60'].contains c

/-- The characters of a tag besides word characters. -/
def isTagChar (c : Char) : Bool :=
  [';', '/', '?', ':', '@', '&', '=', '+', '$', '.', '%', '!', '~', '*', '\'', '(', ')'].contains c

end BackupRetention.Yaml
