/-!
# Blank characters

The characters with the Unicode property White_Space, and texts cut free of them at
both ends.
-/

namespace BackupRetention.Text

/-- The 25 characters with the property White_Space. -/
def isBlank (c : Char) : Bool :=
  let n := c.toNat
  (0x09 ≤ n && n ≤ 0x0D) || n == 0x20 || n == 0x85 || n == 0xA0 || n == 0x1680 ||
    (0x2000 ≤ n && n ≤ 0x200A) || n == 0x2028 || n == 0x2029 || n == 0x202F ||
    n == 0x205F || n == 0x3000

/-- The line feed is blank: a text made of line ends only is blank. -/
theorem isBlank_lineFeed : isBlank '\n' = true := rfl

/-- `cs` without the blanks at its two ends. -/
def trimChars (cs : List Char) : List Char :=
  ((cs.dropWhile isBlank).reverse.dropWhile isBlank).reverse

end BackupRetention.Text
