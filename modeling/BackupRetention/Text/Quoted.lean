import BackupRetention.Text.Unprintable

/-!
# Quoted text

A text between double quotes on one line: quotes, backslashes and line ends are escaped
with a backslash, and what has no printed form of its own is written by its code point.
-/

namespace BackupRetention.Text

/-- `n` in lower-case hexadecimal digits without padding. -/
def hexDigits (n : Nat) : List Char :=
  Nat.toDigits 16 n

/-- `c` written between quotes. A single quote needs no escape. -/
def quoteChar (c : Char) : List Char :=
  if c = '"' then ['\\', '"']
  else if c = '\\' then ['\\', '\\']
  else if c = '\n' then ['\\', 'n']
  else if c = '\r' then ['\\', 'r']
  else if c = '\t' then ['\\', 't']
  else if c.toNat = 0 then ['\\', '0']
  else if standsAlone c then [c]
  else ['\\', 'u', '\x7b'] ++ hexDigits c.toNat ++ ['\x7d']

def quoteChars (cs : List Char) : List Char :=
  '"' :: (cs.flatMap quoteChar ++ ['"'])

def quote (s : String) : String :=
  String.ofList (quoteChars s.toList)

example : quote "a\"b\\'\u0301\u200b" = "\"a\\\"b\\\\'\\u\x7b301\x7d\\u\x7b200b\x7d\"" := by
  decide +kernel

end BackupRetention.Text
