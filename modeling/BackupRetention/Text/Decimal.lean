/-!
# Numbers in texts

Decimal digits read and written, padded numbers, and the 32-bit pattern of a status.
-/

namespace BackupRetention.Text

/-- The largest and smallest numbers of 32 signed bits. -/
def maxInt32 : Int := 2147483647

def minInt32 : Int := -2147483648

/-- The largest number of 64 bits without a sign. -/
def maxNat64 : Nat := 18446744073709551615

/-- The decimal digits of `n`, without padding. -/
def digits (n : Nat) : List Char :=
  Nat.toDigits 10 n

/-- The number that a non-empty run of ASCII digits stands for. Leading zeros count for
nothing, and digits of other scripts are no digits. -/
def number? (cs : List Char) : Option Nat :=
  if cs ≠ [] ∧ cs.all Char.isDigit then some (Nat.ofDigitChars 10 cs 0) else none

/-- At least `width` characters: zeros stand between the sign and the digits, and the sign
takes up one of the characters. -/
def padded (width : Nat) (n : Int) : List Char :=
  let sign := if n < 0 then ['-'] else []
  let body := digits n.natAbs
  sign ++ List.replicate (width - sign.length - body.length) '0' ++ body

theorem padded_of_nonneg (width : Nat) (n : Nat) :
    padded width n = List.replicate (width - (digits n).length) '0' ++ digits n := by
  have h : ¬ (n : Int) < 0 := by omega
  simp [padded, h]

/-- The 32-bit two's complement of `n` as a hexadecimal number. -/
def hexWord (n : Int) : List Char :=
  '0' :: 'x' :: Nat.toDigits 16 (n % 4294967296).toNat

example : padded 4 7 = "0007".toList ∧ padded 4 (-5) = "-005".toList := by decide

example : hexWord (-1) = "0xffffffff".toList ∧ hexWord 256 = "0x100".toList := by decide

end BackupRetention.Text
