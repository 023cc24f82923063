import BackupRetention.Text.Json
import Mathlib.Tactic.IntervalCases

/-!
# Written strings

A string that is written in the notation of data files is read back as it was, whatever characters
are in it.

## Main results

* `Text.jsonBody?_jsonChar`: writing and reading a character.
* `Text.ofJsonString?_jsonString`: writing and reading a string.
-/

namespace BackupRetention.Text

variable {fuel : Nat} {c : Char} {rest : List Char}

theorem hexDigit?_digitChar {d : Nat} (small : d < 16) : hexDigit? d.digitChar = some d := by
  interval_cases d <;> rfl

/-- A control character is numbered by two digits. -/
theorem takeEscape?_control (control : c.toNat < 0x20) :
    takeEscape? ('u' :: '0' :: '0' ::
      (c.toNat / 16).digitChar :: (c.toNat % 16).digitChar :: rest) = some (c, rest) := by
  have zero : hexDigit? '0' = some 0 := rfl
  have unit : codeUnit? '0' '0' (c.toNat / 16).digitChar (c.toNat % 16).digitChar =
      some c.toNat := by
    simp only [codeUnit?, zero, hexDigit?_digitChar (by omega : c.toNat / 16 < 16),
      hexDigit?_digitChar (by omega : c.toNat % 16 < 16), Option.some.injEq]
    omega
  have low : ¬ 0xD800 ≤ c.toNat ∧ ¬ 0xDC00 ≤ c.toNat := by omega
  simp [takeEscape?, takeNumbered?, takeCodeUnit?, unit, low]

theorem jsonBody?_escape {escape : List Char} (read : takeEscape? escape = some (c, rest)) :
    jsonBody? (fuel + 1) ('\\' :: escape) =
      (jsonBody? fuel rest).map fun (cs, after) => (c :: cs, after) := by
  simp [jsonBody?, read, Option.map_eq_bind]

/-- A written character is read as the character. -/
theorem jsonBody?_jsonChar (fuel : Nat) (c : Char) (rest : List Char) :
    jsonBody? (fuel + 1) (jsonChar c ++ rest) =
      (jsonBody? fuel rest).map fun (cs, after) => (c :: cs, after) := by
  unfold jsonChar
  split_ifs with quote backslash lineFeed carriage tab backspace formFeed control
  · exact jsonBody?_escape (by rw [quote]; rfl)
  · exact jsonBody?_escape (by rw [backslash]; rfl)
  · exact jsonBody?_escape (by rw [lineFeed]; rfl)
  · exact jsonBody?_escape (by rw [carriage]; rfl)
  · exact jsonBody?_escape (by rw [tab]; rfl)
  · exact jsonBody?_escape (by rw [backspace]; rfl)
  · exact jsonBody?_escape (by rw [formFeed]; rfl)
  · exact jsonBody?_escape (takeEscape?_control control)
  · simp [jsonBody?, quote, backslash, control, Option.map_eq_bind]

theorem length_pos_jsonChar (c : Char) : 0 < (jsonChar c).length := by
  unfold jsonChar
  split_ifs <;> simp

/-- What is written is read up to the closing quote. -/
theorem jsonBody?_flatMap (cs rest : List Char)
    (enough : (cs.flatMap jsonChar).length < fuel) :
    jsonBody? fuel (cs.flatMap jsonChar ++ '"' :: rest) = some (cs, rest) := by
  induction cs generalizing fuel with
  | nil =>
    obtain ⟨fuel, rfl⟩ := Nat.exists_eq_add_one_of_ne_zero (Nat.ne_zero_of_lt enough)
    simp [jsonBody?]
  | cons c cs ih =>
    -- A written character takes up fuel for at least itself.
    have some := length_pos_jsonChar c
    rw [List.flatMap_cons, List.length_append] at enough
    obtain ⟨fuel, rfl⟩ := Nat.exists_eq_add_one_of_ne_zero (Nat.ne_zero_of_lt enough)
    rw [List.flatMap_cons, List.append_assoc, jsonBody?_jsonChar, ih (by omega)]
    rfl

/-- A written string is read as the string. -/
@[simp] theorem ofJsonString?_jsonString (s : String) : ofJsonString? (jsonString s) = some s := by
  have quote : isJsonBlank '"' = false := rfl
  simp [ofJsonString?, jsonString, quote, jsonBody?_flatMap]

end BackupRetention.Text
