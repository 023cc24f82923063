import BackupRetention.Proofs.Calendar.Text

/-!
# Spellings of dates

A number can be written with any zeros in front, and is read all the same; it is printed with
exactly as many as fill up its width. So a date can be written in many ways, and only one of them is
the one in which it is printed.

## Main definitions

* `Text.PaddedTo`: digits as they are printed in some width.

## Main results

* `Text.exists_zerosThen`: digits are zeros and then the digits of their number.
* `Text.padded_eq_iff`: which digits are printed again as they were.
* `Date.exists_of_ofText`: the numbers of a date that was read.
-/

namespace BackupRetention

namespace Text

/-- Digits fill up the width, and they start with a zero only if they just do so. -/
def PaddedTo (width : Nat) (cs : List Char) : Prop :=
  width ≤ cs.length ∧ (width < cs.length → cs.head? ≠ some '0')

instance (width : Nat) (cs : List Char) : Decidable (PaddedTo width cs) :=
  inferInstanceAs (Decidable (_ ∧ _))

theorem digitChar_of_isDigit {c : Char} (h : c.isDigit = true) :
    c.toNat - '0'.toNat < 10 ∧ Nat.digitChar (c.toNat - '0'.toNat) = c := by
  have bounds : 48 ≤ c.toNat ∧ c.toNat ≤ 57 := by
    simpa [Char.isDigit, UInt32.le_iff_toNat_le] using h
  have small : c.toNat - '0'.toNat < 10 := by
    have zero : '0'.toNat = 48 := rfl
    omega
  refine ⟨small, Char.toNat_inj.1 ?_⟩
  rw [Nat.toNat_digitChar_of_lt_ten small]
  have zero : '0'.toNat = 48 := rfl
  omega

/-- More digits behind the digits of a number. -/
theorem digits_append {n : Nat} (pos : 0 < n) {cs : List Char} (h : ∀ c ∈ cs, c.isDigit = true) :
    digits n ++ cs = digits (Nat.ofDigitChars 10 cs n) := by
  induction cs generalizing n with
  | nil => simp
  | cons c cs ih =>
    obtain ⟨here, there⟩ := List.forall_mem_cons.1 h
    obtain ⟨small, char⟩ := digitChar_of_isDigit here
    have next : digits n ++ [c] = digits (10 * n + (c.toNat - '0'.toNat)) := by
      rw [digits, digits, ← Nat.toDigits_append_toDigits (by decide) pos small,
        Nat.toDigits_of_lt_base small, char]
    rw [Nat.ofDigitChars_cons, ← ih (by omega) there, ← next]
    simp

theorem eq_zerosThen {cs : List Char} (some : cs ≠ []) (all : ∀ c ∈ cs, c.isDigit = true) :
    ∃ zeros, cs = zerosThen zeros (Nat.ofDigitChars 10 cs 0) := by
  induction cs with
  | nil => exact absurd rfl some
  | cons c cs ih =>
    obtain ⟨here, there⟩ := List.forall_mem_cons.1 all
    by_cases zero : c = '0'
    · subst zero
      by_cases last : cs = []
      · subst last
        exact ⟨0, by decide⟩
      · obtain ⟨zeros, rest⟩ := ih last there
        refine ⟨zeros + 1, ?_⟩
        have value : Nat.ofDigitChars 10 ('0' :: cs) 0 = Nat.ofDigitChars 10 cs 0 := by
          rw [Nat.ofDigitChars_cons]
          rfl
        rw [value, zerosThen, List.replicate_succ, List.cons_append]
        exact congrArg ('0' :: ·) rest
    · obtain ⟨small, char⟩ := digitChar_of_isDigit here
      have pos : 0 < c.toNat - '0'.toNat := by
        refine Nat.pos_of_ne_zero fun none => zero ?_
        rw [← char, none]
        rfl
      have first : digits (c.toNat - '0'.toNat) = [c] := by
        rw [digits, Nat.toDigits_of_lt_base small, char]
      refine ⟨0, ?_⟩
      rw [Nat.ofDigitChars_cons, Nat.mul_zero, Nat.zero_add, zerosThen, ← digits_append pos there,
        first]
      rfl

/-- Digits are zeros and then the digits of their number. -/
theorem exists_zerosThen {cs : List Char} {n : Nat} (h : number? cs = some n) :
    ∃ zeros, cs = zerosThen zeros n := by
  obtain ⟨some, all, rfl⟩ := number?_eq_some_iff.1 h
  exact eq_zerosThen some all

/-- The digits of a number start with a zero only if it has one digit. -/
theorem head?_digits {n : Nat} (long : 1 < (digits n).length) : (digits n).head? ≠ some '0' := by
  induction n using Nat.strongRecOn with
  | ind n ih =>
    have large : 10 ≤ n := by
      refine Nat.le_of_not_lt fun small => ?_
      rw [digits, Nat.toDigits_of_lt_base small] at long
      simp at long
    have step : digits n = digits (n / 10) ++ [(n % 10).digitChar] :=
      Nat.toDigits_of_base_le (by decide) large
    have front : (digits n).head? = (digits (n / 10)).head? := by
      obtain ⟨c, cs, some⟩ :=
        List.exists_cons_of_ne_nil (Nat.toDigits_ne_nil (n := n / 10) (b := 10))
      rw [step, digits, some]
      rfl
    rw [front]
    by_cases more : 10 ≤ n / 10
    · refine ih (n / 10) (by omega) ?_
      rw [digits, Nat.toDigits_of_base_le (by decide) more, List.length_append]
      have some : 0 < (Nat.toDigits 10 (n / 10 / 10)).length := Nat.length_toDigits_pos
      simp
      omega
    · rw [digits, Nat.toDigits_of_lt_base (by omega)]
      intro zero
      have value := Nat.toNat_digitChar_of_lt_ten (n := n / 10) (by omega)
      rw [Option.some.inj zero] at value
      have code : '0'.toNat = 48 := rfl
      omega

theorem paddedTo_zerosThen {width : Nat} (pos : 0 < width) (zeros n : Nat) :
    PaddedTo width (zerosThen zeros n) ↔ zeros = width - (digits n).length := by
  have length : (zerosThen zeros n).length = zeros + (digits n).length := by simp [zerosThen]
  rw [PaddedTo, length]
  cases zeros with
  | zero =>
    have bare : zerosThen 0 n = digits n := rfl
    have first : width < 0 + (digits n).length → (digits n).head? ≠ some '0' :=
      fun longer => head?_digits (by omega)
    rw [bare]
    exact ⟨fun fits => by omega, fun fits => ⟨by omega, first⟩⟩
  | succ zeros =>
    have first : (zerosThen (zeros + 1) n).head? = some '0' := by
      simp [zerosThen, List.replicate_succ]
    simp [first]
    omega

/-- Digits are printed again as they were exactly if they are padded to the width. -/
theorem padded_eq_iff {width : Nat} (pos : 0 < width) {cs : List Char} {n : Nat}
    (h : number? cs = some n) : padded width n = cs ↔ PaddedTo width cs := by
  obtain ⟨zeros, rfl⟩ := exists_zerosThen h
  rw [paddedTo_zerosThen pos, padded_of_nonneg, zerosThen]
  simp [eq_comm]

end Text

namespace Date

theorem number?_of_field? {cs : List Char} {n : Int} (h : field? cs = some n) :
    ∃ k : Nat, Text.number? cs = some k ∧ n = k := by
  unfold field? at h
  cases read : Text.number? cs with
  | none => simp [read] at h
  | some k =>
    simp only [read, Option.ite_none_right_eq_some, Option.some.injEq] at h
    exact ⟨k, rfl, h.2.symm⟩

/-- The numbers of a date that was read. -/
theorem exists_of_ofText {s : String} {date : Date} (h : ofText s = .ok date) :
    ∃ (y m d : List Char) (a b c : Nat), Text.pieces '-' s.toList = [y, m, d] ∧
      Text.number? y = some a ∧ Text.number? m = some b ∧ Text.number? d = some c ∧
        date = ⟨a, b, c⟩ := by
  unfold ofText fields? at h
  grind [number?_of_field?]

end Date

end BackupRetention
