import BackupRetention.Calendar.Written
import BackupRetention.Proofs.Files.Names

/-!
# Dates as texts

The text of a date tells the date, and it is a plain name for a file.

## Main results

* `Date.text_injective`: different dates have different texts.
* `Date.eq_of_ofText_text`: a text of a date is read as no other date.
* `Date.isPlain_text`: the text of a date is the name of something below.
-/

namespace BackupRetention

namespace Text

theorem number?_eq_some_iff {cs : List Char} {n : Nat} : number? cs = some n ↔
    cs ≠ [] ∧ (∀ c ∈ cs, c.isDigit = true) ∧ Nat.ofDigitChars 10 cs 0 = n := by
  simp [number?, and_assoc]

theorem isDigit_of_mem_digits {n : Nat} {c : Char} (h : c ∈ digits n) : c.isDigit = true :=
  Nat.isDigit_of_mem_toDigits (by decide) (by decide) h

/-- The digits of a number after some zeros. -/
def zerosThen (zeros n : Nat) : List Char :=
  List.replicate zeros '0' ++ digits n

theorem isDigit_of_mem_zerosThen {zeros n : Nat} {c : Char} (h : c ∈ zerosThen zeros n) :
    c.isDigit = true := by
  rcases List.mem_append.1 h with h | h
  · rw [List.eq_of_mem_replicate h]
    decide
  · exact isDigit_of_mem_digits h

theorem zerosThen_ne_nil (zeros n : Nat) : zerosThen zeros n ≠ [] := by
  simp [zerosThen, digits, Nat.toDigits_ne_nil]

theorem dash_notMem_zerosThen (zeros n : Nat) : '-' ∉ zerosThen zeros n := fun h =>
  absurd (isDigit_of_mem_zerosThen h) (by decide)

/-- Zeros in front do not change a number. -/
theorem ofDigitChars_zerosThen (zeros n : Nat) :
    Nat.ofDigitChars 10 (zerosThen zeros n) 0 = n := by
  rw [zerosThen, Nat.ofDigitChars_append, Nat.ofDigitChars_replicate_zero, Nat.mul_zero, digits,
    Nat.ofDigitChars_toDigits (by decide) (by decide)]

theorem number?_zerosThen (zeros n : Nat) : number? (zerosThen zeros n) = some n :=
  number?_eq_some_iff.2 ⟨zerosThen_ne_nil zeros n, fun _ => isDigit_of_mem_zerosThen,
    ofDigitChars_zerosThen zeros n⟩

/-- A padded number is a sign, if it is negative, and digits. -/
theorem padded_cases (width : Nat) (n : Int) :
    (0 ≤ n ∧ ∃ zeros, padded width n = zerosThen zeros n.natAbs) ∨
      (n < 0 ∧ ∃ zeros, padded width n = '-' :: zerosThen zeros n.natAbs) := by
  by_cases h : n < 0
  · exact .inr ⟨h, width - 1 - (digits n.natAbs).length, by simp [padded, zerosThen, h]⟩
  · exact .inl ⟨by omega, width - (digits n.natAbs).length, by simp [padded, zerosThen, h]⟩

theorem mem_padded {width : Nat} {n : Int} {c : Char} (h : c ∈ padded width n) :
    c.isDigit = true ∨ c = '-' := by
  rcases padded_cases width n with ⟨-, zeros, hp⟩ | ⟨-, zeros, hp⟩
  · exact .inl (isDigit_of_mem_zerosThen (hp ▸ h))
  · rw [hp] at h
    rcases List.mem_cons.1 h with rfl | h
    · exact .inr rfl
    · exact .inl (isDigit_of_mem_zerosThen h)

theorem padded_ne_nil (width : Nat) (n : Int) : padded width n ≠ [] := by
  rcases padded_cases width n with ⟨-, zeros, hp⟩ | ⟨-, zeros, hp⟩
  · exact hp ▸ zerosThen_ne_nil _ _
  · simp [hp]

/-- Digits end where a dash follows. -/
theorem zerosThen_append_inj {zeros zeros' n n' : Nat} {r r' : List Char}
    (h : zerosThen zeros n ++ '-' :: r = zerosThen zeros' n' ++ '-' :: r') :
    n = n' ∧ r = r' := by
  have digits_first (zeros n : Nat) (r : List Char) :
      (zerosThen zeros n ++ '-' :: r).takeWhile Char.isDigit = zerosThen zeros n := by
    rw [List.takeWhile_append_of_pos fun _ h => isDigit_of_mem_zerosThen h,
      List.takeWhile_cons_of_neg (by decide), List.append_nil]
  have same : zerosThen zeros n = zerosThen zeros' n' := by
    rw [← digits_first zeros n r, h, digits_first]
  refine ⟨?_, ?_⟩
  · rw [← ofDigitChars_zerosThen zeros n, same, ofDigitChars_zerosThen]
  · rw [same] at h
    exact (List.cons.inj (List.append_cancel_left h)).2

/-- Padded numbers end where a dash follows. -/
theorem padded_append_inj {width : Nat} {n n' : Int} {r r' : List Char}
    (h : padded width n ++ '-' :: r = padded width n' ++ '-' :: r') : n = n' ∧ r = r' := by
  have notSigned {zeros zeros' : Nat} {k k' : Nat} {r r' : List Char}
      (h : zerosThen zeros k ++ '-' :: r = '-' :: zerosThen zeros' k' ++ '-' :: r') : False := by
    cases hz : zerosThen zeros k with
    | nil => exact zerosThen_ne_nil _ _ hz
    | cons c cs =>
      rw [hz] at h
      have first : c = '-' := (List.cons.inj h).1
      exact dash_notMem_zerosThen zeros k (by simp [hz, first])
  rcases padded_cases width n with ⟨hn, zeros, hp⟩ | ⟨hn, zeros, hp⟩ <;>
    rcases padded_cases width n' with ⟨hn', zeros', hp'⟩ | ⟨hn', zeros', hp'⟩ <;>
    rw [hp, hp'] at h
  · obtain ⟨same, rest⟩ := zerosThen_append_inj h
    exact ⟨by omega, rest⟩
  · exact (notSigned h).elim
  · exact (notSigned h.symm).elim
  · obtain ⟨same, rest⟩ := zerosThen_append_inj (List.cons.inj h).2
    exact ⟨by omega, rest⟩

/-- The sign of a negative number cuts its text in two. -/
theorem length_pieces_padded (width : Nat) (n : Int) :
    (pieces '-' (padded width n)).length = if n < 0 then 2 else 1 := by
  rcases padded_cases width n with ⟨hn, zeros, hp⟩ | ⟨hn, zeros, hp⟩
  · rw [hp, pieces_of_not_mem (dash_notMem_zerosThen _ _), if_neg (by omega)]
    rfl
  · rw [hp, pieces, if_pos rfl, pieces_of_not_mem (dash_notMem_zerosThen _ _), if_pos hn]
    rfl

theorem pieces_padded_of_nonneg (width : Nat) {n : Int} (hn : 0 ≤ n) :
    pieces '-' (padded width n) = [padded width n] := by
  rcases padded_cases width n with ⟨-, zeros, hp⟩ | ⟨neg, -⟩
  · rw [hp]
    exact pieces_of_not_mem (dash_notMem_zerosThen _ _)
  · omega

theorem number?_padded (width : Nat) {n : Int} (hn : 0 ≤ n) :
    number? (padded width n) = some n.natAbs := by
  rcases padded_cases width n with ⟨-, zeros, hp⟩ | ⟨neg, -⟩
  · rw [hp, number?_zerosThen]
  · omega

end Text

namespace Date

theorem mem_chars {d : Date} {c : Char} (h : c ∈ d.chars) : c.isDigit = true ∨ c = '-' := by
  simp only [chars, List.mem_append, List.mem_cons] at h
  rcases h with h | h | h | h | h
  · exact Text.mem_padded h
  · exact .inr h
  · exact Text.mem_padded h
  · exact .inr h
  · exact Text.mem_padded h

/-- Different dates are written differently. -/
theorem chars_injective {d d' : Date} (h : d.chars = d'.chars) : d = d' := by
  obtain ⟨year, rest⟩ := Text.padded_append_inj h
  obtain ⟨month, rest⟩ := Text.padded_append_inj rest
  obtain ⟨day, -⟩ := Text.padded_append_inj (congrArg (· ++ ['-']) rest)
  obtain ⟨y, m, d⟩ := d
  obtain ⟨y', m', d'⟩ := d'
  simp_all

theorem text_injective {d d' : Date} (h : d.text = d'.text) : d = d' :=
  chars_injective (String.ofList_injective h)

@[simp] theorem toList_text (d : Date) : d.text.toList = d.chars := by
  simp [text]

/-- What is appended to a text of a date does not hide the date. -/
theorem isPlain_text_append (d : Date) {s : String} (hs : '/' ∉ s.toList) :
    Path.IsPlain (d.text ++ s) := by
  have first : ∃ c cs, (d.text ++ s).toList = c :: cs ∧ c ≠ '.' := by
    cases hd : d.chars with
    | nil => simp [chars, Text.padded_ne_nil] at hd
    | cons c cs =>
      refine ⟨c, cs ++ s.toList, by simp [hd], ?_⟩
      rintro rfl
      rcases mem_chars (d := d) (c := '.') (by simp [hd]) with h | h <;> exact absurd h (by decide)
  obtain ⟨c, cs, hl, hc⟩ := first
  refine ⟨⟨?_, ?_⟩, ?_, ?_⟩
  · intro h
    rw [h] at hl
    exact hc (List.cons.inj hl).1.symm
  · intro h
    rw [h] at hl
    exact hc (List.cons.inj hl).1.symm
  · intro h
    rw [h] at hl
    exact List.cons_ne_nil _ _ hl.symm
  · rw [String.toList_append, List.mem_append, toList_text]
    rintro (h | h)
    · rcases mem_chars h with h | h <;> exact absurd h (by decide)
    · exact hs h

/-- A date is the name of something below. -/
theorem isPlain_text (d : Date) : Path.IsPlain d.text := by
  simpa using d.isPlain_text_append (s := "") (by decide)

theorem pieces_chars (d : Date) : Text.pieces '-' d.chars =
    Text.pieces '-' (Text.padded 4 d.year) ++ (Text.pieces '-' (Text.padded 2 d.month) ++
      Text.pieces '-' (Text.padded 2 d.day)) := by
  rw [chars, Text.pieces_append_cons, Text.pieces_append_cons]

/-- What is read as a date consists of digits and dashes. -/
theorem mem_of_ofText {s : String} {d : Date} (h : ofText s = .ok d) {c : Char}
    (hc : c ∈ s.toList) : c.isDigit = true ∨ c = '-' := by
  have digits {cs : List Char} {n : Int} (hn : field? cs = some n) {c : Char} (hc : c ∈ cs) :
      c.isDigit = true := by
    unfold field? at hn
    split at hn
    · next read => exact (Text.number?_eq_some_iff.1 read).2.1 c hc
    · cases hn
  unfold ofText at h
  split at h
  · cases h
  · next y m day read =>
    unfold fields? at read
    split at read
    · next cy cm cd cut =>
      split at read
      · next hy hm hd =>
        rw [← Text.intercalate_pieces '-' s.toList, cut] at hc
        rcases Text.mem_intercalate hc with hc | ⟨part, hp, inside⟩
        · exact .inr hc
        · simp only [List.mem_cons, List.not_mem_nil, or_false] at hp
          rcases hp with rfl | rfl | rfl
          · exact .inl (digits hy inside)
          · exact .inl (digits hm inside)
          · exact .inl (digits hd inside)
      · cases read
    · cases read

/-- What is read from the text of a date can only be the date. -/
theorem eq_of_ofText_text {d e : Date} (h : ofText d.text = .ok e) : e = d := by
  unfold ofText at h
  rw [toList_text] at h
  split at h
  · cases h
  · next y m day read =>
    split at h
    · cases h
    · cases h
      unfold fields? at read
      split at read
      · next cy cm cd cut =>
        rw [pieces_chars] at cut
        have count := congrArg List.length cut
        simp only [List.length_append, Text.length_pieces_padded, List.length_cons,
          List.length_nil] at count
        have nonneg : 0 ≤ d.year ∧ 0 ≤ d.month ∧ 0 ≤ d.day := by
          split at count <;> split at count <;> split at count <;> omega
        obtain ⟨hy, hm, hd⟩ := nonneg
        rw [Text.pieces_padded_of_nonneg 4 hy, Text.pieces_padded_of_nonneg 2 hm,
          Text.pieces_padded_of_nonneg 2 hd] at cut
        obtain ⟨rfl, rfl, rfl⟩ : Text.padded 4 d.year = cy ∧ Text.padded 2 d.month = cm ∧
            Text.padded 2 d.day = cd := by simpa using cut
        simp only [field?, Text.number?_padded _ hy, Text.number?_padded _ hm,
          Text.number?_padded _ hd] at read
        split at read
        · next ry rm rd =>
          cases read
          obtain ⟨y, m, day⟩ := d
          simp only [Option.ite_none_right_eq_some, Option.some.injEq] at *
          simp only [mk.injEq]
          omega
        · cases read
      · cases read

end Date

end BackupRetention
