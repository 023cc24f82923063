import BackupRetention.Text.Lines

/-!
# Pieces and lines of a text

How a text is cut at a separator, what its pieces can hold, and what is on its lines.

## Main results

* `Text.pieces_append_cons`: a separator cuts a text in two.
* `Text.pieces_eq_iff`: what a text is cut into.
* `Text.lineFeed_notMem_fold`: a folded text is a single line.
-/

namespace BackupRetention.Text

variable {sep : Char}

/-! ## Pieces -/

theorem pieces_append_cons (sep : Char) (a b : List Char) :
    pieces sep (a ++ sep :: b) = pieces sep a ++ pieces sep b := by
  induction a with
  | nil => simp [pieces]
  | cons c a ih =>
    rw [List.cons_append, pieces, pieces, ih]
    split
    · rfl
    · cases h : pieces sep a with
      | nil => exact absurd h (pieces_ne_nil sep a)
      | cons p ps => rfl

theorem pieces_of_not_mem {a : List Char} (h : sep ∉ a) : pieces sep a = [a] := by
  induction a with
  | nil => rfl
  | cons c a ih =>
    rw [List.mem_cons, not_or] at h
    rw [pieces, if_neg (Ne.symm h.1), ih h.2]

/-- What has no separator in it only lengthens the last piece. -/
theorem pieces_append_of_not_mem (a : List Char) {b : List Char} (h : sep ∉ b) :
    ∃ before last, pieces sep a = before ++ [last] ∧
      pieces sep (a ++ b) = before ++ [last ++ b] := by
  induction a with
  | nil => exact ⟨[], [], rfl, pieces_of_not_mem h⟩
  | cons c a ih =>
    obtain ⟨before, last, ha, hab⟩ := ih
    rw [List.cons_append, pieces, pieces, ha, hab]
    by_cases hc : c = sep
    · exact ⟨[] :: before, last, by simp [hc], by simp [hc]⟩
    · cases before with
      | nil => exact ⟨[], c :: last, by simp [hc], by simp [hc]⟩
      | cons p ps => exact ⟨(c :: p) :: ps, last, by simp [hc], by simp [hc]⟩

theorem not_mem_of_mem_pieces {cs piece : List Char} (h : piece ∈ pieces sep cs) :
    sep ∉ piece := by
  induction cs generalizing piece with
  | nil =>
    rw [pieces_nil, List.mem_singleton] at h
    simp [h]
  | cons c cs ih =>
    rw [pieces] at h
    split at h
    · rcases List.mem_cons.1 h with rfl | h
      · exact List.not_mem_nil
      · exact ih h
    · next other =>
      cases cut : pieces sep cs with
      | nil => exact absurd cut (pieces_ne_nil sep cs)
      | cons p ps =>
        rw [cut] at h
        rcases List.mem_cons.1 h with rfl | h
        · rw [List.mem_cons, not_or]
          exact ⟨Ne.symm other, ih (cut ▸ List.mem_cons_self)⟩
        · exact ih (cut ▸ List.mem_cons_of_mem _ h)

/-- Only the parts themselves are cut apart by the separators between them. -/
theorem pieces_intercalate {parts : List (List Char)} (some : parts ≠ [])
    (h : ∀ part ∈ parts, sep ∉ part) : pieces sep ([sep].intercalate parts) = parts := by
  induction parts with
  | nil => exact absurd rfl some
  | cons part parts ih =>
    cases parts with
    | nil => simpa [List.intercalate] using pieces_of_not_mem (h part (by simp))
    | cons next parts =>
      have whole : [sep].intercalate (part :: next :: parts) =
          part ++ sep :: [sep].intercalate (next :: parts) := by
        simp [List.intercalate]
      rw [whole, pieces_append_cons, pieces_of_not_mem (h part (by simp)),
        ih (by simp) fun part hp => h part (List.mem_cons_of_mem _ hp)]
      rfl

theorem pieces_eq_iff {cs : List Char} {parts : List (List Char)}
    (some : parts ≠ []) : pieces sep cs = parts ↔
      cs = [sep].intercalate parts ∧ ∀ part ∈ parts, sep ∉ part := by
  constructor
  · rintro rfl
    exact ⟨(intercalate_pieces sep cs).symm, fun part => not_mem_of_mem_pieces⟩
  · rintro ⟨rfl, free⟩
    exact pieces_intercalate some free

theorem mem_intercalate {c : Char} {parts : List (List Char)}
    (h : c ∈ [sep].intercalate parts) : c = sep ∨ ∃ part ∈ parts, c ∈ part := by
  induction parts with
  | nil => simp [List.intercalate] at h
  | cons part parts ih =>
    cases parts with
    | nil => exact .inr ⟨part, List.mem_cons_self, by simpa [List.intercalate] using h⟩
    | cons next parts =>
      have cases : c ∈ part ∨ c = sep ∨ c ∈ [sep].intercalate (next :: parts) := by
        simpa [List.intercalate] using h
      rcases cases with h | h | h
      · exact .inr ⟨part, List.mem_cons_self, h⟩
      · exact .inl h
      · exact (ih h).imp_right fun ⟨p, hp, hc⟩ => ⟨p, List.mem_cons_of_mem _ hp, hc⟩

/-! ## Lines -/

theorem dropReturn_subset (line : List Char) : dropReturn line ⊆ line := by
  unfold dropReturn
  split
  · exact List.dropLast_subset line
  · exact List.Subset.refl line

theorem not_mem_of_mem_lines {cs line : List Char} (h : line ∈ lines cs) : '\n' ∉ line := by
  rcases List.mem_append.1 h with h | h
  · obtain ⟨piece, hp, rfl⟩ := List.mem_map.1 h
    have whole := not_mem_of_mem_pieces (List.dropLast_subset _ hp)
    exact fun hm => whole (dropReturn_subset piece hm)
  · have last : line ∈ (pieces '\n' cs).getLast? := by
      simpa using (List.mem_filter.1 h).1
    exact not_mem_of_mem_pieces (List.mem_of_getLast? last)

theorem trimChars_subset (cs : List Char) : trimChars cs ⊆ cs := by
  intro c hc
  have inner := (List.dropWhile_sublist _).subset (List.mem_reverse.1 hc)
  exact (List.dropWhile_sublist _).subset (List.mem_reverse.1 inner)

/-- Folding leaves a single line. -/
theorem lineFeed_notMem_fold (s : String) : '\n' ∉ (fold s).toList := by
  rw [toList_fold, foldChars]
  intro h
  rcases mem_intercalate h with h | ⟨part, hp, hc⟩
  · exact absurd h (by decide)
  · obtain ⟨line, hl, rfl⟩ := List.mem_map.1 hp
    exact not_mem_of_mem_lines hl (trimChars_subset line hc)

end BackupRetention.Text
