import BackupRetention.Proofs.Text.Trim

/-!
# Lines from pieces

The lines of a text are its pieces between line feeds, apart from carriage returns and from an empty
piece at the end.

## Main results

* `Text.intercalate_append_cons`: what stands in front of a piece and behind it.
* `Text.lines_of_pieces`: the lines of a text that has been cut.
* `Text.map_trimChars_lines`: what is on the lines, told by the pieces.
-/

namespace BackupRetention.Text

variable {sep : Char} {cs : List Char}

/-! ## Pieces -/

theorem exists_pieces_eq (sep : Char) (cs : List Char) :
    ∃ before last, pieces sep cs = before ++ [last] :=
  ⟨_, _, (List.dropLast_append_getLast (pieces_ne_nil sep cs)).symm⟩

theorem intercalate_cons (sep : Char) (piece : List Char) (after : List (List Char)) :
    [sep].intercalate (piece :: after) = piece ++ after.flatMap (sep :: ·) := by
  induction after generalizing piece with
  | nil => simp
  | cons next after ih =>
    rw [List.intercalate_cons_cons, ih]
    simp

/-- The pieces in front of `piece` end with separators, and those behind it start with them. -/
theorem intercalate_append_cons (sep : Char) (before : List (List Char)) (piece : List Char)
    (after : List (List Char)) : [sep].intercalate (before ++ piece :: after) =
      before.flatMap (· ++ [sep]) ++ piece ++ after.flatMap (sep :: ·) := by
  induction before with
  | nil => exact intercalate_cons sep piece after
  | cons first before ih =>
    obtain ⟨next, rest, whole⟩ : ∃ next rest, before ++ piece :: after = next :: rest :=
      List.exists_cons_of_ne_nil (by simp)
    rw [List.cons_append, whole, List.intercalate_cons_cons, ← whole, ih]
    simp

theorem intercalate_append {a b : List (List Char)} (ha : a ≠ []) (hb : b ≠ []) :
    [sep].intercalate (a ++ b) = [sep].intercalate a ++ sep :: [sep].intercalate b := by
  obtain ⟨x, a, rfl⟩ := List.exists_cons_of_ne_nil ha
  obtain ⟨y, b, rfl⟩ := List.exists_cons_of_ne_nil hb
  rw [List.cons_append, intercalate_cons, intercalate_cons, intercalate_cons]
  simp

/-- A text around one of its pieces. -/
theorem eq_of_pieces {before after : List (List Char)} {piece : List Char}
    (cut : pieces sep cs = before ++ piece :: after) :
    cs = before.flatMap (· ++ [sep]) ++ piece ++ after.flatMap (sep :: ·) := by
  rw [← intercalate_append_cons, ← cut, intercalate_pieces]

theorem subset_of_mem_pieces {piece : List Char} (h : piece ∈ pieces sep cs) : piece ⊆ cs := by
  obtain ⟨before, after, cut⟩ := List.append_of_mem h
  intro c inside
  rw [eq_of_pieces cut]
  simp [inside]

/-! ## Lines -/

/-- A text ends in a line feed if its last piece is empty, and not the only one. -/
theorem getLast?_of_pieces {before : List (List Char)} {last : List Char}
    (cut : pieces '\n' cs = before ++ [last]) :
    cs.getLast? = some '\n' ↔ before ≠ [] ∧ last = [] := by
  have whole : cs = before.flatMap (· ++ ['\n']) ++ last := by simpa using eq_of_pieces cut
  have inside : last ∈ pieces '\n' cs := by simp [cut]
  have single : '\n' ∉ last := not_mem_of_mem_pieces inside
  rcases List.eq_nil_or_concat last with rfl | ⟨front, c, rfl⟩
  · rcases List.eq_nil_or_concat before with rfl | ⟨front, line, rfl⟩ <;> simp [whole]
  · have other : c ≠ '\n' := by
      rintro rfl
      simp at single
    simp [whole, other]

theorem lines_of_pieces {before : List (List Char)} {last : List Char}
    (cut : pieces '\n' cs = before ++ [last]) :
    lines cs = before.map dropReturn ++ [last].filter (· ≠ []) := by
  simp [lines, cut]

theorem lines_ne_nil (some : cs ≠ []) : lines cs ≠ [] := by
  obtain ⟨before, last, cut⟩ := exists_pieces_eq '\n' cs
  intro none
  rw [lines_of_pieces cut, List.append_eq_nil_iff, List.map_eq_nil_iff] at none
  obtain ⟨rfl, empty⟩ := none
  have same : cs = last := by simpa using eq_of_pieces cut
  rw [same] at some
  simp [some] at empty

/-- Carriage returns do not count. -/
theorem map_trimChars_lines {before : List (List Char)} {last : List Char}
    (cut : pieces '\n' cs = before ++ [last]) :
    (lines cs).map trimChars =
      before.map trimChars ++ ([last].filter (· ≠ [])).map trimChars := by
  rw [lines_of_pieces cut, List.map_append, List.map_map]
  congr 1
  exact List.map_congr_left fun line _ => trimChars_dropReturn line

end BackupRetention.Text
