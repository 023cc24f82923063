import BackupRetention.Proofs.Text.Lines

/-!
# Folded texts

A text that is folded onto one line has the same words whether it was indented before or not. A
heading and what stands below it are folded one after the other.

## Main results

* `Text.pieces_indentChars`: how an indented text is cut.
* `Text.foldChars_indentChars`: folding sees through indentation.
* `Text.foldChars_heading`: folding a text with a heading.
-/

namespace BackupRetention.Text

variable {cs ds : List Char}

/-! ## Indentation -/

/-- Blanks in front of a line are trimmed away again. -/
theorem trimChars_indentLine (line : List Char) : trimChars (indentLine line) = trimChars line := by
  unfold indentLine
  split
  · next empty => rw [empty]
  · have blank : isBlank ' ' = true := rfl
    simp [trimChars, blank]

theorem lineFeed_notMem_indentLine {line : List Char} (single : '\n' ∉ line) :
    '\n' ∉ indentLine line := by
  unfold indentLine
  split
  · exact List.not_mem_nil
  · simp [single]

/-- The lines of a text are indented one by one, and a line feed at the end stays. -/
theorem pieces_indentChars (some : cs ≠ []) : pieces '\n' (indentChars cs) =
    (lines cs).map indentLine ++ if cs.getLast? = .some '\n' then [[]] else [] := by
  have cut : pieces '\n' (['\n'].intercalate ((lines cs).map indentLine)) =
      (lines cs).map indentLine := by
    refine pieces_intercalate (by simpa using lines_ne_nil some) fun line inside => ?_
    obtain ⟨plain, hp, rfl⟩ := List.mem_map.1 inside
    exact lineFeed_notMem_indentLine (not_mem_of_mem_lines hp)
  unfold indentChars
  split
  · rw [pieces_append_cons, cut, pieces_nil]
  · rw [List.append_nil, List.append_nil, cut]

/-- What is on the lines stays on them, whether the text is indented or not. -/
theorem map_trimChars_lines_indentChars (cs : List Char) :
    (lines (indentChars cs)).map trimChars = (lines cs).map trimChars := by
  rcases eq_or_ne cs [] with rfl | some
  · rfl
  obtain ⟨before, last, cut⟩ := exists_pieces_eq '\n' cs
  have indented := pieces_indentChars some
  have same (ls : List (List Char)) :
      (ls.map indentLine).map trimChars = ls.map trimChars := by
    rw [List.map_map]
    exact List.map_congr_left fun line _ => trimChars_indentLine line
  rcases eq_or_ne last [] with rfl | more
  · -- The text ends in a line feed, and the indented one does as well.
    have ended : cs.getLast? = .some '\n' := by
      refine (getLast?_of_pieces cut).2 ⟨?_, rfl⟩
      rintro rfl
      exact some (by simpa using eq_of_pieces cut)
    rw [if_pos ended] at indented
    rw [map_trimChars_lines indented, same]
    simp
  · have unended : cs.getLast? ≠ .some '\n' := fun ended =>
      more ((getLast?_of_pieces cut).1 ended).2
    have own : lines cs = before.map dropReturn ++ [last] := by simp [lines_of_pieces cut, more]
    rw [if_neg unended, List.append_nil, own, List.map_append, List.map_singleton] at indented
    have kept : indentLine last ≠ [] := by simp [indentLine, more]
    rw [map_trimChars_lines indented, same, own]
    simp [kept, trimChars_indentLine]

/-- Folding sees through indentation. -/
theorem foldChars_indentChars (cs : List Char) : foldChars (indentChars cs) = foldChars cs := by
  rw [foldChars, map_trimChars_lines_indentChars, foldChars]

/-! ## Headings -/

/-- The lines of two texts, one below the other. -/
theorem map_trimChars_lines_append (unended : cs.getLast? ≠ some '\n') (some : cs ≠ []) :
    (lines (cs ++ '\n' :: ds)).map trimChars =
      (lines cs).map trimChars ++ (lines ds).map trimChars := by
  obtain ⟨before, last, cut⟩ := exists_pieces_eq '\n' cs
  obtain ⟨before', last', cut'⟩ := exists_pieces_eq '\n' ds
  have more : last ≠ [] := by
    rintro rfl
    refine unended ((getLast?_of_pieces cut).2 ⟨?_, rfl⟩)
    rintro rfl
    exact some (by simpa using eq_of_pieces cut)
  have both : pieces '\n' (cs ++ '\n' :: ds) = (before ++ [last] ++ before') ++ [last'] := by
    rw [pieces_append_cons, cut, cut', ← List.append_assoc]
  rw [map_trimChars_lines both, map_trimChars_lines cut, map_trimChars_lines cut']
  simp [more]

/-- A heading and the indented text below it are folded one after the other. -/
theorem foldChars_heading (unended : cs.getLast? ≠ some '\n') (some : cs ≠ []) (below : ds ≠ []) :
    foldChars (cs ++ '\n' :: indentChars ds) = foldChars cs ++ ' ' :: foldChars ds := by
  have lined : (lines (indentChars ds)).map trimChars ≠ [] := by
    rw [map_trimChars_lines_indentChars]
    simpa using lines_ne_nil below
  rw [foldChars, map_trimChars_lines_append unended some,
    intercalate_append (by simpa using lines_ne_nil some) lined]
  exact congrArg (foldChars cs ++ ' ' :: ·) (foldChars_indentChars ds)

end BackupRetention.Text
