import BackupRetention.Proofs.Text.Pieces
import Mathlib.Data.List.DropRight

/-!
# First lines and trimmed texts

What the first line of a text is and what is left of it between its blanks, told without the
functions that find them.

## Main definitions

* `Text.Trims`: a text without the blanks at its ends.
* `Text.FirstLine`: the line that a text starts with.

## Main results

* `Text.trims_iff`: what trimming gives.
* `Text.trims_head?_lines`: what is left of the first line.
-/

namespace BackupRetention.Text

variable {cs ds line : List Char}

/-! ## Trimming -/

/-- There are only blanks around `ds` in `cs`, and none at the ends of `ds`. -/
structure Trims (cs ds : List Char) : Prop where
  around : ∃ before after, cs = before ++ ds ++ after ∧ ∀ c ∈ before ++ after, isBlank c = true
  first : ∀ c ∈ ds.head?, isBlank c = false
  last : ∀ c ∈ ds.getLast?, isBlank c = false

theorem dropWhile_blank_append {before rest : List Char}
    (blank : ∀ c ∈ before, isBlank c = true) (first : ∀ c ∈ rest.head?, isBlank c = false) :
    (before ++ rest).dropWhile isBlank = rest := by
  rw [List.dropWhile_append_of_pos blank]
  cases rest with
  | nil => rfl
  | cons c rest => rw [List.dropWhile_cons_of_neg (by simp [first c rfl])]

theorem isBlank_head?_dropWhile (cs : List Char) :
    ∀ c ∈ (cs.dropWhile isBlank).head?, isBlank c = false := by
  intro c head
  have stops := List.head?_dropWhile_not isBlank cs
  rw [Option.mem_def.1 head] at stops
  exact stops

theorem trims_trimChars (cs : List Char) : Trims cs (trimChars cs) := by
  have front : cs.takeWhile isBlank ++ cs.dropWhile isBlank = cs := List.takeWhile_append_dropWhile
  have back : trimChars cs ++ (cs.dropWhile isBlank).rtakeWhile isBlank = cs.dropWhile isBlank :=
    List.rdropWhile_append_rtakeWhile ..
  refine ⟨⟨cs.takeWhile isBlank, (cs.dropWhile isBlank).rtakeWhile isBlank, ?_, ?_⟩, ?_, ?_⟩
  · rw [List.append_assoc, back, front]
  · rw [List.forall_mem_append]
    exact ⟨fun c inside => List.mem_takeWhile_imp inside,
      fun c inside => List.mem_takeWhile_imp (List.mem_reverse.1 inside)⟩
  · intro c head
    refine isBlank_head?_dropWhile cs c ?_
    rw [← back, List.head?_append, Option.mem_def.1 head]
    rfl
  · intro c last
    rw [trimChars, List.getLast?_reverse] at last
    exact isBlank_head?_dropWhile _ c last

/-- What is left when the blanks at both ends have gone. -/
theorem trims_iff : Trims cs ds ↔ trimChars cs = ds := by
  refine ⟨?_, fun trimmed => trimmed ▸ trims_trimChars cs⟩
  rintro ⟨⟨before, after, rfl, blank⟩, first, last⟩
  rw [List.forall_mem_append] at blank
  have back : ∀ c ∈ after.reverse, isBlank c = true := by simpa using blank.2
  cases ds with
  | nil =>
    have all : ∀ c ∈ before ++ [] ++ after, isBlank c = true := by
      simpa only [List.append_nil, List.forall_mem_append] using blank
    rw [trimChars, List.dropWhile_eq_nil_iff.2 all]
    rfl
  | cons c ds =>
    rw [trimChars, List.append_assoc, dropWhile_blank_append blank.1 (by simpa using first),
      List.reverse_append, dropWhile_blank_append back (by rwa [List.head?_reverse]),
      List.reverse_reverse]

/-- A carriage return is blank. -/
theorem trimChars_dropReturn (line : List Char) : trimChars (dropReturn line) = trimChars line := by
  unfold dropReturn
  split
  · next last =>
    obtain ⟨front, rfl⟩ := List.getLast?_eq_some_iff.1 last
    obtain ⟨⟨before, after, whole, blank⟩, head, tail⟩ := trims_trimChars front
    rw [List.dropLast_concat, eq_comm, ← trims_iff]
    refine ⟨⟨before, after ++ ['\r'], ?_, ?_⟩, head, tail⟩
    · rw [← List.append_assoc, ← whole]
    · rw [← List.append_assoc, List.forall_mem_append]
      exact ⟨blank, List.forall_mem_singleton.2 rfl⟩
  · rfl

/-! ## First lines -/

/-- The text `cs` starts with `line`, which is all of it or ends with a line feed. -/
def FirstLine (cs line : List Char) : Prop :=
  '\n' ∉ line ∧ (cs = line ∨ ∃ rest, cs = line ++ '\n' :: rest)

theorem firstLine_iff : FirstLine cs line ↔ (pieces '\n' cs).head? = some line := by
  constructor
  · rintro ⟨short, rfl | ⟨rest, rfl⟩⟩
    · rw [pieces_of_not_mem short]
      rfl
    · rw [pieces_append_cons, pieces_of_not_mem short]
      rfl
  · intro head
    obtain ⟨rest, cut⟩ := List.head?_eq_some_iff.1 head
    obtain ⟨whole, free⟩ := (pieces_eq_iff (List.cons_ne_nil _ _)).1 cut
    refine ⟨free line List.mem_cons_self, ?_⟩
    cases rest with
    | nil => exact .inl (by simpa [List.intercalate] using whole)
    | cons next rest => exact .inr ⟨['\n'].intercalate (next :: rest), by
        simpa [List.intercalate] using whole⟩

theorem exists_firstLine (cs : List Char) : ∃ line, FirstLine cs line := by
  cases cut : pieces '\n' cs with
  | nil => exact absurd cut (pieces_ne_nil _ _)
  | cons line rest => exact ⟨line, firstLine_iff.2 (by rw [cut]; rfl)⟩

/-- What is left of the first of the lines of a text, which has none if it is empty. -/
theorem trims_head?_lines (first : FirstLine cs line) :
    trimChars ((lines cs).head?.getD []) = trimChars line := by
  obtain ⟨rest, cut⟩ := List.head?_eq_some_iff.1 (firstLine_iff.1 first)
  rw [lines, cut]
  cases rest with
  | nil => cases line <;> simp
  | cons next rest => simpa using trimChars_dropReturn line

end BackupRetention.Text
