import BackupRetention.Proofs.Calendar.Text
import BackupRetention.Proofs.Fault.Context
import BackupRetention.Proofs.Files.Changes
import BackupRetention.Proofs.Text.Folding
import BackupRetention.Prune.Log

/-!
# Lines about failures

What a prune log tells about a failure is one line, whatever line ends there are in the texts of the
fault. Each layer of context has its place on it, in front of what it was added to.

## Main definitions

* `PruneLog.NotesFailure`: what is promised of noting a failure.

## Main results

* `Fault.fold_text_above`: a layer of context stands in front of the rest.
* `PruneLog.notes_failure`: noting a failure adds one line with all that is known.
-/

namespace BackupRetention

namespace Fault

open Text (fold)

/-- The heading of a layer ends its own line. -/
theorem Layer.getLast?_heading (layer : Layer) : layer.heading.toList.getLast? = some ':' := by
  cases layer <;> simp [heading]

theorem text_above_ne (layer : Layer) (f : Fault) : (layer.above f).text ≠ "" := by
  intro empty
  have letters := congrArg String.toList (text_above layer f)
  simp [empty] at letters

/-- On the folded line a layer of context stands in front of what it was added to. -/
theorem fold_text_above {f : Fault} (some : f.text ≠ "") (layer : Layer) :
    fold (layer.above f).text = fold layer.heading ++ " " ++ fold f.text := by
  have last := layer.getLast?_heading
  have heading : layer.heading.toList ≠ [] := by
    intro empty
    simp [empty] at last
  have below : f.text.toList ≠ [] := by simpa using some
  refine String.toList_injective ?_
  have folded := Text.foldChars_heading (by rw [last]; decide) heading below
  simpa [text_above] using folded

/-- The folded line has all layers of context, outermost first. -/
theorem fold_text_under {f : Fault} (some : f.text ≠ "") (layers : List Layer) :
    (under layers f).text ≠ "" ∧ fold (under layers f).text =
      String.intercalate " " (layers.map (fold ·.heading) ++ [fold f.text]) := by
  induction layers with
  | nil => exact ⟨some, by simp⟩
  | cons layer layers ih =>
    refine ⟨text_above_ne layer _, ?_⟩
    rw [under_cons, fold_text_above ih.1, ih.2, List.map_cons, List.cons_append,
      String.intercalate_cons_of_ne_nil (by simp)]

end Fault

namespace PruneLog

open Text (fold)

/-- What is promised of noting that `path` could not be removed. -/
structure NotesFailure (log : PruneLog) (path : String) (reason : Fault) : Prop where
  /-- The log gets one more line, and nothing else changes. -/
  appended : ∀ (t : FileTree) (content : ByteArray), t.Holds log.place content →
    log.failed path reason t = (.ok (), t.set log.place (.file (content ++
      (log.today.text ++ ": FAILED to remove " ++ path ++ ": " ++ fold reason.text ++ "\n").toUTF8)))
  reason_single : '\n' ∉ (fold reason.text).toList
  line_single : '\n' ∉
    (log.today.text ++ ": FAILED to remove " ++ path ++ ": " ++ fold reason.text).toList
  message : reason.text ≠ "" → ∀ message : String,
    fold (Fault.during message reason).text = fold (message ++ ":") ++ " " ++ fold reason.text
  function : reason.text ≠ "" → ∀ name : String,
    fold (Fault.within name reason).text = fold (name ++ " failed:") ++ " " ++ fold reason.text
  /-- No layer of context is lost. -/
  layers : reason.text ≠ "" → ∀ layers : List Fault.Layer, fold (Fault.under layers reason).text =
    String.intercalate " " (layers.map (fold ·.heading) ++ [fold reason.text])

/-- Noting a failure adds one line to the log, with the day, the path and the reason on it. All
layers of context are on this line, and folded they are the same whether indented or not. -/
theorem notes_failure (log : PruneLog) {path : String} (single : '\n' ∉ path.toList)
    (reason : Fault) : NotesFailure log path reason where
  appended t content there := by
    rw [failed, writeLine, FileTree.append, there]
    rfl
  reason_single := Text.lineFeed_notMem_fold reason.text
  line_single := by
    have date : '\n' ∉ log.today.chars := fun inside => by
      rcases Date.mem_chars inside with h | h <;> exact absurd h (by decide)
    have folded := Text.lineFeed_notMem_fold reason.text
    rw [Text.toList_fold] at folded
    simp [date, single, folded]
  message some text := Fault.fold_text_above some (.message text)
  function some name := Fault.fold_text_above some (.function name)
  layers some layers := (Fault.fold_text_under some layers).2

/-- The open log of a leap day. -/
def leapDay : PruneLog := ⟨"prune-2024-02-29.log", ⟨2024, 2, 29⟩, ["prune-2024-02-29.log"]⟩

/-- A tree with a new log of the leap day. -/
def fresh : FileTree := FileTree.empty.set leapDay.place (.file .empty)

/-- Line ends of both kinds, an empty line and blanks around the words, below a message with a line
end of its own. -/
def ragged : Fault := .during "removing\r\ndata" (.io (.other " no\r\n\n\tsuch file \n"))

/-- All that is left of the line ends is one blank each. -/
theorem notes_failure_ragged : '\n' ∉ "s/h/v/2024-01-02".toList ∧
    NotesFailure leapDay "s/h/v/2024-01-02" ragged ∧
    leapDay.failed "s/h/v/2024-01-02" ragged fresh = (.ok (), fresh.set leapDay.place (.file
      ("2024-02-29: FAILED to remove s/h/v/2024-01-02: removing data: no  such file\n").toUTF8)) := by
  have single : '\n' ∉ "s/h/v/2024-01-02".toList := by decide
  have notes := notes_failure leapDay single ragged
  have line : leapDay.today.text ++ ": FAILED to remove " ++ "s/h/v/2024-01-02" ++ ": " ++
      fold ragged.text ++ "\n" =
        "2024-02-29: FAILED to remove s/h/v/2024-01-02: removing data: no  such file\n" := by
    decide
  have added := notes.appended fresh .empty rfl
  rw [line, ByteArray.empty_append] at added
  exact ⟨single, notes, added⟩

end PruneLog

end BackupRetention
