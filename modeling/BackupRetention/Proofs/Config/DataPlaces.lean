import BackupRetention.Backup
import BackupRetention.Config.Names
import BackupRetention.Proofs.Calendar.Text

/-!
# Where data is removed

An accepted name holds no slash and is not empty, so it goes at most one step along a path. The
names `.` and `..` are accepted as well: with one of them data is not where its backup says, and
removing it can remove something else.

## Main definitions

* `Backup.Accepted`: the host and the volume have accepted names.
* `Backup.Proper`: both names go down.

## Main results

* `Backup.locate_dataPath`: where data is.
* `Backup.dataPath_inside_iff`: data is three steps below its store exactly for proper names, and
  proper names tell data apart.
-/

namespace BackupRetention

/-- An accepted name holds no character that no kind of name may hold. -/
theorem NameKind.notMem_of_check {kind : NameKind} {name : String} (h : kind.check name = .ok ())
    {c : Char} (never : ∀ kind : NameKind, isNameChar kind.extra.toList c = false) :
    c ∉ name.toList := by
  intro inside
  have accepted := check_eq_ok_iff.1 h
  simp only [accepts, Bool.and_eq_true, List.all_eq_true] at accepted
  have allowed := accepted.2 c inside
  rw [never kind] at allowed
  cases allowed

/-- Accepted names are not empty and hold no slash. -/
theorem NameKind.single_of_check {kind : NameKind} {name : String} (h : kind.check name = .ok ()) :
    name ≠ "" ∧ '/' ∉ name.toList := by
  refine ⟨?_, notMem_of_check h fun kind => by cases kind <;> decide⟩
  rintro rfl
  have accepted := check_eq_ok_iff.1 h
  simp [accepts] at accepted

namespace Path

/-- An accepted name is one step along a path, if only in place or back. -/
theorem locate_join_of_check {kind : NameKind} {name : String} (h : kind.check name = .ok ())
    (start : Location) (base : String) :
    locate start (join base name) = step (locate start base) name := by
  obtain ⟨nonempty, noSlash⟩ := NameKind.single_of_check h
  rw [locate_join start base (isAbsolute_of_noSlash noSlash), names_of_single nonempty noSlash]
  rfl

theorem length_step_le (here : Location) (name : String) :
    (step here name).length ≤ here.length + 1 := by
  unfold step
  split
  · omega
  · split
    · simp [List.length_dropLast]
      omega
    · simp

/-- Only proper names go down. -/
theorem length_step_iff (here : Location) (name : String) :
    (step here name).length = here.length + 1 ↔ IsProper name := by
  constructor
  · intro h
    refine ⟨?_, ?_⟩
    · rintro rfl
      simp [step] at h
    · rintro rfl
      simp [step] at h
  · intro h
    simp [step_of_proper h]

end Path

namespace Backup

/-- Both names have been accepted. -/
structure Accepted (b : Backup) : Prop where
  host : NameKind.host.check b.host = .ok ()
  volume : NameKind.volume.check b.volume = .ok ()

/-- Neither name is `.` or `..`. -/
structure Proper (b : Backup) : Prop where
  host : Path.IsProper b.host
  volume : Path.IsProper b.volume

variable {a b : Backup}

/-- Accepted names go along the path to the data step by step. -/
theorem locate_dataPath (h : b.Accepted) (store : String) (start : Location) :
    Path.locate start (b.dataPath store) =
      Path.step (Path.step (Path.locate start store) b.host) b.volume ++ [b.date.text] := by
  rw [dataPath, Path.locate_join_of_plain start _ b.date.isPlain_text,
    Path.locate_join_of_check h.volume, Path.locate_join_of_check h.host]

theorem locate_dataPath_of_proper (h : b.Accepted) (proper : b.Proper) (store : String)
    (start : Location) : Path.locate start (b.dataPath store) =
      Path.locate start store ++ [b.host, b.volume, b.date.text] := by
  rw [locate_dataPath h, Path.step_of_proper proper.host, Path.step_of_proper proper.volume]
  simp

/-- Data three steps below the store shows that both names go down. -/
theorem proper_of_locate (h : b.Accepted) {store : String} {start : Location}
    (inside : Path.locate start (b.dataPath store) =
      Path.locate start store ++ [b.host, b.volume, b.date.text]) : b.Proper := by
  rw [locate_dataPath h] at inside
  have length := congrArg List.length inside
  simp only [List.length_append, List.length_cons, List.length_nil] at length
  have host := Path.length_step_le (Path.locate start store) b.host
  have volume := Path.length_step_le (Path.step (Path.locate start store) b.host) b.volume
  exact ⟨(Path.length_step_iff (Path.locate start store) _).1 (by omega),
    (Path.length_step_iff (Path.step (Path.locate start store) b.host) _).1 (by omega)⟩

/-- The data of a backup is three steps below its store exactly if neither name is `.` or `..`;
then it is at the place of another backup only if that is for the same host, volume and date. -/
theorem dataPath_inside_iff (ha : a.Accepted) (hb : b.Accepted) (store : String)
    (start : Location) :
    (Path.locate start (a.dataPath store) =
        Path.locate start store ++ [a.host, a.volume, a.date.text] ↔ a.Proper) ∧
      (a.Proper → b.Proper →
        (Path.locate start (a.dataPath store) = Path.locate start (b.dataPath store) ↔
          a.host = b.host ∧ a.volume = b.volume ∧ a.date = b.date)) := by
  refine ⟨⟨proper_of_locate ha, fun proper => locate_dataPath_of_proper ha proper store start⟩, ?_⟩
  intro pa pb
  rw [locate_dataPath_of_proper ha pa, locate_dataPath_of_proper hb pb]
  constructor
  · intro same
    simp only [List.append_cancel_left_eq, List.cons.injEq, and_true] at same
    exact ⟨same.1, same.2.1, Date.text_injective same.2.2⟩
  · rintro ⟨host, volume, date⟩
    rw [host, volume, date]

/-- Two hosts with one volume each on one day. -/
theorem dataPath_inside_hosts :
    let a : Backup := ⟨"host.example", "root", "dev0", ⟨2024, 2, 29⟩, 0⟩
    let b : Backup := ⟨"host2", "root", "dev0", ⟨2024, 2, 29⟩, 0⟩
    (a.Accepted ∧ b.Accepted ∧ a.Proper ∧ b.Proper) ∧
      Path.locate ["w"] (a.dataPath "s") ≠ Path.locate ["w"] (b.dataPath "s") := by
  intro a b
  have ha : a.Accepted :=
    ⟨NameKind.check_eq_ok_iff.2 (by decide), NameKind.check_eq_ok_iff.2 (by decide)⟩
  have hb : b.Accepted :=
    ⟨NameKind.check_eq_ok_iff.2 (by decide), NameKind.check_eq_ok_iff.2 (by decide)⟩
  have pa : a.Proper := ⟨by decide, by decide⟩
  have pb : b.Proper := ⟨by decide, by decide⟩
  refine ⟨⟨ha, hb, pa, pb⟩, fun same => ?_⟩
  have host := ((dataPath_inside_iff ha hb "s" ["w"]).2 pa pb).1 same
  exact absurd host.1 (by decide)

/-- The names `..` and `.` are accepted. With the first, data is looked for outside the store; with
both, two backups of different hosts have their data at one place. -/
theorem dataPath_outside :
    NameKind.host.check ".." = .ok () ∧ NameKind.volume.check ".." = .ok () ∧
      NameKind.host.check "." = .ok () ∧
      Path.locate [] (dataPath ⟨"..", "..", "dev0", ⟨2024, 2, 29⟩, 0⟩ "/mnt/store") =
        ["2024-02-29"] ∧
      Path.locate [] (dataPath ⟨"..", "store", "dev0", ⟨2024, 2, 29⟩, 0⟩ "/mnt/store") =
        Path.locate [] (dataPath ⟨".", ".", "dev0", ⟨2024, 2, 29⟩, 0⟩ "/mnt/store") := by
  refine ⟨?_, ?_, ?_, by decide, by decide +kernel⟩
  all_goals exact NameKind.check_eq_ok_iff.2 (by decide)

end Backup

end BackupRetention
