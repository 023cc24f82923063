import BackupRetention.Proofs.Schedule.Worlds
import BackupRetention.Prune.Pass

/-!
# What a pass removes

However the removals of a pass go, what it notes as removed was handed over for removal, and
the only programs that it runs are those that remove what was handed over.

## Main definitions

* `Pass.Site.Confined`: only what was handed over has been removed.
* `Pass.Noted`: the same of a world, whose jobs keep it so.

## Main results

* `Removal.calls_run`: what a single removal runs.
* `Pass.removeAll_confined`: all removals together.
-/

namespace BackupRetention

namespace Removal

variable (runner : Runner) (x : Removal) (m : Machine)

@[simp] theorem calls_placeSentinel : (x.placeSentinel m).2.calls = m.calls := by
  unfold placeSentinel
  generalize m.tree.touch x.sentinelPath = touched
  obtain ⟨_ | _, tree⟩ := touched <;> rfl

@[simp] theorem calls_dropLog : (x.dropLog m).2.calls = m.calls := by
  unfold dropLog
  generalize m.tree.unlink x.logPath = unlinked
  obtain ⟨_ | _, tree⟩ := unlinked <;> rfl

@[simp] theorem calls_removeData :
    (x.removeData runner m).2.calls = m.calls ++ [removeTree x.dataPath] := by
  unfold removeData
  rw [← m.calls_execute runner]
  generalize m.execute runner (removeTree x.dataPath) = executed
  obtain ⟨_ | _, n⟩ := executed <;> rfl

@[simp] theorem calls_clearSentinel : (x.clearSentinel m).2.calls = m.calls := by
  rw [clearSentinel]

/-- Only removing the data runs a program. -/
theorem calls_perform (step : Step) :
    (x.perform runner step m).2.calls ⊆ removeTree x.dataPath :: m.calls := by
  cases step with
  | placeSentinel =>
    rw [perform, calls_placeSentinel]
    exact List.subset_cons_self _ _
  | dropLog =>
    rw [perform, calls_dropLog]
    exact List.subset_cons_self _ _
  | removeData =>
    rw [perform, calls_removeData]
    exact List.append_subset.2 ⟨List.subset_cons_self _ _, by simp⟩
  | clearSentinel =>
    rw [perform, calls_clearSentinel]
    exact List.subset_cons_self _ _

theorem calls_performAll (steps : List Step) :
    (x.performAll runner steps m).2.calls ⊆ removeTree x.dataPath :: m.calls := by
  induction steps generalizing m with
  | nil => exact List.subset_cons_self _ _
  | cons step steps ih =>
    have here := x.calls_perform runner m step
    unfold performAll
    generalize x.perform runner step m = result at here ⊢
    obtain ⟨_ | _, n⟩ := result
    · exact here
    · exact List.Subset.trans (ih n) (List.cons_subset.2 ⟨List.mem_cons_self, here⟩)

/-- A removal runs no program but the one that removes the data. -/
theorem calls_run : (x.run runner m).2.calls ⊆ removeTree x.dataPath :: m.calls := by
  rw [run]
  exact x.calls_performAll runner m steps

end Removal

namespace Pass

/-- The command lines that remove the data of `targets`. -/
def commands (targets : List (String × Record)) : List (List String) :=
  targets.map fun t => removeTree (t.2.backup.dataPath t.1)

/-- Only records among `targets` are noted as removed, and after the command lines `before`
only those that remove them were run. -/
structure Site.Confined (targets : List (String × Record)) (before : List (List String))
    (s : Site) : Prop where
  removed : s.removed ⊆ targets.map Prod.snd
  calls : s.machine.calls ⊆ before ++ commands targets

/-- The site is confined, and no job changes that. -/
structure Noted (targets : List (String × Record)) (before : List (List String)) (w : World) :
    Prop where
  site : w.shared.Confined targets before
  jobs : ∀ job ∈ w.queue, ∀ s : Site, s.Confined targets before →
    (job.2 s).2.Confined targets before

variable {targets : List (String × Record)} {before : List (List String)}

theorem Noted.step {w : World} (h : Noted targets before w) (n : Nat) :
    Noted targets before (w.step n) := by
  unfold Pool.step
  split
  · exact h
  · next id work here =>
    refine ⟨h.jobs (id, work) (List.mem_of_getElem? here) w.shared h.site, ?_⟩
    intro job hjob
    exact h.jobs job (List.mem_of_mem_eraseIdx hjob)

theorem Noted.steps {w : World} (h : Noted targets before w) (ns : List Nat) :
    Noted targets before (w.steps ns) := by
  induction ns generalizing w with
  | nil => exact h
  | cons n ns ih => exact ih (h.step n)

theorem Noted.proceed {w : World} (h : Noted targets before w) :
    Noted targets before w.proceed := by
  unfold Pool.proceed
  split
  · exact h
  · next ns rest pace =>
    have again : Noted targets before { w with pace := rest } := ⟨h.site, h.jobs⟩
    exact again.steps ns

theorem loop_keeps_noted : Pool.loop.Keeps (Noted targets before) := by
  intro w h
  have further : Noted targets before
      (if w.proceed.reported = [] then w.proceed.step 0 else w.proceed) := by
    split
    · exact h.proceed.step 0
    · exact h.proceed
  show Noted targets before w.wait.2
  unfold Pool.wait
  dsimp only
  generalize (if w.proceed.reported = [] then w.proceed.step 0 else w.proceed) = v at *
  split
  · exact further
  · exact ⟨further.site, further.jobs⟩

/-- The job of a target runs the program that removes it. -/
theorem Site.Confined.removalJob {s : Site} (h : s.Confined targets before) (runner : Runner)
    (logs : String) {store : String} {r : Record} (hr : (store, r) ∈ targets) :
    (removalJob runner ⟨r.backup, store, logs⟩ s).2.Confined targets before := by
  have own : removeTree (r.backup.dataPath store) ∈ before ++ commands targets :=
    List.mem_append_right _ (List.mem_map.2 ⟨(store, r), hr, rfl⟩)
  have calls := Removal.calls_run runner ⟨r.backup, store, logs⟩ s.machine
  unfold Pass.removalJob
  generalize Removal.run runner ⟨r.backup, store, logs⟩ s.machine = outcome at calls ⊢
  exact ⟨h.removed, List.Subset.trans calls (List.cons_subset.2 ⟨own, h.calls⟩)⟩

theorem Noted.settle {w : World} (h : Noted targets before w) (refused : Option IoFault)
    (log : PruneLog) {store : String} {r : Record} (hr : (store, r) ∈ targets) (path : String)
    (o : Except Fault Unit) :
    Noted targets before { w with shared := w.shared.settle refused log r path o } := by
  refine ⟨?_, h.jobs⟩
  cases o with
  | error f => exact ⟨h.site.removed, h.site.calls⟩
  | ok =>
    have own : r ∈ targets.map Prod.snd := List.mem_map.2 ⟨(store, r), hr, rfl⟩
    exact ⟨List.append_subset.2 ⟨h.site.removed, by simpa using own⟩, h.site.calls⟩

theorem Noted.spawn {w : World} (h : Noted targets before w) (id : ActionId) (runner : Runner)
    (logs : String) {store : String} {r : Record} (hr : (store, r) ∈ targets) :
    Noted targets before (w.spawn id (removalJob runner ⟨r.backup, store, logs⟩)) := by
  refine ⟨h.site, ?_⟩
  intro job hjob
  have jobs : job ∈ w.queue ∨ job = (id, removalJob runner ⟨r.backup, store, logs⟩) := by
    simpa [Pool.spawn] using hjob
  rcases jobs with hjob | rfl
  · exact h.jobs job hjob
  · intro s hs
    dsimp only
    exact hs.removalJob runner logs hr

theorem removalAction_keeps (p : Pass) (log : PruneLog) {store : String} {r : Record}
    (hr : (store, r) ∈ targets) :
    (p.removalAction log store r).Keeps (Noted targets before) := by
  unfold removalAction
  exact .mk (fun id w h => h.spawn id _ _ hr)
    fun id => .look fun _ w h => .put (h.settle _ log hr _ _) (.finish _)

/-- Only what was handed over is removed. -/
theorem removeAll_confined (p : Pass) (log : PruneLog) (targets : List (String × Record))
    (m : Machine) :
    (p.removeAll log targets m).2.world.shared.Confined targets m.calls := by
  have idle : Noted targets m.calls { Pool.idle (.start m) with pace := p.pace } :=
    ⟨⟨List.nil_subset _, List.subset_append_left _ _⟩,
      fun job hjob => absurd hjob List.not_mem_nil⟩
  unfold removeAll Schedule.runAll
  generalize hs : Schedule.ofActions _ _ = s
  generalize Schedule.fuelFor _ = fuel
  dsimp only
  have ready : Noted targets m.calls s.world ∧
      ∀ e ∈ s.entries, e.action.Keeps (Noted targets m.calls) := by
    rw [← hs]
    refine Schedule.ofActions_induction (P := fun t => Noted _ _ t.world ∧
      ∀ e ∈ t.entries, e.action.Keeps (Noted _ _)) ⟨idle, by simp [Schedule.empty]⟩ ?_
    rintro t action ha ⟨world, entries⟩
    refine ⟨world, ?_⟩
    intro e he
    rcases List.mem_append.1 he with he | he
    · exact entries e he
    · obtain ⟨⟨store, r⟩, htarget, rfl⟩ := List.mem_map.1 ha
      rw [List.mem_singleton.1 he]
      exact p.removalAction_keeps log htarget
  rcases hr : Schedule.run Pool.loop fuel s with _ | ⟨o, t⟩
  · exact ready.1.site
  · exact (Schedule.run_keeps loop_keeps_noted ready.1 ready.2 hr).site

end Pass

end BackupRetention
