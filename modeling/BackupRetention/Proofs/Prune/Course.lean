import BackupRetention.Proofs.Schedule.Accounts
import BackupRetention.Proofs.Schedule.Admission
import BackupRetention.Prune.Pass
import Mathlib.Data.List.Perm.Subperm

/-!
# The course of a pass

Whatever the order in which workers come to an end, the removals of a pass are all tried, each
once, on each device in the order in which they were handed over, and each is noted once with
what came of it. Then the schedule is empty.

## Main definitions

* `Pass.Course`: how a site comes about by tries and notes.
* `Pass.tried`: what was tried, by the results of the workers.
* `Pass.Books`: what holds of the schedule between two steps.

## Main results

* `Pass.removeAll_course`: how the removals of a pass go.
-/

namespace BackupRetention

namespace Pass

open Schedule

/-- What is removed, and from which store. -/
abbrev Target := String × Record

abbrev Outcome := Except Fault Unit

def removal (p : Pass) (t : Target) : Removal := ⟨t.2.backup, t.1, p.config.logs⟩

section RemovalJob

variable (runner : Runner) (x : Removal) (s : Site)

@[simp] theorem machine_removalJob :
    (removalJob runner x s).2.machine = (x.run runner s.machine).2 := by
  unfold removalJob
  generalize x.run runner s.machine = result
  rfl

@[simp] theorem outcome_removalJob :
    (removalJob runner x s).1 = (x.run runner s.machine).1 := by
  unfold removalJob
  generalize x.run runner s.machine = result
  rfl

@[simp] theorem removed_removalJob : (removalJob runner x s).2.removed = s.removed := by
  unfold removalJob
  generalize x.run runner s.machine = result
  rfl

@[simp] theorem failed_removalJob : (removalJob runner x s).2.failed = s.failed := by
  unfold removalJob
  generalize x.run runner s.machine = result
  rfl

@[simp] theorem unwritten_removalJob :
    (removalJob runner x s).2.unwritten = s.unwritten := by
  unfold removalJob
  generalize x.run runner s.machine = result
  rfl

end RemovalJob

/-- How a site comes about: removals are tried, and what came of them is noted. -/
inductive Course (p : Pass) (log : PruneLog) (m : Machine) :
    List (Target × Outcome) → List (Target × Outcome) → Site → Prop where
  | start : Course p log m [] [] (.start m)
  | attempt (t : Target) {tries notes : List (Target × Outcome)} {s : Site}
      (before : Course p log m tries notes s) :
      Course p log m (tries ++ [(t, (removalJob p.runner (p.removal t) s).1)]) notes
        (removalJob p.runner (p.removal t) s).2
  | note {t : Target} {o : Outcome} {tries notes : List (Target × Outcome)} {s : Site}
      (known : (t, o) ∈ tries) (before : Course p log m tries notes s) :
      Course p log m tries (notes ++ [(t, o)])
        (s.settle (p.refused? s) log t.2 (p.removal t).dataPath o)

/-! ## Numbers and targets -/

/-- The target of an action. -/
def target? (targets : List Target) (id : ActionId) : Option Target := targets[id.val]?

/-- The device of an action. -/
def device? (targets : List Target) (id : ActionId) : Option String :=
  (target? targets id).map fun t => t.2.device

/-- Whether the action has to do with `d`. -/
def on (targets : List Target) (d : Option String) (id : ActionId) : Bool :=
  device? targets id = d

/-- The numbers of all actions of a pass. -/
def numbers (targets : List Target) : List ActionId :=
  (List.range targets.length).map ActionId.mk

/-- What came of which target. -/
def explain (targets : List Target) (rs : List (ActionId × Outcome)) : List (Target × Outcome) :=
  rs.filterMap fun r => (target? targets r.1).map (·, r.2)

/-- What the workers have tried so far, in order. -/
def tried (targets : List Target) (w : World) : List (Target × Outcome) :=
  explain targets w.results

theorem nodup_numbers (targets : List Target) : (numbers targets).Nodup :=
  List.nodup_range.map fun _ _ h => congrArg ActionId.val h

/-- Every target has a number. -/
theorem filterMap_numbers (targets : List Target) :
    (numbers targets).filterMap (target? targets) = targets := by
  have each : (List.range targets.length).map (fun n => targets[n]?) = targets.map some :=
    List.ext_getElem (by simp) (by simp)
  have all : (numbers targets).filterMap (target? targets) =
      ((List.range targets.length).map fun n => targets[n]?).filterMap id := by
    simp [numbers, target?, List.filterMap_map, Function.comp_def]
  rw [all, each]
  simp

/-- Lists whose parts agree have the same members. -/
theorem perm_of_filter_eq {α β : Type} [DecidableEq α] [DecidableEq β] {f : α → β} {l k : List α}
    (h : ∀ b, l.filter (fun a => decide (f a = b)) = k.filter fun a => decide (f a = b)) :
    l.Perm k := by
  refine List.perm_iff_count.2 fun a => ?_
  have := congrArg (List.count a) (h (f a))
  rwa [List.count_filter (by simp), List.count_filter (by simp)] at this

theorem explain_append (targets : List Target) (rs qs : List (ActionId × Outcome)) :
    explain targets (rs ++ qs) = explain targets rs ++ explain targets qs :=
  List.filterMap_append ..

theorem explain_single {targets : List Target} {id : ActionId} {t : Target} (o : Outcome)
    (h : target? targets id = some t) : explain targets [(id, o)] = [(t, o)] := by
  simp [explain, h]

theorem map_explain (targets : List Target) (rs : List (ActionId × Outcome)) :
    (explain targets rs).map Prod.fst = (rs.map Prod.fst).filterMap (target? targets) := by
  simp [explain, List.map_filterMap, List.filterMap_map, Function.comp_def, Option.map_map]

/-- What is tried on one device, by the numbers of the actions that have to do with it. -/
theorem filter_filterMap (targets : List Target) (d : String) (ids : List ActionId) :
    (ids.filterMap (target? targets)).filter (fun t => decide (t.2.device = d)) =
      (ids.filter (on targets (some d))).filterMap (target? targets) := by
  induction ids with
  | nil => rfl
  | cons id ids ih =>
    cases h : target? targets id with
    | none => simp [h, on, device?, ih]
    | some t =>
      by_cases ht : t.2.device = d <;> simp [h, on, device?, ih, ht]

/-! ## Books -/

section Books

variable (p : Pass) (log : PruneLog) (targets : List Target) (m : Machine)

/-- What holds between two steps, if these actions are running and these are idle. `batch` is what
has been delivered and not handled yet, and `notes` is what has been noted. -/
structure Books (batch : List ActionId) (notes : List (ActionId × Outcome))
    (running idle : List ActionId) (w : World) : Prop where
  jobs : ∀ job ∈ w.queue, ∃ t, target? targets job.1 = some t ∧
    job.2 = removalJob p.runner (p.removal t)
  /-- One action at a time runs on each device. -/
  apart : ∀ d, ∀ a ∈ running, ∀ b ∈ running, on targets d a = true → on targets d b = true → a = b
  /-- What runs is in work, or it is done and has not been handled. -/
  balanced : running.Perm (w.queue.map Prod.fst ++ (batch ++ w.reported))
  /-- On each device what is done, what is in work and what is idle stand in this order. -/
  order : ∀ d, (w.results.map Prod.fst ++ (w.queue.map Prod.fst ++ idle)).filter (on targets d) =
    (numbers targets).filter (on targets d)
  /-- What is done has been noted or will be handled. -/
  noted : (notes.map Prod.fst ++ (batch ++ w.reported)).Perm (w.results.map Prod.fst)
  kept : notes ⊆ w.results
  course : Course p log m (tried targets w) (explain targets notes) w.shared

variable {p log targets m}

namespace Books

variable {batch : List ActionId} {notes : List (ActionId × Outcome)}
  {running idle : List ActionId} {w : World}

/-- Every action is done, in work or idle. -/
theorem perm (h : Books p log targets m batch notes running idle w) :
    (w.results.map Prod.fst ++ (w.queue.map Prod.fst ++ idle)).Perm (numbers targets) :=
  perm_of_filter_eq h.order

theorem nodup (h : Books p log targets m batch notes running idle w) :
    (w.results.map Prod.fst ++ (w.queue.map Prod.fst ++ idle)).Nodup :=
  h.perm.nodup_iff.2 (nodup_numbers targets)

theorem nodup_results (h : Books p log targets m batch notes running idle w) :
    (w.results.map Prod.fst).Nodup :=
  (List.nodup_append.1 h.nodup).1

theorem nodup_queue (h : Books p log targets m batch notes running idle w) :
    (w.queue.map Prod.fst).Nodup :=
  (List.nodup_append.1 (List.nodup_append.1 h.nodup).2.1).1

/-- On the device of something in work nothing else is in work. -/
theorem filter_queue (h : Books p log targets m batch notes running idle w)
    {before after : List ActionId} {id : ActionId}
    (queue : w.queue.map Prod.fst = before ++ id :: after) {d : Option String}
    (hd : on targets d id = true) :
    before.filter (on targets d) = [] ∧ after.filter (on targets d) = [] := by
  have nodup := h.nodup_queue
  have inWork {a : ActionId} (ha : a ∈ before ++ id :: after) : a ∈ running :=
    h.balanced.mem_iff.2 (List.mem_append_left _ (queue ▸ ha))
  have other {a : ActionId} (ha : a ∈ before ++ id :: after) (hne : a ≠ id) :
      ¬ on targets d a = true := fun hon =>
    hne (h.apart d a (inWork ha) id (inWork (by simp)) hon hd)
  rw [queue] at nodup
  obtain ⟨-, behind, across⟩ := List.nodup_append.1 nodup
  refine ⟨List.filter_eq_nil_iff.2 fun a ha => ?_, List.filter_eq_nil_iff.2 fun a ha => ?_⟩
  · exact other (by simp [ha]) (across a ha id List.mem_cons_self)
  · refine other (by simp [ha]) ?_
    rintro rfl
    exact (List.nodup_cons.1 behind).1 ha

/-- A job is done. -/
theorem step (h : Books p log targets m batch notes running idle w) (n : Nat) :
    Books p log targets m batch notes running idle (w.step n) := by
  unfold Pool.step
  split
  · exact h
  · next id work here =>
    obtain ⟨hn, hjob⟩ := List.getElem?_eq_some_iff.1 here
    have queue : w.queue = w.queue.take n ++ (id, work) :: w.queue.drop (n + 1) := by
      rw [← hjob, ← List.drop_eq_getElem_cons hn, List.take_append_drop]
    have erased : w.queue.eraseIdx n = w.queue.take n ++ w.queue.drop (n + 1) :=
      List.eraseIdx_eq_take_drop_succ ..
    generalize w.queue.take n = before at queue erased
    generalize w.queue.drop (n + 1) = after at queue erased
    obtain ⟨t, ht, rfl⟩ := h.jobs (id, work) (by simp [queue])
    have names : w.queue.map Prod.fst = before.map Prod.fst ++ id :: after.map Prod.fst := by
      simp [queue]
    have course := h.course.attempt t
    generalize removalJob p.runner (p.removal t) w.shared = result at course ⊢
    obtain ⟨o, site⟩ := result
    refine ⟨?_, h.apart, ?_, ?_, ?_, ?_, ?_⟩
    · intro job hjob
      exact h.jobs job (List.mem_of_mem_eraseIdx hjob)
    · refine h.balanced.trans ?_
      rw [names, erased, List.map_append, List.append_assoc, List.append_assoc]
      refine List.Perm.append_left _ ?_
      rw [← List.append_assoc batch, ← List.append_assoc (after.map Prod.fst)]
      exact (List.perm_append_singleton _ _).symm
    · intro d
      rw [← h.order d, names, erased]
      by_cases hd : on targets d id = true
      · obtain ⟨front, back⟩ := h.filter_queue names hd
        simp [List.filter_append, hd, front, back]
      · simp [List.filter_append, hd]
    · rw [List.map_append, ← List.append_assoc batch, ← List.append_assoc (notes.map _)]
      exact h.noted.append_right _
    · exact List.subset_append_of_subset_left _ h.kept
    · rw [tried, explain_append, explain_single o ht]
      exact course

theorem steps (h : Books p log targets m batch notes running idle w) (ns : List Nat) :
    Books p log targets m batch notes running idle (w.steps ns) := by
  induction ns generalizing w with
  | nil => exact h
  | cons n ns ih => exact ih (h.step n)

theorem proceed (h : Books p log targets m batch notes running idle w) :
    Books p log targets m batch notes running idle w.proceed := by
  unfold Pool.proceed
  split
  · exact h
  · next ns rest _ =>
    have later : Books p log targets m batch notes running idle { w with pace := rest } :=
      ⟨h.jobs, h.apart, h.balanced, h.order, h.noted, h.kept, h.course⟩
    exact later.steps ns

/-- While something runs, a wait brings what has been done. -/
theorem wait (h : Books p log targets m [] notes running idle w) (some : running ≠ []) :
    ∃ ids v, w.wait = (.ok ids, v) ∧ ids ≠ [] ∧ v.reported = [] ∧
      Books p log targets m ids notes running idle v := by
  have fetched (v : World) (hv : Books p log targets m [] notes running idle v) :
      Books p log targets m v.reported notes running idle { v with reported := [] } :=
    ⟨hv.jobs, hv.apart, by simpa using hv.balanced, hv.order, by simpa using hv.noted, hv.kept,
      hv.course⟩
  have proceeded := h.proceed
  unfold Pool.wait
  generalize w.proceed = v at proceeded
  by_cases quiet : v.reported = []
  · have inWork : v.queue ≠ [] := by
      intro none
      have balanced := proceeded.balanced
      rw [none, quiet] at balanced
      exact some balanced.eq_nil
    obtain ⟨⟨id, work⟩, rest, queue⟩ := List.exists_cons_of_ne_nil inWork
    have reported : (v.step 0).reported = [id] := by simp [Pool.step, queue, quiet]
    refine ⟨[id], _, ?_, by simp, ?_, reported ▸ fetched _ (proceeded.step 0)⟩
    · simp [quiet, reported]
    · rfl
  · exact ⟨v.reported, _, by simp [quiet], quiet, rfl, fetched v proceeded⟩

/-- An idle action is started, none before it in the queue having to do with its device. -/
theorem start (h : Books p log targets m batch notes running idle w) {id : ActionId} {t : Target}
    (ht : target? targets id = some t) {before after more : List ActionId}
    (queued : idle = before ++ id :: after)
    (free : ∀ a ∈ running, ¬ on targets (device? targets id) a = true)
    (first : ∀ a ∈ before, ¬ on targets (device? targets id) a = true)
    (grown : more.Perm (running ++ [id])) :
    Books p log targets m batch notes more (before ++ after)
      (w.spawn id (removalJob p.runner (p.removal t))) where
  jobs := by
    intro job hjob
    rcases List.mem_append.1 hjob with hjob | hjob
    · exact h.jobs job hjob
    · rw [List.mem_singleton.1 hjob]
      exact ⟨t, ht, rfl⟩
  apart := by
    intro d a ha b hb hda hdb
    have device {a : ActionId} (hda : on targets d a = true) : device? targets a = d := by
      simpa [on] using hda
    have cases {a : ActionId} (ha : a ∈ more) : a ∈ running ∨ a = id := by
      simpa using grown.mem_iff.1 ha
    rcases cases ha with ha | rfl <;> rcases cases hb with hb | rfl
    · exact h.apart d a ha b hb hda hdb
    · exact absurd (device hdb ▸ hda) (free a ha)
    · exact absurd (device hda ▸ hdb) (free b hb)
    · rfl
  balanced := by
    refine grown.trans ?_
    have spawned : (w.spawn id (removalJob p.runner (p.removal t))).queue.map Prod.fst =
        w.queue.map Prod.fst ++ [id] := by simp [Pool.spawn]
    rw [spawned, List.append_assoc]
    refine (h.balanced.append_right [id]).trans ?_
    rw [List.append_assoc]
    exact List.Perm.append_left _ (List.perm_append_comm)
  order := by
    intro d
    rw [← h.order d, queued]
    by_cases hd : on targets d id = true
    · have none : before.filter (on targets d) = [] := by
        refine List.filter_eq_nil_iff.2 fun a ha hon => first a ha ?_
        have same : device? targets id = d := by simpa [on] using hd
        rwa [same]
      simp [Pool.spawn, List.filter_append, hd, none]
    · simp [Pool.spawn, List.filter_append, hd]
  noted := h.noted
  kept := h.kept
  course := h.course

/-- What has been delivered has a result. -/
theorem result {id : ActionId} (h : Books p log targets m (id :: batch) notes running idle w) :
    ∃ o, w.result? id = some o ∧ (id, o) ∈ w.results := by
  have done : id ∈ w.results.map Prod.fst :=
    h.noted.mem_iff.1 (List.mem_append_right _ (by simp))
  obtain ⟨⟨_, o⟩, hmem, rfl⟩ := List.mem_map.1 done
  refine ⟨o, ?_, hmem⟩
  obtain ⟨before, after, split⟩ := List.append_of_mem hmem
  have nodup := h.nodup_results
  rw [split, List.map_append, List.map_cons] at nodup
  have across := (List.nodup_append.1 nodup).2.2
  rw [Pool.result?, List.lookup_eq_some_iff]
  refine ⟨before, after, split, fun r hr => ?_⟩
  simpa using (across r.1 (List.mem_map_of_mem hr) _ List.mem_cons_self).symm

/-- A delivered completion is handled: the action leaves, and what came of it is noted. -/
theorem settle {id : ActionId} (h : Books p log targets m (id :: batch) notes running idle w)
    {t : Target} (ht : target? targets id = some t) {o : Outcome} (ho : (id, o) ∈ w.results)
    {fewer : List ActionId} (shrunk : running.Perm (id :: fewer)) :
    Books p log targets m batch (notes ++ [(id, o)]) fewer idle
      { w with
        shared := w.shared.settle (p.refused? w.shared) log t.2 (p.removal t).dataPath o } where
  jobs := h.jobs
  apart := fun d a ha b hb => h.apart d a (shrunk.mem_iff.2 (List.mem_cons_of_mem _ ha)) b
    (shrunk.mem_iff.2 (List.mem_cons_of_mem _ hb))
  balanced := by
    have balanced := shrunk.symm.trans h.balanced
    exact (balanced.trans List.perm_middle).cons_inv
  order := h.order
  noted := by
    have moved : (notes ++ [(id, o)]).map Prod.fst ++ (batch ++ w.reported) =
        notes.map Prod.fst ++ (id :: batch ++ w.reported) := by simp
    rw [moved]
    exact h.noted
  kept := List.append_subset.2 ⟨h.kept, by simpa using ho⟩
  course := by
    rw [explain_append, explain_single o ht]
    exact h.course.note (List.mem_filterMap.2 ⟨(id, o), ho, by simp [ht]⟩)

end Books

end Books

/-! ## Schedules -/

/-- The numbers of the actions that have not been started. -/
def idleIds (s : Schedule World) : List ActionId :=
  (s.entries.filter fun e => !e.running).map Entry.id

section Ready

variable (p : Pass) (log : PruneLog) (targets : List Target) (m : Machine)

/-- The books of a schedule are kept, and every action removes the target of its number. -/
structure Ready (batch : List ActionId) (notes : List (ActionId × Outcome)) (s : Schedule World) :
    Prop where
  numbered : Numbered s
  exclusive : s.view.Exclusive
  known : ∀ e ∈ s.entries, ∃ t, target? targets e.id = some t ∧
    e.action = p.removalAction log t.1 t.2
  books : Books p log targets m batch notes s.runningIds (idleIds s) s.world

variable {p log targets m} {batch : List ActionId} {notes : List (ActionId × Outcome)}
  {s t : Schedule World}

namespace Ready

/-- An action holds its device. -/
theorem label_of_on (h : Ready p log targets m batch notes s) {e f : Entry World}
    (he : e ∈ s.entries) (hf : f ∈ s.entries)
    (hon : on targets (device? targets e.id) f.id = true) : f.labels = e.labels := by
  obtain ⟨t, ht, hact⟩ := h.known e he
  obtain ⟨u, hu, hact'⟩ := h.known f hf
  have same : u.2.device = t.2.device := by simpa [on, device?, ht, hu] using hon
  simp [Entry.labels, hact, hact', removalAction, same]

theorem begun (h : Ready p log targets m batch notes s) {earlier later : List (Entry World)}
    {e : Entry World} (queue : s.entries = earlier ++ e :: later) (eligible : Eligible s.held e)
    (first : ∀ x ∈ earlier, ¬ Eligible s.held x) :
    (e.action.start e.id s.world).1 = .ok () ∧
      Ready p log targets m batch notes (s.begun earlier e later) := by
  have he : e ∈ s.entries := by simp [queue]
  obtain ⟨t, ht, hact⟩ := h.known e he
  have world : e.action.start e.id s.world =
      (.ok (), s.world.spawn e.id (removalJob p.runner (p.removal t))) := by rw [hact]; rfl
  obtain ⟨idle, free⟩ := eligible
  refine ⟨by rw [world], ?_, exclusive_begun h.exclusive queue ⟨idle, free⟩, ?_, ?_⟩
  · have move : Move Pool.loop s (s.begun earlier e later) :=
      .start earlier e later queue ⟨idle, free⟩ first
    exact h.numbered.move move
  · intro x hx
    have members : x ∈ earlier ∨ x = { e with running := true } ∨ x ∈ later := by
      simpa [Schedule.begun, note] using hx
    rcases members with hx | rfl | hx
    · exact h.known x (by simp [queue, hx])
    · exact ⟨t, ht, hact⟩
    · exact h.known x (by simp [queue, hx])
  · have held := ((exclusive_view_iff s).1 h.exclusive).1
    have queued : idleIds s = (earlier.filter fun e => !e.running).map Entry.id ++
        e.id :: (later.filter fun e => !e.running).map Entry.id := by
      simp [idleIds, queue, idle]
    have left : idleIds (s.begun earlier e later) =
        (earlier.filter fun e => !e.running).map Entry.id ++
          (later.filter fun e => !e.running).map Entry.id := by
      simp [idleIds, Schedule.begun, note]
    have grown : (s.begun earlier e later).runningIds.Perm (s.runningIds ++ [e.id]) := by
      simp only [runningIds, Schedule.begun, note, queue, idle, List.filter_append,
        List.filter_cons, if_true, if_false, Bool.false_eq_true, List.map_append, List.map_cons,
        List.append_assoc]
      exact List.Perm.append_left _ (List.perm_append_singleton _ _).symm
    have spawned : (s.begun earlier e later).world =
        s.world.spawn e.id (removalJob p.runner (p.removal t)) := by
      simp only [Schedule.begun, world]
    rw [left, spawned]
    refine h.books.start ht queued ?_ ?_ grown
    · intro a ha hon
      obtain ⟨f, hf, rfl⟩ := List.mem_map.1 ha
      obtain ⟨hf, running⟩ := List.mem_filter.1 hf
      have labels := h.label_of_on he hf hon
      obtain ⟨x, hx⟩ : ∃ x, x ∈ e.labels := by simp [Entry.labels, hact, removalAction]
      exact free x hx ((held x).2 ⟨f, hf, running, labels ▸ hx⟩)
    · intro a ha hon
      obtain ⟨f, hf, rfl⟩ := List.mem_map.1 ha
      obtain ⟨hf, notRunning⟩ := List.mem_filter.1 hf
      have labels := h.label_of_on he (by simp [queue, hf]) hon
      refine first f hf ⟨by simpa using notRunning, ?_⟩
      rw [labels]
      exact free

/-- Admission starts actions and nothing else. -/
theorem startFrom (h : Ready p log targets m batch notes s) {earlier later : List (Entry World)}
    (queue : s.entries = earlier ++ later) (first : ∀ x ∈ earlier, ¬ Eligible s.held x) :
    ∃ t, Schedule.startFrom earlier s later = (.ok (), t) ∧ Ready p log targets m batch notes t ∧
      t.entries.length = s.entries.length := by
  induction later generalizing earlier s with
  | nil =>
    rw [List.append_nil] at queue
    exact ⟨s, by rw [Schedule.startFrom, ← queue], h, rfl⟩
  | cons e later ih =>
    by_cases eligible : Eligible s.held e
    · obtain ⟨started, ready⟩ := h.begun queue eligible first
      have passed : ∀ x ∈ earlier ++ [{ e with running := true }],
          ¬ Eligible (s.begun earlier e later).held x := by
        intro x hx
        rcases List.mem_append.1 hx with hx | hx
        · exact not_eligible_claim (first x hx)
        · rw [List.mem_singleton.1 hx]
          simp [Eligible]
      obtain ⟨t, ht, hready, length⟩ := ih ready (by simp [Schedule.begun, note]) passed
      refine ⟨t, ?_, hready, ?_⟩
      · rw [startFrom_of_eligible eligible, started, ht]
      · rw [length, queue]
        simp [Schedule.begun, note]
    · have passed : ∀ x ∈ earlier ++ [e], ¬ Eligible s.held x := by
        intro x hx
        rcases List.mem_append.1 hx with hx | hx
        · exact first x hx
        · rwa [List.mem_singleton.1 hx]
      rw [Schedule.startFrom, if_neg eligible]
      exact ih h (by simp [queue]) passed

theorem startEligible (h : Ready p log targets m batch notes s) :
    ∃ t, s.startEligible = (.ok (), t) ∧ Ready p log targets m batch notes t ∧
      t.entries.length = s.entries.length :=
  h.startFrom rfl (by simp)

/-- The hook of a removal notes its result. -/
theorem follow_removalAction {t : Target} {action : Action World}
    (hact : action = p.removalAction log t.1 t.2) {id : ActionId} (n : Nat)
    {s : Schedule World} {o : Outcome} (ho : s.world.result? id = some o) :
    follow Pool.loop (n + 3) (action.hook id) s =
      some (.ok (), { s with world := { s.world with
        shared := s.world.shared.settle (p.refused? s.world.shared) log t.2
          (p.removal t).dataPath o } }) := by
  subst hact
  simp only [removalAction, Action.hook_mk, follow, Hook.nothing, ho, Option.getD_some, removal]

/-- A completion is handled in a few steps. -/
theorem completed {id : ActionId} (h : Ready p log targets m (id :: batch) notes s) (n : Nat) :
    ∃ o t, Schedule.completed Pool.loop (n + 4) id s = some (.ok (), t) ∧
      Ready p log targets m batch (notes ++ [(id, o)]) t ∧
      t.entries.length + 1 = s.entries.length := by
  obtain ⟨o, result, ho⟩ := h.books.result
  have runs : s.isRunning id = true :=
    mem_runningIds.1 (h.books.balanced.mem_iff.2 (by simp))
  cases release : s.release? id with
  | none =>
    rw [release?_eq_none_iff.1 release] at runs
    cases runs
  | some released =>
    obtain ⟨e, u⟩ := released
    obtain ⟨l₁, l₂, queue, rfl, running, hu⟩ := release?_eq_some release
    obtain ⟨t, ht, hact⟩ := h.known e (by simp [queue])
    have shrunk : s.runningIds.Perm (e.id :: u.runningIds) := by
      simp only [runningIds, queue, hu, List.filter_append, List.filter_cons, running,
        if_true, List.map_append, List.map_cons]
      exact List.perm_middle
    have idle : idleIds u = idleIds s := by
      simp [idleIds, queue, hu, running]
    have noted : (u.note (.finished e.id e.action.name)).world = s.world := by rw [hu]; rfl
    let v : Schedule World := { u.note (.finished e.id e.action.name) with
      world := { s.world with
        shared := s.world.shared.settle (p.refused? s.world.shared) log t.2
          (p.removal t).dataPath o } }
    have ready : Ready p log targets m batch (notes ++ [(e.id, o)]) v := by
      have move : Move Pool.loop s (u.note (.finished e.id e.action.name)) :=
        .finish u e.id e release
      have left := h.numbered.move move
      have apart := exclusive_release h.exclusive release
      refine ⟨⟨left.ordered, left.given⟩, apart, ?_, ?_⟩
      · intro x hx
        have member : x ∈ l₁ ++ l₂ := by simpa [v, note, hu] using hx
        refine h.known x ?_
        rw [queue]
        simp only [List.mem_append, List.mem_cons] at member ⊢
        exact member.imp_right .inr
      · have settled := h.books.settle ht ho shrunk
        rwa [← idle] at settled
    obtain ⟨z, started, readyAfter, length⟩ := ready.startEligible
    refine ⟨o, z, ?_, readyAfter, ?_⟩
    · have followed : follow Pool.loop (n + 3) (e.action.hook e.id)
          (u.note (.finished e.id e.action.name)) = some (.ok (), v) := by
        rw [follow_removalAction hact n (noted.symm ▸ result), noted]
      rw [Schedule.completed]
      simp only [release, followed, started]
    · rw [length, queue]
      simp [v, note, hu]
      omega

/-- A batch is handled completion by completion. -/
theorem handleAll (h : Ready p log targets m batch notes s) (n : Nat) :
    ∃ notes t, Schedule.handleAll Pool.loop (n + batch.length + 4) batch s = some (.ok (), t) ∧
      Ready p log targets m [] notes t ∧ t.entries.length + batch.length = s.entries.length := by
  induction batch generalizing notes s with
  | nil => exact ⟨notes, s, rfl, h, rfl⟩
  | cons id batch ih =>
    obtain ⟨o, t, completed, ready, length⟩ := h.completed (n + batch.length)
    obtain ⟨notes, z, handled, readyAfter, length'⟩ := ih ready
    refine ⟨notes, z, ?_, readyAfter, by simp only [List.length_cons]; omega⟩
    have fuel : n + (id :: batch).length + 4 = n + batch.length + 4 + 1 := by
      simp only [List.length_cons]
      omega
    rw [fuel, Schedule.handleAll, completed]
    exact handled

/-- While anything is queued something runs. -/
theorem await (h : Ready p log targets m [] notes s) {r : Schedule World}
    (admitted : r.startEligible = (.ok (), s)) (queued : s.entries ≠ []) :
    ∃ ids t, s.await Pool.loop = (.ok ids, t) ∧ ids ≠ [] ∧
      Ready p log targets m ids notes t ∧ t.entries = s.entries := by
  obtain ⟨e, he, running⟩ := (settled_of_startEligible admitted).exists_running h.exclusive queued
  have some : s.runningIds ≠ [] := by
    intro none
    have member : e.id ∈ s.runningIds := List.mem_map_of_mem (List.mem_filter.2 ⟨he, running⟩)
    rw [none] at member
    cases member
  obtain ⟨ids, w, waited, delivered, -, books⟩ := h.books.wait some
  refine ⟨ids, note (.delivered ids) { s with world := w }, ?_, delivered,
    ⟨⟨h.numbered.ordered, h.numbered.given⟩, h.exclusive, h.known, books⟩, rfl⟩
  rw [Schedule.await]
  have waits : Pool.loop.wait s.world = (.ok ids, w) := waited
  simp only [waits]

/-- A run comes to its end with nothing left. -/
theorem run (h : Ready p log targets m [] notes s) {n : Nat} (hn : s.entries.length + 5 ≤ n) :
    ∃ notes t, Schedule.run Pool.loop n s = some (.ok (), t) ∧
      Ready p log targets m [] notes t ∧ t.entries = [] := by
  -- Every batch holds at least one completion, and each takes an action out of the queue.
  induction size : s.entries.length using Nat.strongRecOn generalizing s notes n with
  | ind k ih => ?_
  obtain ⟨n, rfl⟩ : ∃ k, n = k + 1 := ⟨n - 1, by omega⟩
  obtain ⟨a, admitted, ready, length⟩ := h.startEligible
  by_cases queued : a.entries = []
  · refine ⟨notes, a, ?_, ready, queued⟩
    rw [Schedule.run, admitted]
    simp [Schedule.isEmpty, queued]
  · obtain ⟨ids, b, waited, delivered, readyWaited, entries⟩ := ready.await admitted queued
    have some : 0 < ids.length := List.length_pos_iff.2 delivered
    obtain ⟨notes', c, handled, readyHandled, fewer⟩ :=
      readyWaited.handleAll (n - ids.length - 4)
    rw [entries, length] at fewer
    have fuel : n - ids.length - 4 + ids.length + 4 = n := by omega
    rw [fuel] at handled
    obtain ⟨notes'', t, finished, readyLast, none⟩ :=
      ih c.entries.length (by omega) readyHandled (n := n) (by omega) rfl
    refine ⟨notes'', t, ?_, readyLast, none⟩
    rw [Schedule.run, admitted]
    simp only [Schedule.isEmpty, List.isEmpty_iff, queued, if_false, waited, handled]
    exact finished

end Ready

end Ready

section Whole

variable (p : Pass) (log : PruneLog) (targets : List Target) (m : Machine)

/-- The world before a pass has done anything. -/
def untouched : World := { Pool.idle (.start m) with pace := p.pace }

/-- The removals of a pass, before any has been started. -/
def queued : Schedule World :=
  ofActions (p.untouched m) (targets.map fun t => p.removalAction log t.1 t.2)

theorem entries_start : (p.queued log targets m).entries =
      targets.zipIdx.map (fun t => ⟨⟨t.2⟩, p.removalAction log t.1.1 t.1.2, false⟩) ∧
    (p.queued log targets m).world = p.untouched m := by
  obtain ⟨entries, -, world⟩ :=
    queued_ofActions (p.untouched m) (targets.map fun t => p.removalAction log t.1 t.2)
  refine ⟨?_, world⟩
  rw [queued, entries]
  simp [List.zipIdx_map, Function.comp_def]

theorem ready_queued : Ready p log targets m [] [] (p.queued log targets m) := by
  obtain ⟨entries, world⟩ := p.entries_start log targets m
  have guarded : Guarded (p.queued log targets m) :=
    (Guarded.empty _).moves (ofActions_moves Pool.loop _ _)
  have numbered := guarded.numbered
  have exclusive := guarded.exclusive
  generalize p.queued log targets m = s at *
  have resting : ∀ e ∈ s.entries, e.running = false := by
    intro e he
    obtain ⟨t, -, rfl⟩ := List.mem_map.1 (entries ▸ he)
    rfl
  have running : s.runningIds = [] := by
    rw [runningIds, List.filter_eq_nil_iff.2 fun e he => by simp [resting e he], List.map_nil]
  have idle : idleIds s = numbers targets := by
    rw [idleIds, List.filter_eq_self.2 fun e he => by simp [resting e he], entries, List.map_map,
      numbers, List.range_eq_range', ← List.zipIdx_map_snd 0 targets, List.map_map]
    rfl
  refine ⟨numbered, exclusive, ?_, ?_⟩
  · intro e he
    rw [entries] at he
    obtain ⟨⟨t, n⟩, hmem, rfl⟩ := List.mem_map.1 he
    exact ⟨t, List.mem_zipIdx_iff_getElem?.1 hmem, rfl⟩
  · rw [running, idle, world]
    exact {
      jobs := by simp [untouched, Pool.idle]
      apart := by simp
      balanced := by simp [untouched, Pool.idle]
      order := by simp [untouched, Pool.idle]
      noted := by simp [untouched, Pool.idle]
      kept := by simp
      course := .start }

/-- The removals of a pass come to their end: each is tried once, on each device in the order of
the targets, and what came of it is noted once. -/
theorem removeAll_course : (p.removeAll log targets m).1 = .ok () ∧
    (∃ notes, Course p log m (tried targets (p.removeAll log targets m).2.world) notes
        (p.removeAll log targets m).2.world.shared ∧
      notes.Perm (tried targets (p.removeAll log targets m).2.world)) ∧
    ∀ d, ((tried targets (p.removeAll log targets m).2.world).map Prod.fst).filter
        (fun t => decide (t.2.device = d)) = targets.filter fun t => decide (t.2.device = d) := by
  have ready := p.ready_queued log targets m
  have length : (p.queued log targets m).entries.length = targets.length := by
    simp [(p.entries_start log targets m).1]
  obtain ⟨notes, s, ran, readyAfter, none⟩ :=
    ready.run (n := fuelFor targets.length) (by rw [length, fuelFor]; omega)
  have whole : p.removeAll log targets m = (.ok (), s) := by
    have answer : p.removeAll log targets m =
        (Schedule.run Pool.loop (fuelFor (targets.map fun t => p.removalAction log t.1 t.2).length)
          (p.queued log targets m)).getD
        (.error (.io (.other "the schedule has come to no end")), p.queued log targets m) := rfl
    rw [answer, List.length_map, ran]
    rfl
  rw [whole]
  have books := readyAfter.books
  have drained : s.world.queue = [] ∧ s.world.reported = [] := by
    have balanced := books.balanced
    rw [runningIds, none] at balanced
    simpa using balanced.symm.eq_nil
  refine ⟨rfl, ⟨explain targets notes, books.course, ?_⟩, ?_⟩
  · -- Every note is of a result, and there are as many of either.
    have noted := books.noted
    rw [drained.2, List.append_nil, List.append_nil] at noted
    have distinct : notes.Nodup := (noted.nodup_iff.2 books.nodup_results).of_map
    have size : s.world.results.length ≤ notes.length := by
      simpa using Nat.le_of_eq noted.length_eq.symm
    exact ((List.subperm_of_subset distinct books.kept).perm_of_length_le size).filterMap _
  · intro d
    have order := books.order (some d)
    rw [drained.1, idleIds, none] at order
    rw [tried, map_explain, filter_filterMap, ← filterMap_numbers targets, filter_filterMap,
      filterMap_numbers, ← order]
    simp

end Whole

end Pass

end BackupRetention
