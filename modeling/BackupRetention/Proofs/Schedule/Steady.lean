import BackupRetention.Proofs.Schedule.Descent

/-!
# What a run keeps to on its way

If no start and no hook fails, hooks do no more than queue further actions, and waiting brings
the completion of every started action once, no step of a run goes astray, and each leaves
less to do.

## Main definitions

* `Execution.Smooth`: what is relied on at each moment.
* `Execution.Steady`: what a run keeps to.

## Main results

* `Execution.Steady.step`: one step of a run.
-/

namespace BackupRetention

variable {σ : Type}

/-- The next step of the hook is to end well, to look, to write, or to queue an action. -/
def Hook.onlyQueues : Hook σ → Bool
  | .finish (.ok ()) => true
  | .look _ => true
  | .put _ _ => true
  | .add _ _ => true
  | _ => false

namespace Execution

open Schedule

/-- What can be started is started next. -/
def admits (x : Execution σ) : Bool :=
  match x.phase with
  | .run => true
  | .follow (.finish (.ok ())) => true
  | _ => false

/-- The schedule waits next. -/
def waits (x : Execution σ) : Bool :=
  match x.phase with
  | .wait => true
  | _ => false

/-- The hook at hand, if any, does no more than it may. -/
def hookOnlyQueues (x : Execution σ) : Bool :=
  match x.phase with
  | .follow hook => hook.onlyQueues
  | _ => true

/-- What has been started and not been brought by a wait. -/
def outstanding (x : Execution σ) : List ActionId :=
  (Journal.started x.schedule.journal).filter (· ∉ Journal.delivered x.schedule.journal)

@[simp] theorem mem_outstanding {x : Execution σ} {id : ActionId} : id ∈ x.outstanding ↔
    id ∈ Journal.started x.schedule.journal ∧ id ∉ Journal.delivered x.schedule.journal := by
  simp [outstanding]

/-- A wait has succeeded, with some of the outstanding completions, each once. -/
def Brings (x : Execution σ) : Except Fault (List ActionId) → Prop
  | .error _ => False
  | .ok ids => ids ≠ [] ∧ ids.Nodup ∧ ids ⊆ x.outstanding

instance (x : Execution σ) : ∀ o, Decidable (x.Brings o)
  | .error _ => isFalse id
  | .ok _ => inferInstanceAs (Decidable (_ ∧ _ ∧ _))

/-- What is relied on at a moment. A wait is only relied on while something is outstanding. -/
structure Smooth (loop : EventLoop σ) (x : Execution σ) : Prop where
  starts : x.admits = true → x.schedule.startEligible.1.isOk = true
  hooks : x.hookOnlyQueues = true
  brings : x.waits = true → x.outstanding ≠ [] → x.Brings (loop.wait x.schedule.world).1

instance (loop : EventLoop σ) (x : Execution σ) : Decidable (x.Smooth loop) :=
  decidable_of_iff (_ ∧ _ ∧ _)
    ⟨fun ⟨starts, hooks, brings⟩ => ⟨starts, hooks, brings⟩,
      fun ⟨starts, hooks, brings⟩ => ⟨starts, hooks, brings⟩⟩

/-- Where a run that no hook has called is, phase by phase. -/
def Placed (x : Execution σ) : Prop :=
  match x.phase with
  | .idle => x.callers = [] ∧ x.schedule.entries = []
  | .run => x.callers = []
  | .wait => x.callers = [] ∧ ∃ e ∈ x.schedule.entries, e.running = true
  | .handle _ => x.callers = []
  | .complete _ => ∃ ids, x.callers = [.batch ids]
  | .follow _ => ∃ ids, x.callers = [.batch ids]
  | .completed o => o = .ok () ∧ ∃ ids, x.callers = [.batch ids]
  | .ended o => o = .ok () ∧ x.callers = [] ∧ x.schedule.entries = []

/-- What a run keeps to on its way. What a wait has brought is released or still to be
handled. -/
structure Steady (x : Execution σ) : Prop where
  placed : x.Placed
  last : x.calls = []
  guarded : Guarded x.schedule
  balanced : Balanced x.schedule
  brought : (Journal.delivered x.schedule.journal).Perm
    (Journal.finished x.schedule.journal ++ x.pending)
  once : (Journal.delivered x.schedule.journal).Nodup
  honest : ∀ id ∈ Journal.delivered x.schedule.journal, id ∈ Journal.started x.schedule.journal

section Steps

variable {loop : EventLoop σ} {x : Execution σ}

/-- A step that brings nothing. -/
theorem Steady.of_quiet (h : Steady x) (placed : (x.step loop).Placed)
    (last : (x.step loop).calls = x.calls)
    (same : Journal.delivered (x.step loop).schedule.journal =
      Journal.delivered x.schedule.journal)
    (brought : (Journal.finished x.schedule.journal ++ x.pending).Perm
      (Journal.finished (x.step loop).schedule.journal ++ (x.step loop).pending)) :
    Steady (x.step loop) where
  placed := placed
  last := last.trans h.last
  guarded := h.guarded.moves (step_moves loop x)
  balanced := h.balanced.moves (step_moves loop x)
  brought := same ▸ h.brought.trans brought
  once := same ▸ h.once
  honest := by
    intro id hid
    have started := h.honest id (same ▸ hid)
    exact Journal.started_of_suffix (step_moves loop x).journal_suffix started

theorem isOk_iff {o : Except Fault Unit} : o.isOk = true ↔ o = .ok () := by
  cases o <;> simp [Except.isOk, Except.toBool]

theorem Steady.run_step (h : Steady x) (smooth : x.Smooth loop) (hx : x.phase = .run) :
    Steady (x.step loop) ∧ Below (x.step loop) x := by
  obtain ⟨phase, k, s, cs⟩ := x
  obtain rfl : phase = .run := hx
  obtain rfl : k = [] := h.placed
  have started : s.startEligible = (.ok (), s.startEligible.2) :=
    Prod.ext (isOk_iff.1 (smooth.starts rfl)) rfl
  generalize ht : s.startEligible.2 = t at started
  have exclusive : t.view.Exclusive :=
    (h.guarded.moves (ht ▸ startEligible_moves loop s)).exclusive
  have delivered : Journal.delivered t.journal = Journal.delivered s.journal := by simp [← ht]
  have finished : Journal.finished t.journal = Journal.finished s.journal := by simp [← ht]
  have actions : t.actions = s.actions := by simp [← ht]
  have hstep : step loop ⟨.run, [], s, cs⟩ = ⟨afterStart t (.ok ()), [], t, cs⟩ :=
    step_run started
  by_cases queued : t.entries = []
  · have returns : afterStart t (.ok ()) = .ended (.ok ()) := by simp [afterStart, isEmpty, queued]
    rw [returns] at hstep
    refine ⟨h.of_quiet ?_ ?_ ?_ ?_, .of_nearer ?_ ?_⟩ <;> rw [hstep]
    · exact ⟨rfl, rfl, queued⟩
    · exact delivered
    · simp [finished, pending, owed]
    · simp [remaining, actions]
    · simp [distance]
  · have waiting : afterStart t (.ok ()) = .wait := by simp [afterStart, isEmpty, queued]
    rw [waiting] at hstep
    refine ⟨h.of_quiet ?_ ?_ ?_ ?_, .of_nearer ?_ ?_⟩ <;> rw [hstep]
    · exact ⟨rfl, (settled_of_startEligible started).exists_running exclusive queued⟩
    · exact delivered
    · simp [finished, pending, owed]
    · simp [remaining, actions]
    · simp [distance]

/-- What runs is outstanding while nothing is at hand. -/
theorem Steady.mem_outstanding (h : Steady x) (hp : x.pending = []) {e : Entry σ}
    (he : e ∈ x.schedule.entries) (hrun : e.running = true) : e.id ∈ x.outstanding := by
  have running : x.schedule.isRunning e.id = true := by
    simpa [isRunning] using ⟨e, he, rfl, hrun⟩
  refine Execution.mem_outstanding.2 ⟨?_, ?_⟩
  · exact h.balanced.running.mem_iff.2 (List.mem_append_right _ (mem_runningIds.2 running))
  · intro hid
    have released := h.brought.mem_iff.1 hid
    rw [hp, List.append_nil] at released
    simp [h.balanced.not_running_of_finished released] at running

theorem Steady.wait_step (h : Steady x) (smooth : x.Smooth loop) (hx : x.phase = .wait) :
    Steady (x.step loop) ∧ Below (x.step loop) x := by
  have moves := step_moves loop x
  obtain ⟨phase, k, s, cs⟩ := x
  obtain rfl : phase = .wait := hx
  obtain ⟨rfl, e, he, hrun⟩ : k = [] ∧ _ := h.placed
  have out := h.mem_outstanding rfl he hrun
  have brings := smooth.brings rfl (List.ne_nil_of_mem out)
  rcases hw : loop.wait s.world with ⟨f | ids, world⟩ <;> rw [hw] at brings
  · exact brings.elim
  obtain ⟨some, distinct, fresh⟩ := brings
  have hstep : step loop ⟨.wait, [], s, cs⟩ =
      ⟨.handle ids, [], note (.delivered ids) { s with world := world }, cs⟩ := step_wait hw
  refine ⟨⟨?_, ?_, h.guarded.moves moves, h.balanced.moves moves, ?_, ?_, ?_⟩,
    .of_nearer ?_ ?_⟩ <;> rw [hstep]
  · rfl
  · exact h.last
  · have brought : (Journal.delivered s.journal).Perm (Journal.finished s.journal) := by
      simpa [pending, owed] using h.brought
    simpa [note, pending, owed, Event.deliveries, Event.releases] using
      (brought.append_left ids).trans List.perm_append_comm
  · refine List.nodup_append'.2 ⟨distinct, h.once, ?_⟩
    intro id hid hold
    exact (Execution.mem_outstanding.1 (fresh hid)).2 hold
  · intro id hid
    rcases List.mem_append.1 hid with hid | hid
    · exact (Execution.mem_outstanding.1 (fresh hid)).1
    · exact h.honest id hid
  · rfl
  · cases ids with
    | nil => exact absurd rfl some
    | cons id ids => simp [distance]

theorem Steady.handle_step (h : Steady x) {ids : List ActionId} (hx : x.phase = .handle ids) :
    Steady (x.step loop) ∧ Below (x.step loop) x := by
  obtain ⟨phase, k, s, cs⟩ := x
  obtain rfl : phase = .handle ids := hx
  obtain rfl : k = [] := h.placed
  cases ids with
  | nil =>
    exact ⟨h.of_quiet rfl rfl rfl (.refl _), .of_nearer rfl (by simp [step, distance])⟩
  | cons id ids =>
    refine ⟨h.of_quiet ⟨ids, rfl⟩ rfl rfl ?_, .of_nearer rfl (by simp [step, distance])⟩
    simp [step, pending, owed, rest]

/-- What is at hand is running, so it can be released. -/
theorem Steady.release (h : Steady x) {id : ActionId} (hid : id ∈ x.pending) :
    ∃ e t, x.schedule.release? id = some (e, t) := by
  have delivered := h.brought.mem_iff.2 (List.mem_append_right _ hid)
  have apart := List.disjoint_of_nodup_append (h.brought.nodup_iff.1 h.once)
  have running := h.balanced.running_of_started (h.honest id delivered)
    fun released => apart released hid
  rcases hr : x.schedule.release? id with _ | ⟨e, t⟩
  · rw [release?_eq_none_iff.1 hr] at running
    contradiction
  · exact ⟨e, t, rfl⟩

theorem Steady.complete_step (h : Steady x) {id : ActionId} (hx : x.phase = .complete id) :
    Steady (x.step loop) ∧ Below (x.step loop) x := by
  obtain ⟨phase, k, s, cs⟩ := x
  obtain rfl : phase = .complete id := hx
  obtain ⟨ids, rfl⟩ : ∃ ids, k = [.batch ids] := h.placed
  obtain ⟨e, t, hr⟩ := h.release (List.mem_cons_self ..)
  have journal : t.journal = s.journal := by
    obtain ⟨l₁, l₂, -, -, -, rfl⟩ := release?_eq_some hr
    rfl
  have hstep : step loop ⟨.complete id, [.batch ids], s, cs⟩ =
      ⟨.follow (e.action.hook id), [.batch ids], t.note (.finished id e.action.name), cs⟩ :=
    step_complete hr
  refine ⟨h.of_quiet ?_ ?_ ?_ ?_,
    .of_parts t.actions {.inr (e.action.hook id)} (.inl e.action) ?_ ?_ ?_⟩
  · exact hstep ▸ ⟨ids, rfl⟩
  · rw [hstep]
  · rw [hstep]
    simp [note, Event.deliveries, journal]
  · rw [hstep]
    simp [note, pending, owed, rest, journal, Event.releases]
  · rw [hstep]
    rfl
  · simpa [remaining] using actions_release hr
  · intro part hpart
    rw [Multiset.mem_singleton.1 hpart]
    exact .hook e.action id

theorem Steady.follow_step (h : Steady x) (smooth : x.Smooth loop) {hook : Hook σ}
    (hx : x.phase = .follow hook) : Steady (x.step loop) ∧ Below (x.step loop) x := by
  obtain ⟨phase, k, s, cs⟩ := x
  obtain rfl : phase = .follow hook := hx
  obtain ⟨ids, rfl⟩ : ∃ ids, k = [.batch ids] := h.placed
  have harmless := smooth.hooks
  cases hook with
  | finish o =>
    cases o with
    | error f => contradiction
    | ok =>
      have started := isOk_iff.1 (smooth.starts rfl)
      refine ⟨h.of_quiet ⟨started, ids, rfl⟩ rfl ?_ ?_, .of_parts s.actions 0 _ ?_ rfl ?_⟩
      · simp [step, advance]
      · simp [step, advance, pending, owed]
      · simp [step, advance, remaining]
      · simp
  | look next =>
    refine ⟨h.of_quiet ⟨ids, rfl⟩ rfl rfl (.refl _), .of_parts s.actions _ _ rfl rfl ?_⟩
    intro part hpart
    rw [Multiset.mem_singleton.1 hpart]
    exact .look next s.view s.world
  | put world next =>
    refine ⟨h.of_quiet ⟨ids, rfl⟩ rfl rfl (.refl _), .of_parts s.actions _ _ rfl rfl ?_⟩
    intro part hpart
    rw [Multiset.mem_singleton.1 hpart]
    exact .put world next
  | add action next =>
    refine ⟨h.of_quiet ⟨ids, rfl⟩ rfl rfl (.refl _),
      .of_parts s.actions ({.inl action} + {.inr (next ⟨s.nextId⟩)}) _ ?_ rfl ?_⟩
    · exact congrArg (· + _) (actions_add action s) |>.trans (add_assoc _ _ _)
    · intro part hpart
      rcases Multiset.mem_add.1 hpart with hpart | hpart
      · rw [Multiset.mem_singleton.1 hpart]
        exact .queued action next
      · rw [Multiset.mem_singleton.1 hpart]
        exact .add action next _
  | complete id next => contradiction
  | run next => contradiction

theorem Steady.completed_step (h : Steady x) {o : Except Fault Unit}
    (hx : x.phase = .completed o) : Steady (x.step loop) ∧ Below (x.step loop) x := by
  obtain ⟨phase, k, s, cs⟩ := x
  obtain rfl : phase = .completed o := hx
  obtain ⟨rfl, ids, rfl⟩ : o = .ok () ∧ ∃ ids, k = [.batch ids] := h.placed
  refine ⟨h.of_quiet rfl rfl rfl (.refl _), .of_nearer rfl ?_⟩
  cases ids <;> simp [step, resume, distance]

theorem Steady.ended_step (h : Steady x) {o : Except Fault Unit} (hx : x.phase = .ended o) :
    Steady (x.step loop) ∧ Below (x.step loop) x := by
  obtain ⟨phase, k, s, cs⟩ := x
  obtain rfl : phase = .ended o := hx
  obtain ⟨rfl, rfl, queue⟩ : o = .ok () ∧ k = [] ∧ s.entries = [] := h.placed
  exact ⟨h.of_quiet ⟨rfl, queue⟩ rfl rfl (.refl _),
    .of_nearer rfl (by simp [step, resume, distance])⟩

/-- Every step of a run keeps to all this and leaves less to do. -/
theorem Steady.step (h : Steady x) (smooth : x.Smooth loop) (hx : x.phase ≠ .idle) :
    Steady (x.step loop) ∧ Below (x.step loop) x := by
  cases hp : x.phase with
  | idle => exact absurd hp hx
  | run => exact h.run_step smooth hp
  | wait => exact h.wait_step smooth hp
  | handle ids => exact h.handle_step hp
  | complete id => exact h.complete_step hp
  | follow hook => exact h.follow_step smooth hp
  | completed o => exact h.completed_step hp
  | ended o => exact h.ended_step hp

end Steps

end Execution

end BackupRetention
