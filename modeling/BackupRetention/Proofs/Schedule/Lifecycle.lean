import BackupRetention.Proofs.Schedule.Accounts
import BackupRetention.Proofs.Schedule.Exclusion
import BackupRetention.Schedule.Rehearsal

/-!
# The life of an action

Whoever calls, and from however deep inside a hook: an action is queued under a number of its own,
started at most once, and released at most once after that; in between it stands in the queue, and
nothing overtakes anything there. A completion is accepted exactly while its action is running. If
it is not, nothing happens.

## Main definitions

* `Journal.present`: what was queued and not released, in the order in which it was queued.
* `Moment.InTurn`: what holds of a moment, given the journal before it.
* `Schedule.Orderly`: what holds of a schedule at any time.
* `Schedule.Accepts`: a completion takes an action out of the queue.

## Main results

* `Schedule.completed_eq_untracked_iff`: when a completion is rejected.
* `Execution.lives_in_turn`: the life of every action, in every history.
-/

namespace BackupRetention

/-- What was queued and is not released yet, in the order in which it was queued. -/
def Journal.present (j : List Moment) : List ActionId :=
  (added j).reverse.filter (· ∉ finished j)

/-- What holds of a moment, given the journal before it. -/
structure Moment.InTurn (m : Moment) (earlier : List Moment) : Prop where
  /-- What is queued gets a new number. -/
  added : ∀ id ∈ m.event.additions, id ∉ Journal.added earlier
  /-- What is started stands in the queue and has not been started before. -/
  started : ∀ id ∈ m.event.starts, id ∈ Journal.present earlier ∧ id ∉ Journal.started earlier
  /-- What is released has been started and has not been released before. -/
  finished : ∀ id ∈ m.event.releases, id ∈ Journal.started earlier ∧ id ∉ Journal.finished earlier
  queue : m.view.queue.map Standing.id = Journal.present (m :: earlier)
  running_iff : ∀ a ∈ m.view.queue, a.running = true ↔ a.id ∈ Journal.started (m :: earlier)

namespace Schedule

variable {σ : Type} {loop : EventLoop σ} {s t : Schedule σ}

/-! ## Queue and journal -/

namespace Balanced

theorem nodup_finished (h : Balanced s) : (Journal.finished s.journal).Nodup :=
  (List.nodup_append.1 h.nodup_entries).1

theorem nodup_started (h : Balanced s) : (Journal.started s.journal).Nodup := by
  have fewer : s.runningIds.Sublist (s.entries.map Entry.id) := List.filter_sublist.map _
  exact h.running.nodup_iff.2 (h.nodup_entries.sublist (fewer.append_left _))

/-- What is released was started. -/
theorem started_of_finished (h : Balanced s) {id : ActionId}
    (hid : id ∈ Journal.finished s.journal) : id ∈ Journal.started s.journal :=
  h.running.mem_iff.2 (List.mem_append_left _ hid)

theorem mem_present_iff (h : Balanced s) {id : ActionId} :
    id ∈ Journal.present s.journal ↔ id ∈ s.entries.map Entry.id := by
  have apart := List.disjoint_of_nodup_append h.nodup_entries
  simp only [Journal.present, List.mem_filter, List.mem_reverse, h.queued.mem_iff, List.mem_append,
    decide_eq_true_eq]
  exact ⟨fun ⟨either, open'⟩ => either.resolve_left open', fun hid => ⟨.inr hid, (apart · hid)⟩⟩

/-- The queue holds what was queued and not released, in this order. -/
theorem queue_eq (h : Balanced s) (numbered : Numbered s) :
    s.entries.map Entry.id = Journal.present s.journal := by
  have rising : (Journal.added s.journal).reverse.Pairwise fun a b => a.val < b.val := by
    rw [h.numbers, List.map_reverse, List.reverse_reverse, List.pairwise_map]
    exact List.pairwise_lt_range
  have queue : (s.entries.map Entry.id).Pairwise fun a b => a.val < b.val :=
    List.pairwise_map.2 numbered.ordered
  have distinct {l : List ActionId} (hl : l.Pairwise fun a b => a.val < b.val) : l.Nodup :=
    hl.imp fun less same => absurd (same ▸ less) (Nat.lt_irrefl _)
  have present : (Journal.present s.journal).Pairwise fun a b => a.val < b.val := rising.filter _
  refine List.Perm.eq_of_pairwise (fun a b _ _ ab ba => absurd ab (Nat.lt_asymm ba)) queue
    present ?_
  exact (List.perm_ext_iff_of_nodup (distinct queue) (distinct present)).2
    fun id => h.mem_present_iff.symm

theorem running_iff (h : Balanced s) {e : Entry σ} (he : e ∈ s.entries) (numbered : Numbered s) :
    e.running = true ↔ e.id ∈ Journal.started s.journal := by
  have queued : e.id ∈ s.entries.map Entry.id := List.mem_map_of_mem he
  rw [h.running.mem_iff, List.mem_append, mem_runningIds, isRunning, List.any_eq_true]
  constructor
  · intro running
    exact .inr ⟨e, he, by simpa using running⟩
  · rintro (released | ⟨f, hf, same⟩)
    · exact absurd queued (List.disjoint_of_nodup_append h.nodup_entries released)
    · obtain ⟨hid, running⟩ : f.id = e.id ∧ f.running = true := by simpa using same
      exact numbered.eq_of_id_eq hf he hid ▸ running

/-- A moment that comes next is in turn. -/
theorem inTurn (before : Balanced s) (h : Balanced t) (numbered : Numbered t) {event : Event}
    (journal : t.journal = ⟨event, t.view⟩ :: s.journal) :
    Moment.InTurn ⟨event, t.view⟩ s.journal where
  added := by
    have distinct := h.nodup_added
    rw [journal, Journal.added_cons] at distinct
    exact fun id hid again => List.disjoint_of_nodup_append distinct hid again
  started := by
    intro id hid
    have distinct := h.nodup_started
    rw [journal, Journal.started_cons] at distinct
    have new : id ∉ Journal.started s.journal := List.disjoint_of_nodup_append distinct hid
    obtain ⟨name, rfl⟩ : ∃ name, event = .started id name := by
      cases event <;> simp_all [Event.starts]
    have queued := h.running.mem_iff.1 (by simp [journal, Event.starts] : id ∈ Journal.started _)
    have released : id ∉ Journal.finished s.journal :=
      fun released => new (before.started_of_finished released)
    have known : id ∈ Journal.added s.journal := by
      have still : id ∈ Journal.finished t.journal ++ t.entries.map Entry.id := by
        refine List.mem_append.2 ((List.mem_append.1 queued).imp_right fun running => ?_)
        exact (List.filter_sublist.map Entry.id).subset running
      have added := h.queued.mem_iff.2 still
      rwa [journal] at added
    exact ⟨List.mem_filter.2 ⟨List.mem_reverse.2 known, by simpa using released⟩, new⟩
  finished := by
    intro id hid
    have distinct := h.nodup_finished
    rw [journal, Journal.finished_cons] at distinct
    have new : id ∉ Journal.finished s.journal := List.disjoint_of_nodup_append distinct hid
    obtain ⟨name, rfl⟩ : ∃ name, event = .finished id name := by
      cases event <;> simp_all [Event.releases]
    have started := h.started_of_finished (by simp [journal, Event.releases] : id ∈ _)
    rw [journal] at started
    exact ⟨started, new⟩
  queue := by
    rw [← journal, ← h.queue_eq numbered, view, List.map_map]
    rfl
  running_iff := by
    intro a ha
    obtain ⟨e, he, rfl⟩ := List.mem_map.1 ha
    rw [← journal]
    exact h.running_iff he numbered

end Balanced

/-- What no move destroys. -/
structure Recorded (s : Schedule σ) : Prop where
  numbered : Numbered s
  balanced : Balanced s
  inTurn : Journal.Throughout Moment.InTurn s.journal

theorem Recorded.move (h : Recorded s) (move : Move loop s t) : Recorded t := by
  have numbered := h.numbered.move move
  have balanced := h.balanced.move move
  refine ⟨numbered, balanced, ?_⟩
  rcases move.journal with same | ⟨event, journal, -⟩
  · exact same ▸ h.inTurn
  · have next := h.balanced.inTurn balanced numbered journal
    exact journal ▸ ⟨next, h.inTurn⟩

theorem Recorded.empty (world : σ) : Recorded (empty world) where
  numbered := (Guarded.empty world).numbered
  balanced := Balanced.empty world
  inTurn := trivial

/-- What holds of a schedule at any time. -/
structure Orderly (s : Schedule σ) : Prop where
  /-- All numbers that were given out are different, and so is the next one. -/
  distinct : (Journal.added s.journal).Nodup
  fresh : ∀ action, (s.add action).1 ∉ Journal.added s.journal
  startedOnce : (Journal.started s.journal).Nodup
  finishedOnce : (Journal.finished s.journal).Nodup
  /-- The queue holds what was queued and not released, in this order. -/
  queue : s.entries.map Entry.id = Journal.present s.journal
  running_iff : ∀ e ∈ s.entries, e.running = true ↔ e.id ∈ Journal.started s.journal
  inTurn : Journal.Throughout Moment.InTurn s.journal

theorem Recorded.orderly (h : Recorded s) : Orderly s where
  distinct := h.balanced.nodup_added
  fresh := by simp [add, h.balanced.numbers]
  startedOnce := h.balanced.nodup_started
  finishedOnce := h.balanced.nodup_finished
  queue := h.balanced.queue_eq h.numbered
  running_iff := fun _ he => h.balanced.running_iff he h.numbered
  inTurn := h.inTurn

/-- Moves keep every action that stays under its number; what is new has a new number. -/
theorem Moves.entries (h : Moves loop s t) : s.nextId ≤ t.nextId ∧
    ∀ e ∈ t.entries, s.nextId ≤ e.id.val ∨
      ∃ e' ∈ s.entries, e'.id = e.id ∧ e'.action = e.action := by
  induction h with
  | refl => exact ⟨Nat.le_refl _, fun e he => .inr ⟨e, he, rfl, rfl⟩⟩
  | tail _ move ih =>
    obtain ⟨grown, origin⟩ := move.entries
    refine ⟨Nat.le_trans ih.1 grown, fun e he => ?_⟩
    rcases origin e he with new | ⟨e', he', hid, action⟩
    · exact .inl (Nat.le_trans ih.1 new)
    · rw [← hid, ← action]
      exact ih.2 e' he'

/-- An action stays the same as long as it is in the queue. -/
theorem Moves.action_eq (h : Moves loop s t) (numbered : Numbered s) {a b : Entry σ}
    (ha : a ∈ s.entries) (hb : b ∈ t.entries) (hid : a.id = b.id) : a.action = b.action := by
  rcases h.entries.2 b hb with new | ⟨c, hc, hid', action⟩
  · have old := numbered.given a ha
    rw [hid] at old
    omega
  · rw [numbered.eq_of_id_eq ha hc (hid.trans hid'.symm), action]

/-! ## Completions -/

/-- The running action with this number leaves the queue and gives its labels back; then its hook
is gone through. -/
def Accepts (loop : EventLoop σ) (id : ActionId) (s : Schedule σ) : Prop :=
  ∃ before e later, s.entries = before ++ e :: later ∧ e.id = id ∧ e.running = true ∧
    ∀ fuel, completed loop (fuel + 1) id s =
      Execution.finishHook? loop fuel (e.action.hook id) (note (.finished id e.action.name)
        { s with entries := before ++ later, held := unclaim e.labels s.held })

theorem accepts_of_running {id : ActionId} (h : s.isRunning id = true) : s.Accepts loop id := by
  cases release : s.release? id with
  | none => simp [release?_eq_none_iff.1 release] at h
  | some released =>
    obtain ⟨e, u⟩ := released
    obtain ⟨before, later, queue, hid, running, rfl⟩ := release?_eq_some release
    exact ⟨before, e, later, queue, hid, running, fun _ => Execution.completed_of_release release⟩

/-- If a completion is accepted, the release of its action is the first thing that happens. -/
theorem finished_of_running {id : ActionId} (h : s.isRunning id = true) {n : Nat}
    {o : Except Fault Unit} (answered : completed loop n id s = some (o, t)) :
    ∃ m, m.event.releases = [id] ∧ m :: s.journal <:+ t.journal := by
  cases release : s.release? id with
  | none => simp [release?_eq_none_iff.1 release] at h
  | some released =>
    obtain ⟨e, u⟩ := released
    obtain ⟨k, hk⟩ := Execution.leads_of_completed answered
    cases k with
    | zero => simp at hk
    | succ k =>
      have moves := Execution.after_moves loop k (Execution.step loop ⟨.complete id, [], s, []⟩)
      have last : Execution.after loop k (Execution.step loop ⟨.complete id, [], s, []⟩) =
        ⟨.completed o, [], t, []⟩ := hk
      rw [last] at moves
      have journal : u.journal = s.journal := by
        obtain ⟨l₁, l₂, -, -, -, rfl⟩ := release?_eq_some release
        rfl
      have suffix := moves.journal_suffix
      simp only [Execution.step, release, note, journal] at suffix
      exact ⟨_, rfl, suffix⟩

/-- A completion is rejected, with nothing changed, exactly if its action is not running. -/
theorem completed_eq_untracked_iff {id : ActionId} (n : Nat) :
    completed loop (n + 1) id s = some (.error (.untracked id), s) ↔ s.isRunning id = false := by
  constructor
  · intro rejected
    by_contra running
    obtain ⟨m, -, suffix⟩ := finished_of_running (by simpa using running) rejected
    have longer := suffix.length_le
    rw [List.length_cons] at longer
    omega
  · intro idle
    simp only [completed, release?_eq_none_iff.2 idle]

end Schedule

namespace Execution

open Schedule

variable {σ : Type}

theorem recorded_reached (loop : EventLoop σ) (world : σ) (calls : List (Call σ)) (n : Nat) :
    Recorded (reached loop world calls n).schedule :=
  (reached_moves loop world calls n.zero_le).preserve (fun _ _ move h => h.move move)
    (Recorded.empty world)

/-- Whatever its owner and the hooks call, and whatever fails, every action of a schedule has its
own number, is started at most once and released at most once after that, and stands in the queue,
always the same and behind all that was queued before it, from when it is queued until it is
released. A completion is accepted if its action is running, which is then released and its hook
called; if not, the completion is rejected and nothing has happened. -/
theorem lives_in_turn (loop : EventLoop σ) (world : σ) (calls : List (Call σ)) :
    (∀ fuel s, callAll loop fuel (empty world) calls = some s → s.Orderly) ∧
    (∀ n, (reached loop world calls n).schedule.Orderly) ∧
    (∀ m n, m ≤ n → ∀ a ∈ (reached loop world calls m).schedule.entries,
      ∀ b ∈ (reached loop world calls n).schedule.entries, a.id = b.id → a.action = b.action) ∧
    ∀ (s : Schedule σ) (id : ActionId),
      (∀ fuel, completed loop (fuel + 1) id s = some (.error (.untracked id), s) ↔
        s.isRunning id = false) ∧
      (s.isRunning id = true → s.Accepts loop id) := by
  refine ⟨?_, fun n => (recorded_reached loop world calls n).orderly, ?_, ?_⟩
  · intro fuel s answered
    obtain ⟨n, hn⟩ := callAll_eq_some_iff.1 ⟨fuel, answered⟩
    have recorded := recorded_reached loop world calls n
    rw [reached, hn] at recorded
    exact recorded.orderly
  · intro m n hmn a ha b hb hid
    have numbered := (recorded_reached loop world calls m).numbered
    exact (reached_moves loop world calls hmn).action_eq numbered ha hb hid
  · intro s id
    exact ⟨fun _ => completed_eq_untracked_iff _, accepts_of_running⟩

/-- Completions come too early, twice and from nowhere. The hook of the first action queues another
one, reports the completion of the second, runs the schedule and fails. -/
def tangled : List (Call Stage) :=
  [.add (Script.mk "a" ["disk"] .now [.mk "c" ["disk"] .now [] none false false] (some ⟨1⟩) true
      true).action,
    .completed ⟨0⟩, .add (Script.mk "b" [] .hold [] none false false).action, .run,
    .completed ⟨0⟩, .completed ⟨7⟩, .run]

theorem tangled_lives_in_turn :
    ∃ s, callAll Rehearsal.loop 64 (empty (.opening [])) tangled = some s ∧ s.Orderly := by
  have answered : (callAll Rehearsal.loop 64 (empty (.opening [])) tangled).isSome := by
    decide +kernel
  obtain ⟨s, hs⟩ := Option.isSome_iff_exists.1 answered
  exact ⟨s, hs, (lives_in_turn _ _ _).1 64 s hs⟩

end Execution

end BackupRetention
