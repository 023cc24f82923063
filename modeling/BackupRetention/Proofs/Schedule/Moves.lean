import BackupRetention.Proofs.Schedule.Execution
import BackupRetention.Schedule.Pool
import Mathlib.Logic.Relation

/-!
# Moves

All that can ever happen to a schedule: an action is queued, an action is started, the world
is replaced, a wait is over, a running action leaves. Every step of an execution is made of
such moves, so what no move destroys holds at every moment.

## Main definitions

* `Schedule.Move`: one of the five things, with what is known when it happens.
* `Execution.step_moves`: an execution goes along moves.
-/

namespace BackupRetention

namespace Schedule

variable {σ : Type}

@[simp] theorem isRun_eq_true_iff {id : ActionId} {e : Entry σ} :
    isRun id e = true ↔ e.id = id ∧ e.running = true := by
  simp [isRun]

/-- The schedule after the start of `e` has been called. -/
def begun (earlier : List (Entry σ)) (e : Entry σ) (later : List (Entry σ)) (s : Schedule σ) :
    Schedule σ :=
  { note (.started e.id e.action.name)
      { s with
        entries := earlier ++ { e with running := true } :: later
        held := claim e.labels s.held } with
    world := (e.action.start e.id s.world).2 }

/-- An action is started, and nothing before it in the queue could be. -/
inductive Start : Schedule σ → Schedule σ → Prop where
  | begin {s : Schedule σ} (earlier : List (Entry σ)) (e : Entry σ) (later : List (Entry σ))
      (queue : s.entries = earlier ++ e :: later) (eligible : Eligible s.held e)
      (first : ∀ x ∈ earlier, ¬ Eligible s.held x) : Start s (s.begun earlier e later)

/-- What happens to a schedule. An action is only started if nothing before it in the queue
could be. -/
inductive Move (loop : EventLoop σ) : Schedule σ → Schedule σ → Prop where
  | add (action : Action σ) (s : Schedule σ) : Move loop s (s.add action).2
  | put (world : σ) (s : Schedule σ) : Move loop s { s with world := world }
  | start {s : Schedule σ} (earlier : List (Entry σ)) (e : Entry σ) (later : List (Entry σ))
      (queue : s.entries = earlier ++ e :: later) (eligible : Eligible s.held e)
      (first : ∀ x ∈ earlier, ¬ Eligible s.held x) : Move loop s (s.begun earlier e later)
  | wait (s : Schedule σ) : Move loop s (s.await loop).2
  | finish {s : Schedule σ} (t : Schedule σ) (id : ActionId) (e : Entry σ)
      (release : s.release? id = some (e, t)) :
      Move loop s (t.note (.finished id e.action.name))

/-- Some moves, one after the other. -/
abbrev Moves (loop : EventLoop σ) : Schedule σ → Schedule σ → Prop :=
  Relation.ReflTransGen (Move loop)

variable {loop : EventLoop σ} {s t : Schedule σ}

/-- What no move destroys is kept by all moves. -/
theorem Moves.preserve {P : Schedule σ → Prop} (step : ∀ s t, Move loop s t → P s → P t)
    (h : Moves loop s t) (hs : P s) : P t := by
  induction h with
  | refl => exact hs
  | tail _ hm ih => exact step _ _ hm ih

/-- What holds of an empty schedule and is kept by queuing holds before a run. -/
theorem ofActions_induction {P : Schedule σ → Prop} {world : σ} {actions : List (Action σ)}
    (empty : P (empty world)) (add : ∀ s, ∀ action ∈ actions, P s → P (s.add action).2) :
    P (ofActions world actions) := by
  unfold ofActions
  generalize Schedule.empty world = s at empty
  induction actions generalizing s with
  | nil => exact empty
  | cons action actions ih =>
    have others : ∀ s, ∀ a ∈ actions, P s → P (s.add a).2 :=
      fun s a ha => add s a (List.mem_cons_of_mem _ ha)
    exact ih others _ (add s action List.mem_cons_self empty)

/-- Queuing is all that happens before a run. -/
theorem ofActions_moves (loop : EventLoop σ) (world : σ) (actions : List (Action σ)) :
    Moves loop (empty world) (ofActions world actions) :=
  ofActions_induction .refl fun s action _ h => h.tail (.add action s)

/-- Queued actions stand in the order in which they were queued. -/
theorem queued_ofActions (world : σ) (actions : List (Action σ)) :
    (ofActions world actions).entries = actions.zipIdx.map (fun a => ⟨⟨a.2⟩, a.1, false⟩) ∧
      (ofActions world actions).nextId = actions.length ∧
      (ofActions world actions).world = world := by
  have queued : ∀ s : Schedule σ,
      (actions.foldl (fun s a => (s.add a).2) s).entries =
          s.entries ++ (actions.zipIdx s.nextId).map (fun a => ⟨⟨a.2⟩, a.1, false⟩) ∧
        (actions.foldl (fun s a => (s.add a).2) s).nextId = s.nextId + actions.length ∧
        (actions.foldl (fun s a => (s.add a).2) s).world = s.world := by
    induction actions with
    | nil => simp
    | cons a actions ih =>
      intro s
      obtain ⟨entries, next, world⟩ := ih (s.add a).2
      refine ⟨?_, ?_, world⟩
      · rw [List.foldl_cons, entries]
        simp [add, note]
      · rw [List.foldl_cons, next]
        simp [add, note, Nat.add_right_comm, Nat.add_assoc]
  simpa [ofActions, empty] using queued (empty world)

theorem not_eligible_claim {labels held : List Label} {e : Entry σ}
    (h : ¬ Eligible held e) : ¬ Eligible (claim labels held) e := by
  rintro ⟨hrun, hfree⟩
  exact h ⟨hrun, fun x hx hheld => hfree x hx (mem_claim.2 (.inr hheld))⟩

theorem Start.move (h : Start s t) : Move loop s t := by
  obtain ⟨earlier, e, later, queue, eligible, first⟩ := h
  exact .start earlier e later queue eligible first

/-- A start writes down nothing else. -/
theorem Start.journal (h : Start s t) : ∃ m, t.journal = m :: s.journal ∧
    ∃ id name, m.event = .started id name := by
  obtain ⟨earlier, e, later, -, -, -⟩ := h
  exact ⟨_, rfl, _, _, rfl⟩

/-- A start keeps the queue in order. -/
theorem Start.actions (h : Start s t) :
    t.entries.map Entry.action = s.entries.map Entry.action := by
  obtain ⟨earlier, e, later, queue, -, -⟩ := h
  simp [begun, note, queue]

theorem startFrom_of_eligible {earlier later : List (Entry σ)} {e : Entry σ}
    (h : Eligible s.held e) :
    startFrom earlier s (e :: later) =
      match (e.action.start e.id s.world).1 with
      | .error f => (.error f, s.begun earlier e later)
      | .ok () =>
        startFrom (earlier ++ [{ e with running := true }]) (s.begun earlier e later) later := by
  rw [startFrom, if_pos h]
  rcases hstart : e.action.start e.id s.world with ⟨f | _, world⟩ <;>
    simp [hstart, begun, note]

/-- Admission is a row of starts. The labels held only grow on the way, so what was passed
over stays where it is, and if no start fails nothing can be started afterwards. -/
theorem startFrom_starts {earlier later : List (Entry σ)} (queue : s.entries = earlier ++ later)
    (first : ∀ x ∈ earlier, ¬ Eligible s.held x) :
    Relation.ReflTransGen Start s (startFrom earlier s later).2 ∧
      ((startFrom earlier s later).1 = .ok () →
        ∀ x ∈ (startFrom earlier s later).2.entries,
          ¬ Eligible (startFrom earlier s later).2.held x) := by
  induction later generalizing earlier s with
  | nil =>
    rw [List.append_nil] at queue
    subst queue
    exact ⟨.refl, fun _ => first⟩
  | cons e later ih =>
    by_cases eligible : Eligible s.held e
    · have start : Start s (s.begun earlier e later) := .begin earlier e later queue eligible first
      have passed : ∀ x ∈ earlier ++ [{ e with running := true }],
          ¬ Eligible (s.begun earlier e later).held x := by
        intro x hx
        rcases List.mem_append.1 hx with hx | hx
        · exact not_eligible_claim (first x hx)
        · rw [List.mem_singleton.1 hx]
          simp [Eligible]
      rw [startFrom_of_eligible eligible]
      cases (e.action.start e.id s.world).1 with
      | error f => exact ⟨.single start, fun h => nomatch h⟩
      | ok =>
        obtain ⟨starts, done⟩ := ih (by simp [begun, note]) passed
        exact ⟨.head start starts, done⟩
    · have passed : ∀ x ∈ earlier ++ [e], ¬ Eligible s.held x := by
        intro x hx
        rcases List.mem_append.1 hx with hx | hx
        · exact first x hx
        · rwa [List.mem_singleton.1 hx]
      rw [startFrom, if_neg eligible]
      exact ih (by simp [queue]) passed

theorem startEligible_starts (s : Schedule σ) :
    Relation.ReflTransGen Start s s.startEligible.2 :=
  (startFrom_starts rfl (by simp)).1

theorem startEligible_moves (loop : EventLoop σ) (s : Schedule σ) :
    Moves loop s s.startEligible.2 :=
  Relation.ReflTransGen.mono (fun _ _ => Start.move) _ _ (startEligible_starts s)

/-- Where a released action stood, and what is left. -/
theorem release?_eq_some {id : ActionId} {e : Entry σ} (h : s.release? id = some (e, t)) :
    ∃ l₁ l₂, s.entries = l₁ ++ e :: l₂ ∧ e.id = id ∧ e.running = true ∧
      t = { s with entries := l₁ ++ l₂, held := unclaim e.labels s.held } := by
  unfold release? at h
  cases hf : s.entries.find? (isRun id) with
  | none => simp [hf] at h
  | some x =>
    simp only [hf, Option.some.injEq, Prod.mk.injEq] at h
    obtain ⟨rfl, rfl⟩ := h
    obtain ⟨hx, l₁, l₂, hq, hl⟩ := List.find?_eq_some_iff_append.1 hf
    have others : ∀ a ∈ l₁, ¬ isRun id a = true := by
      intro a ha
      rw [Bool.not_eq_true]
      simpa using hl a ha
    have erased : s.entries.eraseP (isRun id) = l₁ ++ l₂ := by
      rw [hq, List.eraseP_append_right _ others, List.eraseP_cons_of_pos hx]
    obtain ⟨hid, hrun⟩ := isRun_eq_true_iff.1 hx
    exact ⟨l₁, l₂, hq, hid, hrun, by rw [erased]⟩

/-- A release takes out one entry and keeps the others. -/
theorem sublist_of_release? {id : ActionId} {e : Entry σ} (h : s.release? id = some (e, t)) :
    t.entries.Sublist s.entries := by
  obtain ⟨l₁, l₂, queue, -, -, rfl⟩ := release?_eq_some h
  rw [queue]
  exact (List.sublist_cons_self _ _).append_left l₁

theorem release?_eq_none_iff {id : ActionId} :
    s.release? id = none ↔ s.isRunning id = false := by
  unfold release? isRunning
  cases hf : s.entries.find? (isRun id) with
  | none => simpa [isRun] using hf
  | some e =>
    obtain ⟨hid, hrun⟩ := isRun_eq_true_iff.1 (List.find?_some hf)
    simpa using ⟨e, List.mem_of_find?_eq_some hf, hid, hrun⟩

/-- A move writes down at most one moment, with the schedule as it is after the move. When an
action leaves, none of its labels stays held. -/
theorem Move.journal (h : Move loop s t) : t.journal = s.journal ∨
    ∃ event, t.journal = ⟨event, t.view⟩ :: s.journal ∧
      ∀ id name, event = .finished id name →
        ∃ e ∈ s.entries, e.id = id ∧ ∀ x ∈ e.labels, x ∉ t.held := by
  cases h with
  | add action => exact .inr ⟨.added ⟨s.nextId⟩, rfl, by simp⟩
  | put world => exact .inl rfl
  | start earlier e later queue eligible first =>
    exact .inr ⟨.started e.id e.action.name, rfl, by simp⟩
  | wait =>
    right
    unfold await
    rcases loop.wait s.world with ⟨f | ids, world⟩
    · exact ⟨.stalled, rfl, by simp⟩
    · exact ⟨.delivered ids, rfl, by simp⟩
  | finish u id e release =>
    obtain ⟨l₁, l₂, queue, hid, -, rfl⟩ := release?_eq_some release
    refine .inr ⟨.finished id e.action.name, rfl, ?_⟩
    rintro id' name' hev
    cases hev
    exact ⟨e, by simp [queue], hid, by simp +contextual [note]⟩

theorem Moves.journal_suffix (h : Moves loop s t) : s.journal <:+ t.journal := by
  induction h with
  | refl => exact List.suffix_rfl
  | tail _ move ih =>
    rcases move.journal with hj | ⟨event, hj, -⟩
    · exact hj ▸ ih
    · exact hj ▸ ih.trans (List.suffix_cons _ _)

/-- A move keeps every action that stays under its number; what is new has a new number. -/
theorem Move.entries (h : Move loop s t) : s.nextId ≤ t.nextId ∧
    ∀ e ∈ t.entries, s.nextId ≤ e.id.val ∨
      ∃ e' ∈ s.entries, e'.id = e.id ∧ e'.action = e.action := by
  cases h with
  | add action =>
    refine ⟨Nat.le_succ _, ?_⟩
    intro e he
    rcases List.mem_append.1 he with he | he
    · exact .inr ⟨e, he, rfl, rfl⟩
    · rw [List.mem_singleton.1 he]
      exact .inl (Nat.le_refl _)
  | put world => exact ⟨Nat.le_refl _, fun e he => .inr ⟨e, he, rfl, rfl⟩⟩
  | start earlier e later queue eligible first =>
    refine ⟨Nat.le_refl _, fun a ha => .inr ?_⟩
    rw [queue]
    rcases List.mem_append.1 ha with ha | ha
    · exact ⟨a, by simp [ha], rfl, rfl⟩
    · rcases List.mem_cons.1 ha with rfl | ha
      · exact ⟨e, by simp, rfl, rfl⟩
      · exact ⟨a, by simp [ha], rfl, rfl⟩
  | wait =>
    unfold await
    split <;> exact ⟨Nat.le_refl _, fun e he => .inr ⟨e, he, rfl, rfl⟩⟩
  | finish u id e release =>
    have kept := sublist_of_release? release
    obtain ⟨l₁, l₂, queue, -, -, rfl⟩ := release?_eq_some release
    exact ⟨Nat.le_refl _, fun a ha => .inr ⟨a, kept.subset ha, rfl, rfl⟩⟩

end Schedule

namespace Execution

open Schedule

variable {σ : Type} (loop : EventLoop σ)

theorem resume_schedule (outcome : Except Fault Unit) (x : Execution σ) :
    (x.resume outcome).schedule = x.schedule := by
  obtain ⟨phase, _ | ⟨_ | _, _⟩, s, cs⟩ := x <;> cases outcome <;> rfl

theorem advance_moves (x : Execution σ) (hook : Hook σ) :
    Moves loop x.schedule (x.advance hook).schedule := by
  cases hook with
  | finish o =>
    cases o with
    | error f => exact .refl
    | ok => exact startEligible_moves loop x.schedule
  | look next => exact .refl
  | put world next => exact .single (.put world _)
  | add action next => exact .single (.add action _)
  | complete id next => exact .refl
  | run next => exact .refl

/-- A step of an execution is made of moves. -/
theorem step_moves (x : Execution σ) : Moves loop x.schedule (x.step loop).schedule := by
  obtain ⟨phase, k, s, cs⟩ := x
  cases phase with
  | idle =>
    cases cs with
    | nil => exact .refl
    | cons c cs =>
      cases c with
      | add action => exact .single (.add action s)
      | run => exact .refl
      | completed id => exact .refl
  | run => exact startEligible_moves loop s
  | wait => exact .single (.wait s)
  | handle ids => cases ids <;> exact .refl
  | complete id =>
    rcases hr : s.release? id with _ | ⟨e, t⟩
    · simpa [step, hr] using Relation.ReflTransGen.refl
    · simpa [step, hr] using Relation.ReflTransGen.single (Move.finish t id e hr)
  | follow hook => exact advance_moves loop _ hook
  | completed o => simpa [step, resume_schedule] using Relation.ReflTransGen.refl
  | ended o => simpa [step, resume_schedule] using Relation.ReflTransGen.refl

theorem after_moves (n : Nat) (x : Execution σ) :
    Moves loop x.schedule (after loop n x).schedule := by
  induction n with
  | zero => exact .refl
  | succ n ih =>
    rw [after_succ]
    exact ih.trans (step_moves loop _)

theorem reached_moves (world : σ) (calls : List (Call σ)) {m n : Nat} (hmn : m ≤ n) :
    Moves loop (reached loop world calls m).schedule (reached loop world calls n).schedule := by
  obtain ⟨k, rfl⟩ := Nat.exists_eq_add_of_le' hmn
  rw [reached, reached, after_add]
  exact after_moves loop k _

end Execution

end BackupRetention
