import BackupRetention.Proofs.Schedule.Turns

/-!
# A single worker

A single worker does the jobs in the order in which they are handed over. Then their completions
come in this order too, and what is queued, what is running and what has been started so far leave
no choice of what happens next: the first action that can be started is started, and if there is
none, the action that has been running longest is released. So it does not matter how far the
worker is ahead.

## Main definitions

* `Line`: the queue, the labels held, and what has been started so far, in order.
* `Line.Next`: what happens next in a line.

## Main results

* `Line.next_rightUnique`: there is no choice.
* `Task.Underway.line_turn`: a turn is a step of the line, or none.
* `Task.Underway.same_order`: all interleavings do the jobs in the same order.
-/

namespace BackupRetention

namespace Standing

/-- Whether an action can be started while `held` is held. -/
def Eligible (held : List Label) (a : Standing) : Prop :=
  a.running = false ∧ Schedule.free a.labels held

/-- Whether `a` is the running action with number `id`. -/
def isRun (id : ActionId) (a : Standing) : Bool :=
  a.id = id ∧ a.running

end Standing

/-- The queue and the labels held, and what has been started so far, in order. -/
structure Line where
  view : View
  begun : List ActionId

namespace Line

/-- What happens next where every action is released after those started before it. -/
inductive Next : Line → Line → Prop where
  /-- The first action that can be started is started. -/
  | start {earlier later : List Standing} {a : Standing} {held : List Label}
      {begun : List ActionId} (eligible : a.Eligible held)
      (first : ∀ b ∈ earlier, ¬ b.Eligible held) :
      Next ⟨⟨earlier ++ a :: later, held⟩, begun⟩
        ⟨⟨earlier ++ { a with running := true } :: later, Schedule.claim a.labels held⟩,
          begun ++ [a.id]⟩
  /-- If there is none, the action that has been running longest is released. -/
  | release {queue : List Standing} {a : Standing} {held : List Label} {begun : List ActionId}
      {id : ActionId} (settled : ∀ b ∈ queue, ¬ b.Eligible held)
      (oldest : begun.find? (fun i => queue.any (Standing.isRun i)) = some id)
      (found : queue.find? (Standing.isRun id) = some a) :
      Next ⟨⟨queue, held⟩, begun⟩
        ⟨⟨queue.eraseP (Standing.isRun id), Schedule.unclaim a.labels held⟩, begun⟩

/-- Only one member of a list is the first with some property. -/
theorem eq_of_first {α : Type} {P : α → Prop} {l₁ l₂ k₁ k₂ : List α} {a b : α}
    (same : l₁ ++ a :: k₁ = l₂ ++ b :: k₂) (ha : P a) (hb : P b) (first₁ : ∀ x ∈ l₁, ¬ P x)
    (first₂ : ∀ x ∈ l₂, ¬ P x) : l₁ = l₂ ∧ a = b ∧ k₁ = k₂ := by
  induction l₁ generalizing l₂ with
  | nil =>
    cases l₂ with
    | nil => simpa using same
    | cons y l₂ =>
      obtain ⟨rfl, -⟩ := List.cons.inj same
      exact absurd ha (first₂ a List.mem_cons_self)
  | cons x l₁ ih =>
    cases l₂ with
    | nil =>
      obtain ⟨rfl, -⟩ := List.cons.inj same
      exact absurd hb (first₁ x List.mem_cons_self)
    | cons y l₂ =>
      obtain ⟨rfl, rest⟩ := List.cons.inj same
      obtain ⟨rfl, rfl, rfl⟩ := ih rest (fun z hz => first₁ z (List.mem_cons_of_mem _ hz))
        fun z hz => first₂ z (List.mem_cons_of_mem _ hz)
      exact ⟨rfl, rfl, rfl⟩

/-- There is no choice of what happens next. -/
theorem next_rightUnique : Relator.RightUnique Next := by
  intro l m n hm hn
  obtain ⟨⟨queue, held⟩, begun⟩ := l
  generalize hq : (⟨⟨queue, held⟩, begun⟩ : Line) = l' at hn
  cases hm with
  | start eligible first =>
    cases hn with
    | start eligible' first' =>
      obtain ⟨⟨same, rfl⟩, rfl⟩ := by simpa using hq
      obtain ⟨rfl, rfl, rfl⟩ := eq_of_first same eligible eligible' first first'
      rfl
    | release settled oldest found =>
      obtain ⟨⟨rfl, rfl⟩, rfl⟩ := by simpa using hq
      exact absurd eligible (settled _ (by simp))
  | release settled oldest found =>
    cases hn with
    | start eligible first =>
      obtain ⟨⟨rfl, rfl⟩, rfl⟩ := by simpa using hq
      exact absurd eligible (settled _ (by simp))
    | release settled' oldest' found' =>
      obtain ⟨⟨rfl, rfl⟩, rfl⟩ := by simpa using hq
      obtain rfl := Option.some.inj (oldest.symm.trans oldest')
      obtain rfl := Option.some.inj (found.symm.trans found')
      rfl

/-- What has been started stays so. -/
theorem begun_prefix {l m : Line} (h : Relation.ReflTransGen Next l m) : l.begun <+: m.begun := by
  induction h with
  | refl => exact List.prefix_rfl
  | tail _ next ih =>
    cases next with
    | start => exact ih.trans (List.prefix_append ..)
    | release => exact ih

/-- Where nothing is queued, nothing happens. -/
theorem eq_of_empty {l m : Line} (h : Relation.ReflTransGen Next l m)
    (none : l.view.queue = []) : m = l := by
  induction h with
  | refl => rfl
  | tail _ next ih =>
    subst ih
    cases next with
    | start => simp at none
    | release _ _ found =>
      subst none
      simp at found

end Line

namespace Schedule

/-- What a single worker makes of a schedule. -/
def line {σ : Type} (s : Schedule σ) : Line := ⟨s.view, (Journal.started s.journal).reverse⟩

/-- What has been started is done or still to do, in the order of the starts. -/
def InOrder {τ ρ : Type} (s : Schedule (Pool τ ρ)) : Prop :=
  (Journal.started s.journal).reverse = s.world.done ++ s.world.waiting

theorem Settled.standing {σ : Type} {s : Schedule σ} (h : s.Settled) :
    ∀ a ∈ s.view.queue, ¬ a.Eligible s.held := by
  intro a ha
  obtain ⟨e, he, rfl⟩ := List.mem_map.1 ha
  exact h e he

theorem Start.line {σ : Type} {s t : Schedule σ} (h : Start s t) : Line.Next s.line t.line := by
  obtain ⟨earlier, e, later, queue, eligible, first⟩ := h
  have before : s.line = ⟨⟨earlier.map Entry.standing ++ e.standing :: later.map Entry.standing,
      s.held⟩, (Journal.started s.journal).reverse⟩ := by
    simp [Schedule.line, view, queue]
  have after : (s.begun earlier e later).line = ⟨⟨earlier.map Entry.standing ++
      { e.standing with running := true } :: later.map Entry.standing,
      claim e.standing.labels s.held⟩, (Journal.started s.journal).reverse ++ [e.standing.id]⟩ := by
    simp [Schedule.line, view, begun, note, Event.starts, Entry.standing, Entry.labels]
  rw [before, after]
  refine .start eligible fun a ha => ?_
  obtain ⟨x, hx, rfl⟩ := List.mem_map.1 ha
  exact first x hx

end Schedule

namespace Task

open Schedule Execution

variable {τ ρ : Type} {tasks : List (Task τ ρ)} {shared : τ} {pending : List ActionId}

namespace Books

variable {s t : Schedule (Pool τ ρ)}

/-- A completion that comes in the order of the starts releases what has been running longest. -/
theorem line_release {id : ActionId} {e : Entry (Pool τ ρ)}
    (h : Books tasks shared (id :: pending) s) (inOrder : InOrder s) (settled : s.Settled)
    (release : s.release? id = some (e, t)) :
    Line.Next s.line (t.note (.finished id e.action.name)).line := by
  have running : s.isRunning id = true := by
    rw [← Bool.not_eq_false, ← release?_eq_none_iff, release]
    exact Option.some_ne_none _
  unfold release? at release
  rcases hf : s.entries.find? (isRun id) with _ | f <;> rw [hf] at release
  · contradiction
  obtain ⟨rfl, rfl⟩ : f = e ∧ _ = t := by simpa using release
  have found : s.view.queue.find? (Standing.isRun id) = some f.standing := by
    rw [view, List.find?_map]
    exact congrArg (Option.map Entry.standing) hf
  have erased : s.view.queue.eraseP (Standing.isRun id) =
      (s.entries.eraseP (isRun id)).map Entry.standing := List.eraseP_map ..
  have runs : (fun i => (s.entries.map Entry.standing).any (Standing.isRun i)) = s.isRunning :=
    funext fun i => List.any_map
  have next : Line.Next s.line ⟨⟨s.view.queue.eraseP (Standing.isRun id),
      unclaim f.standing.labels s.held⟩, (Journal.started s.journal).reverse⟩ := by
    refine .release settled.standing ?_ found
    rw [runs]
    refine List.find?_eq_some_iff_append.2 ⟨running, (Journal.finished s.journal).reverse,
      pending ++ (s.world.reported ++ s.world.waiting), ?_, ?_⟩
    · rw [inOrder, h.handled]
      simp
    · intro i hi
      simp [h.balanced.not_running_of_finished (List.mem_reverse.1 hi)]
  rw [erased] at next
  exact next

end Books

namespace Underway

variable {x y : Execution (Pool τ ρ)}

/-- With a single worker, a turn is a step of the line, or none, and jobs are done in the order of
the starts. -/
theorem line_turn (h : Underway tasks shared pending x) (inOrder : InOrder x.schedule)
    (turn : Turn (· = 0) x y) : InOrder y.schedule ∧
      Relation.ReflTransGen Line.Next x.schedule.line y.schedule.line := by
  cases turn with
  | work n place job =>
    obtain rfl : n = 0 := place
    obtain ⟨before, id, work, after, queue, none, hstep⟩ := Pool.step_of_lt job
    obtain rfl := List.length_eq_zero_iff.1 none
    refine ⟨?_, .refl⟩
    have order := inOrder
    simp only [InOrder, Execution.work, hstep, Pool.done, Pool.waiting] at order ⊢
    simp [order, queue]
  | start admits start =>
    refine ⟨?_, .single start.line⟩
    obtain ⟨earlier, e, later, queue, eligible, first⟩ := start
    obtain ⟨task, -, -, spawned⟩ := h.books.world_begun queue
    have order := inOrder
    simp only [InOrder] at order ⊢
    rw [spawned]
    simp [begun, note, Event.starts, order]
  | go ready =>
    obtain ⟨later, went⟩ := h.went ready
    generalize x.step Pool.loop = y at went
    cases went with
    | on => exact ⟨inOrder, .refl⟩
    | fetched => exact ⟨inOrder, .refl⟩
    | released completes settled release =>
      refine ⟨?_, .single (h.books.line_release inOrder settled release)⟩
      obtain ⟨l₁, l₂, -, -, -, rfl⟩ := release?_eq_some release
      exact inOrder

theorem line_turns (h : Underway tasks shared pending x) (inOrder : InOrder x.schedule)
    (turns : Turns (· = 0) x y) : InOrder y.schedule ∧
      Relation.ReflTransGen Line.Next x.schedule.line y.schedule.line := by
  induction turns with
  | refl => exact ⟨inOrder, .refl⟩
  | tail turns turn ih =>
    obtain ⟨_, under⟩ := h.turns turns
    obtain ⟨ordered, next⟩ := under.line_turn ih.1 turn
    exact ⟨ordered, ih.2.trans next⟩

/-- With a single worker all interleavings do the jobs in the same order. -/
theorem same_order (h : Underway tasks shared pending x) (inOrder : InOrder x.schedule) :
    ∃ order, ∀ y, Turns (· = 0) x y → y.schedule.world.done <+: order ∧
      (y.isBack = true → y.schedule.world.done = order) := by
  have ordered {y : Execution (Pool τ ρ)} (turns : Turns (· = 0) x y) :
      y.schedule.world.done <+: y.schedule.line.begun ∧ (y.isBack = true →
        y.schedule.world.done = y.schedule.line.begun ∧ y.schedule.line.view.queue = []) := by
    obtain ⟨inOrder', -⟩ := h.line_turns inOrder turns
    refine ⟨?_, fun back => ?_⟩
    · rw [Schedule.line, inOrder']
      exact List.prefix_append ..
    obtain ⟨_, under⟩ := h.turns turns
    obtain ⟨-, -, none, rfl⟩ := under.served back
    have queue := (under.books.all_done none).1
    refine ⟨?_, ?_⟩
    · rw [Schedule.line, inOrder', Pool.waiting, queue, List.map_nil, List.append_nil]
    · rw [Schedule.line, view, none, List.map_nil]
  obtain ⟨z, toZ, backZ⟩ : ∃ z, Turns (· = 0) x z ∧ z.isBack = true := h.exists_back rfl
  obtain ⟨doneZ, noneZ⟩ := (ordered toZ).2 backZ
  refine ⟨z.schedule.world.done, fun y toY => ?_⟩
  have lineZ := (h.line_turns inOrder toZ).2
  have lineY := (h.line_turns inOrder toY).2
  have toEnd : Relation.ReflTransGen Line.Next y.schedule.line z.schedule.line := by
    rcases Relation.ReflTransGen.total_of_right_unique Line.next_rightUnique lineY lineZ with h | h
    · exact h
    · rw [Line.eq_of_empty h noneZ]
  refine ⟨doneZ ▸ (ordered toY).1.trans (Line.begun_prefix toEnd), fun backY => ?_⟩
  obtain ⟨doneY, noneY⟩ := (ordered toY).2 backY
  rw [doneY, doneZ, Line.eq_of_empty toEnd noneY]

end Underway

theorem inOrder_opening (tasks : List (Task τ ρ)) (shared : τ) :
    InOrder (opening tasks shared).schedule := by
  rw [InOrder, opening, (quiet_ofActions _ _).1, (queued_ofActions _ _).2.2]
  rfl

end Task

end BackupRetention
