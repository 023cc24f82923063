import BackupRetention.Proofs.Schedule.Moves
import BackupRetention.Proofs.Schedule.Journal
import Mathlib.Data.List.Forall2

/-!
# Schedules that are alike

Actions know only a part of the world, and `own` tells this part. What the rest of the world is
makes no difference to them, so schedules that agree in all but the rest go on alike. Hooks are
those that look, write, queue actions and end, and do not call the schedule back.

## Main definitions

* `Action.Alike`, `Hook.Alike`: two of them do the same in worlds with the same own part.
* `Schedule.Alike`: the same queue, the same history but for the waits, and the same own part.

## Main results

* `Schedule.Alike.handleAll`: completions that are handled well are handled alike.
-/

namespace BackupRetention

variable {σ τ : Type}

mutual

/-- Two actions do the same in worlds with the same own part. -/
inductive Action.Alike (own : σ → τ) : Action σ → Action σ → Prop where
  | mk {name : String} {labels : List Label} {start start' : ActionId → σ → Except Fault Unit × σ}
      {hook hook' : ActionId → Hook σ}
      (starts : ∀ id w w', own w = own w' →
        (start id w).1 = (start' id w').1 ∧ own (start id w).2 = own (start' id w').2)
      (hooks : ∀ id, Hook.Alike own (hook id) (hook' id)) :
      Action.Alike own (.mk name labels start hook) (.mk name labels start' hook')

/-- Two hooks do the same in worlds with the same own part, and neither reports a completion or
runs the schedule. -/
inductive Hook.Alike (own : σ → τ) : Hook σ → Hook σ → Prop where
  | finish (outcome : Except Fault Unit) : Hook.Alike own (.finish outcome) (.finish outcome)
  | look {next next' : View → σ → Hook σ}
      (h : ∀ view w w', own w = own w' → Hook.Alike own (next view w) (next' view w')) :
      Hook.Alike own (.look next) (.look next')
  | put {world world' : σ} {next next' : Hook σ} (hw : own world = own world')
      (h : Hook.Alike own next next') : Hook.Alike own (.put world next) (.put world' next')
  | add {action action' : Action σ} {next next' : ActionId → Hook σ}
      (ha : Action.Alike own action action') (h : ∀ id, Hook.Alike own (next id) (next' id)) :
      Hook.Alike own (.add action next) (.add action' next')

end

variable {own : σ → τ}

mutual

theorem Action.Alike.symm : ∀ {a b : Action σ}, a.Alike own b → b.Alike own a
  | _, _, .mk starts hooks =>
    .mk (fun id w w' h => ⟨(starts id w' w h.symm).1.symm, (starts id w' w h.symm).2.symm⟩)
      fun id => (hooks id).symm

theorem Hook.Alike.symm : ∀ {a b : Hook σ}, a.Alike own b → b.Alike own a
  | _, _, .finish outcome => .finish outcome
  | _, _, .look h => .look fun view w w' hw => (h view w' w hw.symm).symm
  | _, _, .put hw h => .put hw.symm h.symm
  | _, _, .add ha h => .add ha.symm fun id => (h id).symm

end

mutual

theorem Action.Alike.trans : ∀ {a b c : Action σ}, a.Alike own b → b.Alike own c → a.Alike own c
  | _, _, _, .mk starts hooks, .mk starts' hooks' =>
    .mk (fun id w w' h => ⟨(starts id w w rfl).1.trans (starts' id w w' h).1,
        (starts id w w rfl).2.trans (starts' id w w' h).2⟩)
      fun id => (hooks id).trans (hooks' id)

theorem Hook.Alike.trans : ∀ {a b c : Hook σ}, a.Alike own b → b.Alike own c → a.Alike own c
  | _, _, _, .finish outcome, .finish _ => .finish outcome
  | _, _, _, .look h, .look h' =>
    .look fun view w w' hw => (h view w w rfl).trans (h' view w w' hw)
  | _, _, _, .put hw h, .put hw' h' => .put (hw.trans hw') (h.trans h')
  | _, _, _, .add ha h, .add ha' h' => .add (ha.trans ha') fun id => (h id).trans (h' id)

end

theorem Action.Alike.labels {a b : Action σ} (h : a.Alike own b) : a.labels = b.labels := by
  cases h
  rfl

theorem Action.Alike.name {a b : Action σ} (h : a.Alike own b) : a.name = b.name := by
  cases h
  rfl

theorem Action.Alike.start {a b : Action σ} (h : a.Alike own b) (id : ActionId) {w w' : σ}
    (hw : own w = own w') :
    (a.start id w).1 = (b.start id w').1 ∧ own (a.start id w).2 = own (b.start id w').2 := by
  cases h with
  | mk starts hooks => exact starts id w w' hw

theorem Action.Alike.hook {a b : Action σ} (h : a.Alike own b) (id : ActionId) :
    Hook.Alike own (a.hook id) (b.hook id) := by
  cases h with
  | mk starts hooks => exact hooks id

/-- A queued action with an alike one in its place. -/
structure Entry.Alike (own : σ → τ) (e e' : Entry σ) : Prop where
  id : e.id = e'.id
  action : e.action.Alike own e'.action
  running : e.running = e'.running

namespace Entry.Alike

variable {e e' : Entry σ}

theorem labels (h : e.Alike own e') : e.labels = e'.labels := h.action.labels

theorem standing (h : e.Alike own e') : e.standing = e'.standing := by
  simp only [Entry.standing, h.id, h.action.name, h.labels, h.running]

theorem eligible_iff (h : e.Alike own e') (held : List Label) :
    Schedule.Eligible held e ↔ Schedule.Eligible held e' := by
  simp only [Schedule.Eligible, h.running, h.labels]

theorem isRun (h : e.Alike own e') (id : ActionId) :
    Schedule.isRun id e = Schedule.isRun id e' := by
  simp only [Schedule.isRun, h.id, h.running]

end Entry.Alike

/-- Waiting is over, well or not. -/
def Event.isWait : Event → Bool
  | .delivered _ => true
  | .stalled => true
  | _ => false

namespace Journal

/-- All that has happened but for the waits. -/
def deeds (j : List Moment) : List Moment := j.filter fun m => !m.event.isWait

/-- The completions that waits have brought, in the order in which they came. -/
def brought (j : List Moment) : List ActionId := j.reverse.flatMap (·.event.deliveries)

@[simp] theorem brought_cons (m : Moment) (j : List Moment) :
    brought (m :: j) = brought j ++ m.event.deliveries := by
  simp [brought]

theorem brought_prefix {j k : List Moment} (h : j <:+ k) : brought j <+: brought k := by
  obtain ⟨later, rfl⟩ := h
  simp [brought]

end Journal

namespace Schedule

/-- Admission brings no completions. -/
@[simp] theorem brought_startEligible (s : Schedule σ) :
    Journal.brought s.startEligible.2.journal = Journal.brought s.journal := by
  have starts := startEligible_starts s
  generalize s.startEligible.2 = t at starts ⊢
  induction starts with
  | refl => rfl
  | tail _ start ih =>
    obtain ⟨m, hj, id, name, hev⟩ := start.journal
    rw [hj, Journal.brought_cons, hev, ih]
    exact List.append_nil _

/-- Two schedules with the same queue and the same history, but for the waits, in worlds with
the same own part. -/
structure Alike (own : σ → τ) (s t : Schedule σ) : Prop where
  entries : List.Forall₂ (Entry.Alike own) s.entries t.entries
  held : s.held = t.held
  nextId : s.nextId = t.nextId
  deeds : Journal.deeds s.journal = Journal.deeds t.journal
  world : own s.world = own t.world

namespace Alike

variable {s s' t : Schedule σ}

theorem symm (h : s.Alike own t) : t.Alike own s where
  entries := (h.entries.imp fun _ _ e => ⟨e.id.symm, e.action.symm, e.running.symm⟩).flip
  held := h.held.symm
  nextId := h.nextId.symm
  deeds := h.deeds.symm
  world := h.world.symm

theorem entries_trans {l₁ l₂ l₃ : List (Entry σ)} (h : List.Forall₂ (Entry.Alike own) l₁ l₂)
    (g : List.Forall₂ (Entry.Alike own) l₂ l₃) : List.Forall₂ (Entry.Alike own) l₁ l₃ := by
  induction h generalizing l₃ with
  | nil => exact g
  | cons he _ ih =>
    cases g with
    | cons ge g =>
      exact .cons ⟨he.id.trans ge.id, he.action.trans ge.action, he.running.trans ge.running⟩ (ih g)

theorem trans (h : s.Alike own s') (g : s'.Alike own t) : s.Alike own t where
  entries := entries_trans h.entries g.entries
  held := h.held.trans g.held
  nextId := h.nextId.trans g.nextId
  deeds := h.deeds.trans g.deeds
  world := h.world.trans g.world

theorem view (h : s.Alike own t) : s.view = t.view := by
  have queue : s.entries.map Entry.standing = t.entries.map Entry.standing := by
    apply List.forall₂_eq_eq_eq ▸ List.rel_map ?_ h.entries
    exact fun _ _ e => Entry.Alike.standing e
  rw [Schedule.view, Schedule.view, queue, h.held]

theorem isEmpty (h : s.Alike own t) : s.isEmpty = t.isEmpty := by
  have alike := h.entries
  unfold Schedule.isEmpty
  generalize s.entries = l, t.entries = l' at alike ⊢
  cases alike <;> rfl

theorem note (h : s.Alike own t) (event : Event) : (s.note event).Alike own (t.note event) where
  entries := h.entries
  held := h.held
  nextId := h.nextId
  deeds := by
    have same := h.deeds
    simp only [Journal.deeds] at same
    simp only [Schedule.note, Journal.deeds, List.filter_cons, h.view, same]
  world := h.world

theorem put (h : s.Alike own t) {w w' : σ} (hw : own w = own w') :
    Schedule.Alike own { s with world := w } { t with world := w' } :=
  ⟨h.entries, h.held, h.nextId, h.deeds, hw⟩

/-- The waits of one schedule make no difference. -/
theorem await (h : s.Alike own t) {loop : EventLoop σ}
    (quiet : ∀ w, own (loop.wait w).2 = own w) : s.Alike own (t.await loop).2 := by
  have same := quiet t.world
  unfold Schedule.await
  rcases hw : loop.wait t.world with ⟨f | ids, w⟩ <;> rw [hw] at same <;>
    exact ⟨h.entries, h.held, h.nextId, h.deeds, h.world.trans same.symm⟩

theorem add (h : s.Alike own t) {a b : Action σ} (hab : a.Alike own b) :
    (s.add a).1 = (t.add b).1 ∧ (s.add a).2.Alike own (t.add b).2 := by
  have id : (⟨s.nextId⟩ : ActionId) = ⟨t.nextId⟩ := congrArg _ h.nextId
  have queued : Schedule.Alike own
      { s with entries := s.entries ++ [⟨⟨s.nextId⟩, a, false⟩], nextId := s.nextId + 1 }
      { t with entries := t.entries ++ [⟨⟨t.nextId⟩, b, false⟩], nextId := t.nextId + 1 } :=
    ⟨List.rel_append h.entries (.cons ⟨id, hab, rfl⟩ .nil), h.held, congrArg (· + 1) h.nextId,
      h.deeds, h.world⟩
  exact ⟨id, by simpa only [Schedule.add, id] using queued.note (.added ⟨s.nextId⟩)⟩

theorem begun {earlier earlier' later later' : List (Entry σ)} {e e' : Entry σ}
    (h : s.Alike own t) (he : e.Alike own e')
    (queue : List.Forall₂ (Entry.Alike own) (earlier ++ { e with running := true } :: later)
      (earlier' ++ { e' with running := true } :: later')) :
    (s.begun earlier e later).Alike own (t.begun earlier' e' later') := by
  obtain ⟨id, a, r⟩ := e
  obtain ⟨id', b, r'⟩ := e'
  obtain rfl : id = id' := he.id
  have claimed : Schedule.Alike own
      { s with entries := earlier ++ ⟨id, a, true⟩ :: later, held := claim a.labels s.held }
      { t with entries := earlier' ++ ⟨id, b, true⟩ :: later', held := claim b.labels t.held } :=
    ⟨queue, by rw [he.action.labels, h.held], h.nextId, h.deeds, h.world⟩
  have noted := claimed.note (.started id a.name)
  have begun := noted.put (he.action.start id h.world).2
  unfold Schedule.begun
  simpa only [he.action.name, Entry.labels] using begun

theorem startFrom {earlier earlier' later later' : List (Entry σ)} (h : s.Alike own t)
    (before : List.Forall₂ (Entry.Alike own) earlier earlier')
    (rest : List.Forall₂ (Entry.Alike own) later later') :
    (Schedule.startFrom earlier s later).1 = (Schedule.startFrom earlier' t later').1 ∧
      (Schedule.startFrom earlier s later).2.Alike own
        (Schedule.startFrom earlier' t later').2 := by
  induction rest generalizing s t earlier earlier' with
  | nil => exact ⟨rfl, before, h.held, h.nextId, h.deeds, h.world⟩
  | @cons e e' later later' he rest ih =>
    by_cases eligible : Eligible s.held e
    · have eligible' : Eligible t.held e' := (he.eligible_iff _).1 (h.held ▸ eligible)
      have running : Entry.Alike own { e with running := true } { e' with running := true } :=
        ⟨he.id, he.action, rfl⟩
      have begun : (s.begun earlier e later).Alike own (t.begun earlier' e' later') :=
        h.begun he (List.rel_append before (.cons running rest))
      rw [startFrom_of_eligible eligible, startFrom_of_eligible eligible',
        (he.action.start e.id h.world).1, he.id]
      cases (e'.action.start e'.id t.world).1 with
      | error f => exact ⟨rfl, begun⟩
      | ok => exact ih begun (List.rel_append before (.cons (he.id ▸ running) .nil))
    · have passed : ¬ Eligible t.held e' := fun eligible' =>
        eligible ((he.eligible_iff _).2 (h.held ▸ eligible'))
      rw [Schedule.startFrom, if_neg eligible, Schedule.startFrom, if_neg passed]
      exact ih h (List.rel_append before (.cons he .nil))

theorem startEligible (h : s.Alike own t) : s.startEligible.1 = t.startEligible.1 ∧
    s.startEligible.2.Alike own t.startEligible.2 :=
  h.startFrom .nil h.entries

/-- Alike queues are searched alike, and the rest of them is alike. -/
theorem find_erase {l l' : List (Entry σ)} (h : List.Forall₂ (Entry.Alike own) l l')
    {id : ActionId} {e : Entry σ} (hf : l.find? (isRun id) = some e) :
    ∃ e', l'.find? (isRun id) = some e' ∧ e.Alike own e' ∧
      List.Forall₂ (Entry.Alike own) (l.eraseP (isRun id)) (l'.eraseP (isRun id)) := by
  induction h with
  | nil => simp at hf
  | @cons x x' l l' hx rest ih =>
    have same := hx.isRun id
    by_cases run : isRun id x
    · rw [run] at same
      rw [List.find?_cons_of_pos run, Option.some.injEq] at hf
      subst hf
      rw [List.eraseP_cons_of_pos run, List.eraseP_cons_of_pos same.symm]
      exact ⟨x', List.find?_cons_of_pos same.symm, hx, rest⟩
    · have run' : ¬ isRun id x' = true := same ▸ run
      rw [List.find?_cons_of_neg run] at hf
      obtain ⟨e', hf', he, erased⟩ := ih hf
      rw [List.find?_cons_of_neg run', List.eraseP_cons_of_neg run, List.eraseP_cons_of_neg run']
      exact ⟨e', hf', he, .cons hx erased⟩

theorem release? (h : s.Alike own t) {id : ActionId} {e : Entry σ} {u : Schedule σ}
    (hr : s.release? id = some (e, u)) :
    ∃ e' u', t.release? id = some (e', u') ∧ e.Alike own e' ∧ u.Alike own u' ∧
      u'.journal = t.journal := by
  unfold Schedule.release? at hr ⊢
  cases hf : s.entries.find? (isRun id) with
  | none => simp [hf] at hr
  | some x =>
    simp only [hf, Option.some.injEq, Prod.mk.injEq] at hr
    obtain ⟨rfl, rfl⟩ := hr
    obtain ⟨e', hf', he, erased⟩ := find_erase h.entries hf
    simp only [hf', Option.some.injEq, Prod.mk.injEq]
    refine ⟨e', _, ⟨rfl, rfl⟩, he, ⟨erased, ?_, h.nextId, h.deeds, h.world⟩, rfl⟩
    rw [he.labels, h.held]

section Answers

variable {loop : EventLoop σ} (loop' : EventLoop σ) {n : Nat} {o : Except Fault Unit}

/-- Hooks that are alike are gone through alike, whatever the loops. -/
theorem follow {hook hook' : Hook σ} (hh : hook.Alike own hook') (h : s.Alike own s')
    (answer : Schedule.follow loop n hook s = some (o, t)) :
    ∃ t', Schedule.follow loop' n hook' s' = some (o, t') ∧ t.Alike own t' ∧
      Journal.brought t'.journal = Journal.brought s'.journal := by
  induction n generalizing hook hook' s s' with
  | zero => simp [Schedule.follow] at answer
  | succ n ih =>
    cases hh with
    | finish outcome =>
      simp only [Schedule.follow, Option.some.injEq, Prod.mk.injEq] at answer
      obtain ⟨rfl, rfl⟩ := answer
      exact ⟨s', rfl, h, rfl⟩
    | look hn => exact ih (h.view ▸ hn s.view s.world s'.world h.world) h answer
    | put hw hn => exact ih hn (h.put hw) answer
    | add ha hn =>
      obtain ⟨id, queued⟩ := h.add ha
      simp only [Schedule.follow, id] at answer ⊢
      obtain ⟨t', answer', alike, brought⟩ := ih (hn _) queued answer
      exact ⟨t', answer', alike,
        brought.trans (by simp [Schedule.add, Schedule.note, Event.deliveries])⟩

/-- A completion that is handled well is handled alike. -/
theorem completed {id : ActionId} (h : s.Alike own s')
    (answer : Schedule.completed loop n id s = some (.ok (), t)) :
    ∃ t', Schedule.completed loop' n id s' = some (.ok (), t') ∧ t.Alike own t' ∧
      Journal.brought t'.journal = Journal.brought s'.journal := by
  cases n with
  | zero => simp [Schedule.completed] at answer
  | succ n =>
    rw [Schedule.completed] at answer ⊢
    rcases hr : s.release? id with _ | ⟨e, u⟩
    · simp [hr] at answer
    · obtain ⟨e', u', hr', he, alike, journal⟩ := h.release? hr
      simp only [hr] at answer
      simp only [hr']
      rcases hf : Schedule.follow loop n (e.action.hook id)
        (u.note (.finished id e.action.name)) with _ | ⟨_ | _, v⟩
      · simp [hf] at answer
      · simp [hf] at answer
      · obtain ⟨v', hf', alike', brought⟩ :=
          follow loop' (he.action.hook id) (alike.note (.finished id e.action.name)) hf
        rw [he.action.name] at hf'
        simp only [hf, Option.some.injEq] at answer
        obtain ⟨outcome, admitted⟩ := alike'.startEligible
        rw [answer] at outcome admitted
        refine ⟨v'.startEligible.2, ?_, admitted, ?_⟩
        · simp only [hf']
          exact congrArg some (Prod.ext outcome.symm rfl)
        · rw [brought_startEligible, brought]
          simp [Schedule.note, Event.deliveries, journal]

/-- Completions that are handled well are handled alike, whatever the loops. -/
theorem handleAll {ids : List ActionId} (h : s.Alike own s')
    (answer : Schedule.handleAll loop n ids s = some (.ok (), t)) :
    ∃ t', Schedule.handleAll loop' n ids s' = some (.ok (), t') ∧ t.Alike own t' ∧
      Journal.brought t'.journal = Journal.brought s'.journal := by
  induction n generalizing ids s s' with
  | zero => simp [Schedule.handleAll] at answer
  | succ n ih =>
    cases ids with
    | nil =>
      simp only [Schedule.handleAll, Option.some.injEq, Prod.mk.injEq, true_and] at answer
      subst answer
      exact ⟨s', rfl, h, rfl⟩
    | cons id ids =>
      rw [Schedule.handleAll] at answer ⊢
      rcases hc : Schedule.completed loop n id s with _ | ⟨_ | _, u⟩
      · simp [hc] at answer
      · simp [hc] at answer
      · obtain ⟨u', hc', alike, brought⟩ := h.completed loop' hc
        simp only [hc] at answer
        simp only [hc']
        obtain ⟨t', answer', alike', brought'⟩ := ih alike answer
        exact ⟨t', answer', alike', brought'.trans brought⟩

end Answers

end Alike

end Schedule

end BackupRetention
