import BackupRetention.Proofs.Schedule.Lifecycle
import BackupRetention.Prune.Pass
import Mathlib.Data.List.Pairwise
import Mathlib.Data.List.Perm.Subperm

/-!
# Precedence

Admission passes over what cannot be started yet, so actions that need different labels may well be
started in another order than they were queued. But an action that needs all labels of an action
queued before it waits behind that one: as long as the first one is idle, one of its labels is held
whenever admission has passed over it, and the second one needs this label too.

## Main definitions

* `Journal.queued`: what was queued, with the labels that it had then.
* `Schedule.KeepsOrder`: nothing has overtaken what needs no more labels than itself.

## Main results

* `Schedule.Unpassed.move`: no move lets an action overtake another.
* `Execution.never_overtaken`: so it is in every history.
-/

namespace BackupRetention

/-- The action that is queued at this moment, as others see it. -/
def Moment.newcomers (m : Moment) : List Standing :=
  m.view.queue.filter (·.id ∈ m.event.additions)

namespace Journal

/-- The actions that were queued, as others saw them then, latest first. -/
def queued (j : List Moment) : List Standing := j.flatMap Moment.newcomers

@[simp] theorem queued_cons (m : Moment) (j : List Moment) :
    queued (m :: j) = m.newcomers ++ queued j := rfl

/-- The queued actions that need the label `x` and no other, latest first. -/
def needing (x : Label) (j : List Moment) : List ActionId :=
  ((queued j).filter fun a => x ∈ a.labels ∧ ∀ y ∈ a.labels, y = x).map Standing.id

/-- In a list that stands latest first, `x` comes before `y`. -/
def Precedes {α : Type} (l : List α) (x y : α) : Prop := [y, x].Sublist l

instance {α : Type} [DecidableEq α] (l : List α) (x y : α) : Decidable (Precedes l x y) :=
  inferInstanceAs (Decidable (List.Sublist _ _))

section Precedes

variable {α : Type} {l l' : List α} {x y z : α}

theorem precedes_cons_iff : Precedes (z :: l) x y ↔ Precedes l x y ∨ y = z ∧ x ∈ l := by
  simp [Precedes, List.sublist_cons_iff, eq_comm]

theorem Precedes.mono (h : Precedes l x y) (hl : l.Sublist l') : Precedes l' x y :=
  List.Sublist.trans h hl

theorem Precedes.mem_left (h : Precedes l x y) : x ∈ l := h.subset (by simp)

theorem Precedes.mem_right (h : Precedes l x y) : y ∈ l := h.subset (by simp)

/-- Where nothing stands twice, one of two comes first. -/
theorem Precedes.asymm (h : Precedes l x y) (distinct : l.Nodup) : ¬ Precedes l y x := by
  induction l with
  | nil => simpa using h.mem_left
  | cons z l ih =>
    obtain ⟨new, distinct⟩ := List.nodup_cons.1 distinct
    rw [precedes_cons_iff] at h ⊢
    rintro (h' | ⟨rfl, hy⟩)
    · rcases h with h | ⟨rfl, -⟩
      · exact ih h distinct h'
      · exact new h'.mem_left
    · rcases h with h | ⟨rfl, hx⟩
      · exact new h.mem_left
      · exact new hx

/-- Two members of a list that goes down stand in it as they compare. -/
theorem precedes_of_lt {f : α → Nat} (down : l.Pairwise fun x y => f y < f x) (hx : x ∈ l)
    (hy : y ∈ l) (less : f x < f y) : Precedes l x y := by
  induction l with
  | nil => simp at hx
  | cons z l ih =>
    obtain ⟨behind, down⟩ := List.pairwise_cons.1 down
    rw [precedes_cons_iff]
    rcases List.mem_cons.1 hx with rfl | inside
    · rcases List.mem_cons.1 hy with rfl | hy
      · exact absurd less (Nat.lt_irrefl _)
      · exact absurd (behind y hy) (Nat.lt_asymm less)
    · rcases List.mem_cons.1 hy with rfl | hy
      · exact .inr ⟨rfl, inside⟩
      · exact .inl (ih down inside hy)

theorem Precedes.lt {f : α → Nat} (h : Precedes l x y)
    (down : l.Pairwise fun x y => f y < f x) : f x < f y :=
  List.pairwise_iff_forall_sublist.1 down h

end Precedes

/-- What a list that goes down holds of another one, if it holds with each member all that is less,
is the end of that list. -/
theorem suffix_of_down {l k : List ActionId} (down : l.Pairwise fun x y => y.val < x.val)
    (down' : k.Pairwise fun x y => y.val < x.val) (inside : k ⊆ l)
    (less : ∀ x ∈ l, ∀ y ∈ k, x.val < y.val → x ∈ k) : k <:+ l := by
  induction l with
  | nil => exact List.subset_nil.1 inside ▸ List.suffix_rfl
  | cons z l ih =>
    obtain ⟨behind, downTail⟩ := List.pairwise_cons.1 down
    by_cases hz : z ∈ k
    · have all : z :: l ⊆ k := by
        intro x hx
        rcases List.mem_cons.1 hx with rfl | hx
        · exact hz
        · exact less x (List.mem_cons_of_mem _ hx) z hz (behind x hx)
      have distinct {m : List ActionId} (hm : m.Pairwise fun x y => y.val < x.val) : m.Nodup :=
        hm.imp fun less same => absurd (same ▸ less) (Nat.lt_irrefl _)
      have perm := (List.perm_ext_iff_of_nodup (distinct down') (distinct down)).2
        fun x => ⟨fun hx => inside hx, fun hx => all hx⟩
      have same := List.Perm.eq_of_pairwise (fun x y _ _ xy yx => absurd xy (Nat.lt_asymm yx))
        down' down perm
      exact same ▸ List.suffix_rfl
    · have tail : k ⊆ l := by
        intro x hx
        refine (List.mem_cons.1 (inside hx)).resolve_left ?_
        rintro rfl
        exact hz hx
      have lessTail : ∀ x ∈ l, ∀ y ∈ k, x.val < y.val → x ∈ k :=
        fun x hx => less x (List.mem_cons_of_mem _ hx)
      exact (ih downTail tail lessTail).trans (List.suffix_cons _ _)

end Journal

namespace Schedule

open Journal

variable {σ : Type} {loop : EventLoop σ} {s t : Schedule σ}

/-! ## What the journal tells of the queue -/

theorem queued_add (numbered : Numbered s) (action : Action σ) :
    queued (s.add action).2.journal =
      ⟨⟨s.nextId⟩, action.name, action.labels, false⟩ :: queued s.journal := by
  have others : ∀ e ∈ s.entries, e.id ≠ ⟨s.nextId⟩ := by
    intro e he same
    have given := numbered.given e he
    exact absurd (same ▸ given) (Nat.lt_irrefl _)
  simpa [add, note, view, Moment.newcomers, Event.additions, Entry.standing, Entry.labels]
    using others

/-- Only queuing changes what was queued. -/
theorem Move.queued_eq (h : Move loop s t) : (∃ action, t = (s.add action).2) ∨
    queued t.journal = queued s.journal ∧ added t.journal = added s.journal := by
  cases h with
  | add action => exact .inl ⟨action, rfl⟩
  | put world => exact .inr ⟨rfl, rfl⟩
  | start earlier e later queue eligible first =>
    right
    simp [begun, note, Moment.newcomers, Event.additions]
  | wait =>
    right
    unfold await
    split <;> simp [note, Moment.newcomers, Event.additions]
  | finish u id e release =>
    obtain ⟨l₁, l₂, -, -, -, rfl⟩ := release?_eq_some release
    right
    simp [note, Moment.newcomers, Event.additions]

namespace Balanced

theorem lt_nextId (h : Balanced s) {id : ActionId} (hid : id ∈ added s.journal) :
    id.val < s.nextId := by
  rw [h.numbers] at hid
  obtain ⟨n, hn, rfl⟩ := List.mem_map.1 hid
  simpa using hn

theorem added_of_started (h : Balanced s) {id : ActionId} (hid : id ∈ started s.journal) :
    id ∈ added s.journal := by
  have inQueue : s.runningIds ⊆ s.entries.map Entry.id := (List.filter_sublist.map _).subset
  have accounted := List.mem_append.1 (h.running.mem_iff.1 hid)
  exact h.queued.mem_iff.2 (List.mem_append.2 (accounted.imp_right fun running => inQueue running))

end Balanced

/-- What the journal tells of queuing is right: the numbers that were given out, and the labels of
what stands in the queue. -/
structure Told (s : Schedule σ) : Prop where
  ids : (queued s.journal).map Standing.id = added s.journal
  labels : ∀ e ∈ s.entries, ∀ a ∈ queued s.journal, a.id = e.id → a.labels = e.labels

namespace Told

theorem empty (world : σ) : Told (Schedule.empty world) :=
  ⟨rfl, by simp [Schedule.empty]⟩

theorem mem_added (h : Told s) {a : Standing} (ha : a ∈ queued s.journal) :
    a.id ∈ added s.journal :=
  h.ids ▸ List.mem_map_of_mem ha

/-- Numbers are given out one after the other. -/
theorem down (h : Told s) (balanced : Balanced s) :
    (queued s.journal).Pairwise fun a b => b.id.val < a.id.val := by
  have numbers : ((queued s.journal).map Standing.id).Pairwise fun a b => b.val < a.val := by
    rw [h.ids, balanced.numbers, List.pairwise_map, List.pairwise_reverse]
    exact List.pairwise_lt_range
  exact List.pairwise_map.1 numbers

theorem move (h : Told s) (numbered : Numbered s) (balanced : Balanced s) (move : Move loop s t) :
    Told t := by
  have old {a : Standing} (ha : a ∈ queued s.journal) : a.id.val ≠ s.nextId :=
    Nat.ne_of_lt (balanced.lt_nextId (h.mem_added ha))
  rcases move.queued_eq with ⟨action, rfl⟩ | ⟨same, numbers⟩
  · refine ⟨?_, ?_⟩
    · rw [queued_add numbered]
      simp [add, note, Event.additions, h.ids]
    · rw [queued_add numbered]
      simp only [add, note, List.mem_append, List.mem_cons, List.not_mem_nil, or_false]
      rintro e (he | rfl) a (rfl | ha) hid
      · exact absurd (numbered.given e he) (hid ▸ Nat.lt_irrefl _)
      · exact h.labels e he a ha hid
      · rfl
      · exact absurd (congrArg ActionId.val hid) (old ha)
  · refine ⟨?_, ?_⟩
    · rw [same, numbers, h.ids]
    · rw [same]
      intro e he a ha hid
      rcases move.entries.2 e he with new | ⟨e', he', hid', action⟩
      · have less := balanced.lt_nextId (h.mem_added ha)
        rw [hid] at less
        omega
      · rw [h.labels e' he' a ha (hid.trans hid'.symm), Entry.labels, action]
        rfl

end Told

/-! ## Nothing overtakes -/

/-- An action that needs all labels of one that was queued before it is started after it. -/
def Unpassed (s : Schedule σ) : Prop :=
  ∀ a b, Precedes (queued s.journal) a b → a.labels ⊆ b.labels → b.id ∈ started s.journal →
    Precedes (started s.journal) a.id b.id

/-- What was queued before an action that is started now, and needs none but its labels, has been
started: if it were idle, it would stand before that action in the queue, and one of its labels
would be held. -/
theorem started_before (told : Told s) (recorded : Recorded s) {earlier later : List (Entry σ)}
    {e : Entry σ} (queue : s.entries = earlier ++ e :: later) (eligible : Eligible s.held e)
    (first : ∀ x ∈ earlier, ¬ Eligible s.held x) {a b : Standing}
    (before : Precedes (queued s.journal) a b) (hb : b.id = e.id) (needs : a.labels ⊆ b.labels) :
    a.id ∈ started s.journal := by
  have balanced := recorded.balanced
  have he : e ∈ s.entries := by simp [queue]
  have less : a.id.val < e.id.val := hb ▸ before.lt (told.down balanced)
  have known := balanced.queued.mem_iff.1 (told.mem_added before.mem_left)
  rcases List.mem_append.1 known with released | waiting
  · exact balanced.started_of_finished released
  obtain ⟨x, hx, hid⟩ := List.mem_map.1 waiting
  by_cases running : x.running = true
  · exact hid ▸ (balanced.running_iff hx recorded.numbered).1 running
  -- An idle action before `e` could be started as well, since what it needs is free for `e`.
  have ahead : x ∈ earlier := by
    have ordered := recorded.numbered.ordered
    rw [queue] at hx ordered
    have behind := (List.pairwise_cons.1 (List.pairwise_append.1 ordered).2.1).1
    rcases List.mem_append.1 hx with hx | hx
    · exact hx
    · rcases List.mem_cons.1 hx with rfl | hx
      · rw [hid] at less
        omega
      · have := behind x hx
        rw [hid] at this
        omega
  refine absurd ⟨by simpa using running, fun y hy => ?_⟩ (first x ahead)
  rw [← told.labels x hx a before.mem_left hid.symm] at hy
  have needed := needs hy
  rw [told.labels e he b before.mem_right hb] at needed
  exact eligible.2 y needed

theorem Unpassed.move (h : Unpassed s) (told : Told s) (recorded : Recorded s)
    (move : Move loop s t) : Unpassed t := by
  cases move with
  | add action =>
    rw [Unpassed, queued_add recorded.numbered]
    intro a b before needs begun
    rcases precedes_cons_iff.1 before with before | ⟨rfl, -⟩
    · exact h a b before needs begun
    · have given := recorded.balanced.lt_nextId (recorded.balanced.added_of_started begun)
      exact absurd given (Nat.lt_irrefl _)
  | put world => exact h
  | start earlier e later queue eligible first =>
    have same : queued (s.begun earlier e later).journal = queued s.journal := by
      simp [begun, note, Moment.newcomers, Event.additions]
    have more : started (s.begun earlier e later).journal = e.id :: started s.journal := rfl
    rw [Unpassed, same, more]
    intro a b before needs begun
    rw [precedes_cons_iff]
    rcases List.mem_cons.1 begun with hb | begun
    · exact .inr ⟨hb, started_before told recorded queue eligible first before hb needs⟩
    · exact .inl (h a b before needs begun)
  | wait =>
    unfold await
    split <;> simpa [Unpassed, note, Moment.newcomers, Event.additions, Event.starts] using h
  | finish u id e release =>
    obtain ⟨l₁, l₂, -, -, -, rfl⟩ := release?_eq_some release
    simpa [Unpassed, note, Moment.newcomers, Event.additions, Event.starts] using h

/-- Nothing has overtaken an action that needs no more labels than itself. -/
structure KeepsOrder (s : Schedule σ) : Prop where
  /-- Everything that was queued is told, in the order in which it was queued. -/
  told : (queued s.journal).map Standing.id = added s.journal
  labels : ∀ e ∈ s.entries, ∀ a ∈ queued s.journal, a.id = e.id → a.labels = e.labels
  /-- An action that needs all labels of one that was queued before it is started after it. -/
  unpassed : ∀ a b, Precedes (queued s.journal) a b → a.labels ⊆ b.labels →
    b.id ∈ started s.journal → Precedes (started s.journal) a.id b.id
  /-- Of the actions that need one and the same label, those that were started are those that were
  queued first, and they were started in the order in which they were queued. -/
  alone : ∀ x, (started s.journal).filter (· ∈ needing x s.journal) <:+ needing x s.journal

theorem mem_needing {x : Label} {j : List Moment} {id : ActionId} : id ∈ needing x j ↔
    ∃ a ∈ queued j, a.id = id ∧ x ∈ a.labels ∧ ∀ y ∈ a.labels, y = x := by
  simp [needing, and_comm, and_left_comm]

theorem Told.needing_down (h : Told s) (balanced : Balanced s) (x : Label) :
    (needing x s.journal).Pairwise fun a b => b.val < a.val :=
  List.pairwise_map.2 ((h.down balanced).filter _)

/-- Actions that need the same single label are started in the order of their numbers. -/
theorem Unpassed.precedes (h : Unpassed s) (told : Told s) (balanced : Balanced s) {x : Label}
    {a b : ActionId} (ha : a ∈ needing x s.journal) (hb : b ∈ needing x s.journal)
    (less : a.val < b.val) (begun : b ∈ started s.journal) : Precedes (started s.journal) a b := by
  obtain ⟨a, hqa, rfl, -, alone⟩ := mem_needing.1 ha
  obtain ⟨b, hqb, rfl, hx, -⟩ := mem_needing.1 hb
  have before : Precedes (queued s.journal) a b := precedes_of_lt (told.down balanced) hqa hqb less
  have needs : a.labels ⊆ b.labels := fun y hy => alone y hy ▸ hx
  exact h a b before needs begun

theorem Unpassed.alone (h : Unpassed s) (told : Told s) (balanced : Balanced s) (x : Label) :
    (started s.journal).filter (· ∈ needing x s.journal) <:+ needing x s.journal := by
  have mem_iff {id : ActionId} : id ∈ (started s.journal).filter (· ∈ needing x s.journal) ↔
      id ∈ started s.journal ∧ id ∈ needing x s.journal := by simp
  refine suffix_of_down (told.needing_down balanced x) ?_ (fun id hid => (mem_iff.1 hid).2) ?_
  · refine List.pairwise_iff_forall_sublist.2 fun {b a} (order : Precedes _ a b) => ?_
    obtain ⟨begun, ha⟩ := mem_iff.1 order.mem_left
    obtain ⟨-, hb⟩ := mem_iff.1 order.mem_right
    have inTurn : Precedes (started s.journal) a b := order.mono List.filter_sublist
    have other : ¬ Precedes (started s.journal) b a := inTurn.asymm balanced.nodup_started
    have different : a.val ≠ b.val := by
      intro same
      obtain ⟨n⟩ := a
      obtain rfl : n = b.val := same
      exact other inTurn
    have notLess : ¬ b.val < a.val := fun less => other (h.precedes told balanced hb ha less begun)
    omega
  · intro a ha b hb less
    obtain ⟨begun, hb⟩ := mem_iff.1 hb
    exact mem_iff.2 ⟨(h.precedes told balanced ha hb less begun).mem_left, ha⟩

theorem Moves.unpassed {world : σ} (moves : Moves loop (empty world) s) :
    Recorded s ∧ Told s ∧ Unpassed s := by
  refine moves.preserve (P := fun s => Recorded s ∧ Told s ∧ Unpassed s) ?_ ?_
  · rintro s t move ⟨recorded, told, unpassed⟩
    exact ⟨recorded.move move, told.move recorded.numbered recorded.balanced move,
      unpassed.move told recorded move⟩
  · exact ⟨.empty world, .empty world, by simp [Unpassed, empty, started]⟩

theorem Moves.keepsOrder {world : σ} (moves : Moves loop (empty world) s) : KeepsOrder s := by
  obtain ⟨recorded, told, unpassed⟩ := moves.unpassed
  exact ⟨told.ids, told.labels, unpassed, unpassed.alone told recorded.balanced⟩

/-! ## Runs of given actions -/

/-- The journal tells of what was queued before a run. -/
theorem exists_queued_ofActions (world : σ) {actions : List (Action σ)} {i : Nat} {a : Action σ}
    (ha : actions[i]? = some a) :
    ∃ b ∈ queued (ofActions world actions).journal, b.id = ⟨i⟩ ∧ b.labels = a.labels := by
  have moves := ofActions_moves ⟨fun w => (.ok [], w)⟩ world actions
  obtain ⟨recorded, told, -⟩ := moves.unpassed
  have here : (⟨⟨i⟩, a, false⟩ : Entry σ) ∈ (ofActions world actions).entries := by
    rw [(queued_ofActions world actions).1]
    exact List.mem_map.2 ⟨(a, i), List.mem_zipIdx_iff_getElem?.2 ha, rfl⟩
  have inQueue := List.mem_append_right (finished (ofActions world actions).journal)
    (List.mem_map_of_mem (f := Entry.id) here)
  have known := recorded.balanced.queued.mem_iff.2 inQueue
  rw [← told.ids] at known
  obtain ⟨b, hb, hid⟩ := List.mem_map.1 known
  exact ⟨b, hb, hid, told.labels _ here b hb hid⟩

theorem runAll_moves (loop : EventLoop σ) (world : σ) (actions : List (Action σ)) :
    Moves loop (ofActions world actions) (runAll loop world actions).2 := by
  cases answer : run loop (fuelFor actions.length) (ofActions world actions) with
  | none =>
    simp only [runAll, answer, Option.getD_none]
    exact .refl
  | some result =>
    obtain ⟨n, hn⟩ := Execution.leads_of_run answer
    have moves := Execution.after_moves loop n ⟨.run, [], ofActions world actions, []⟩
    rw [hn] at moves
    simpa only [runAll, answer, Option.getD_some] using moves

/-- Of two actions the one queued first is started first, if the other needs all its labels. -/
theorem runAll_precedes (loop : EventLoop σ) (world : σ) {actions : List (Action σ)} {i j : Nat}
    {a b : Action σ} (less : i < j) (ha : actions[i]? = some a) (hb : actions[j]? = some b)
    (needs : a.labels ⊆ b.labels)
    (begun : ⟨j⟩ ∈ started (runAll loop world actions).2.journal) :
    Precedes (started (runAll loop world actions).2.journal) ⟨i⟩ ⟨j⟩ := by
  have moves := runAll_moves loop world actions
  have whole : Moves loop (empty world) (runAll loop world actions).2 :=
    (ofActions_moves loop world actions).trans moves
  obtain ⟨recorded, told, unpassed⟩ := whole.unpassed
  have still : queued (ofActions world actions).journal ⊆
      queued (runAll loop world actions).2.journal :=
    (moves.journal_suffix.sublist.flatMap _).subset
  obtain ⟨x, hx, hi, labels⟩ := exists_queued_ofActions world ha
  obtain ⟨y, hy, hj, labels'⟩ := exists_queued_ofActions world hb
  have before := precedes_of_lt (f := fun a : Standing => a.id.val) (told.down recorded.balanced)
    (still hx) (still hy) (by simpa [hi, hj] using less)
  rw [← hi, ← hj]
  exact unpassed x y before (by rwa [labels, labels']) (hj ▸ begun)

end Schedule

namespace Execution

open Schedule Journal

variable {σ : Type}

/-- Whatever its owner and the hooks call, and whatever fails, no action of a schedule is started
before one that was queued before it and needs none but its labels. In particular actions that need
one and the same label are started in the order in which they were queued, as are the removals of a
pass on each device. -/
theorem never_overtaken (loop : EventLoop σ) (world : σ) (calls : List (Call σ)) :
    (∀ fuel s, callAll loop fuel (empty world) calls = some s → s.KeepsOrder) ∧
    (∀ n, (reached loop world calls n).schedule.KeepsOrder) ∧
    ∀ (p : Pass) (log : PruneLog) (targets : List (String × Record)) (m : Machine) (i j : Nat)
      (t u : String × Record), i < j → targets[i]? = some t → targets[j]? = some u →
      t.2.device = u.2.device → ⟨j⟩ ∈ started (p.removeAll log targets m).2.journal →
      Precedes (started (p.removeAll log targets m).2.journal) ⟨i⟩ ⟨j⟩ := by
  have steps (n : Nat) := (reached_moves loop world calls n.zero_le).keepsOrder
  refine ⟨?_, steps, ?_⟩
  · intro fuel s answered
    obtain ⟨n, hn⟩ := callAll_eq_some_iff.1 ⟨fuel, answered⟩
    have here := steps n
    rwa [reached, hn] at here
  · intro p log targets m i j t u less ht hu same begun
    have needs : (p.removalAction log t.1 t.2).labels ⊆ (p.removalAction log u.1 u.2).labels := by
      simp [Pass.removalAction, same]
    exact runAll_precedes _ _ less (by simp [ht]) (by simp [hu]) needs begun

/-- The second action needs a label of the first one and another, for which the fourth one is there
first; so the third one, which needs only the label of the first one, is started before it. The hook
of the first one queues one more action that needs this label. -/
def crossing : List (Call Stage) :=
  [.add (Script.mk "a" ["disk"] .now [.mk "e" ["disk"] .now [] none false false] none false
      false).action,
    .add (Script.mk "b" ["disk", "net"] .now [] none false false).action,
    .add (Script.mk "c" ["disk"] .now [] none false false).action,
    .add (Script.mk "d" ["net"] .now [] none false false).action, .run]

/-- Two backups on one device, and between them one on another. -/
def alternating : List (String × Record) :=
  [("s", ⟨⟨"h", "v", "d", ⟨2024, 1, 1⟩, 0⟩, 0⟩), ("t", ⟨⟨"h", "v", "e", ⟨2024, 1, 1⟩, 0⟩, 1⟩),
    ("s", ⟨⟨"h", "v", "d", ⟨2024, 1, 2⟩, 0⟩, 2⟩)]

/-- A pass that removes nothing, since there are no files. -/
def fileless : Pass :=
  { config := {}, day := .given ⟨2024, 3, 5⟩, runner := fun _ t => (.ok 0, t),
    identify := fun _ _ => none }

theorem crossing_never_overtaken :
    (∃ s, callAll Rehearsal.loop 64 (empty (.opening [])) crossing = some s ∧ s.KeepsOrder ∧
      started s.journal = [⟨4⟩, ⟨1⟩, ⟨2⟩, ⟨3⟩, ⟨0⟩] ∧
      needing "disk" s.journal = [⟨4⟩, ⟨2⟩, ⟨0⟩]) ∧
    Precedes (started
      (fileless.removeAll ⟨"log", ⟨2024, 3, 5⟩, []⟩ alternating (.ofTree .empty)).2.journal)
      ⟨0⟩ ⟨2⟩ := by
  obtain ⟨answers, -, removals⟩ := never_overtaken Rehearsal.loop (.opening []) crossing
  refine ⟨?_, ?_⟩
  · have answered : (callAll Rehearsal.loop 64 (empty (.opening [])) crossing).map (fun s =>
        (started s.journal, needing "disk" s.journal)) =
          some ([⟨4⟩, ⟨1⟩, ⟨2⟩, ⟨3⟩, ⟨0⟩], [⟨4⟩, ⟨2⟩, ⟨0⟩]) := by
      decide +kernel
    obtain ⟨s, hs, journal⟩ := Option.map_eq_some_iff.1 answered
    obtain ⟨starts, alone⟩ := Prod.mk.inj journal
    exact ⟨s, hs, answers 64 s hs, starts, alone⟩
  · exact removals fileless _ alternating _ 0 2 _ _ (by decide) rfl rfl rfl (by decide +kernel)

end Execution

end BackupRetention
