import BackupRetention.Proofs.Schedule.Answers
import BackupRetention.Proofs.Schedule.Journal
import BackupRetention.Proofs.Schedule.Moves
import BackupRetention.Schedule.Rehearsal
import Mathlib.Data.List.Nodup
import Mathlib.Data.List.Pairwise

/-!
# Exclusion

Running actions share no label, and what is held is what they need. A release takes labels
away without asking who else may need them; this is right only because nobody else does. So
the two facts have to be kept together, over every move, at every moment.

## Main definitions

* `View.Exclusive`: exactly the labels of the running actions are held, each by one of them.
* `Moment.Separate`: what holds of a moment, given the journal before it.
* `Schedule.Guarded`: what no move destroys.
-/

namespace BackupRetention

/-- Exactly the labels of the running actions are held, and no two running actions share
a label. -/
structure View.Exclusive (v : View) : Prop where
  mem_held_iff : ∀ x, x ∈ v.held ↔ ∃ a ∈ v.queue, a.running = true ∧ x ∈ a.labels
  apart : v.queue.Pairwise fun a b =>
    a.running = true → b.running = true → List.Disjoint a.labels b.labels

theorem View.Exclusive.disjoint {v : View} (h : v.Exclusive) {a b : Standing} (ha : a ∈ v.queue)
    (hb : b ∈ v.queue) (hne : a ≠ b) (hra : a.running = true) (hrb : b.running = true) :
    List.Disjoint a.labels b.labels := by
  have : Std.Symm fun a b : Standing =>
      a.running = true → b.running = true → List.Disjoint a.labels b.labels :=
    ⟨fun _ _ g hb ha => List.disjoint_symm (g ha hb)⟩
  exact h.apart.forall ha hb hne hra hrb

/-- What holds of a moment, given the journal before it. -/
structure Moment.Separate (m : Moment) (earlier : List Moment) : Prop where
  exclusive : m.view.Exclusive
  /-- The actions between their start and their release are those that are marked so. -/
  underway_iff : ∀ id, id ∈ Journal.underway (m :: earlier) ↔
    ∃ a ∈ m.view.queue, a.id = id ∧ a.running = true
  /-- Actions that share a label are not under way at the same moment. -/
  apart : ∀ a ∈ m.view.queue, ∀ b ∈ m.view.queue, a.id ∈ Journal.underway (m :: earlier) →
    b.id ∈ Journal.underway (m :: earlier) → a.id ≠ b.id → List.Disjoint a.labels b.labels
  /-- When the hook of an action is called, the labels it ever had are free. -/
  released : ∀ id name, m.event = .finished id name → ∀ m' ∈ earlier, ∀ a ∈ m'.view.queue,
    a.id = id → ∀ x ∈ a.labels, x ∉ m.view.held

namespace Schedule

variable {σ : Type} {loop : EventLoop σ} {s t : Schedule σ}

theorem exclusive_view_iff (s : Schedule σ) : s.view.Exclusive ↔
    (∀ x, x ∈ s.held ↔ ∃ e ∈ s.entries, e.running = true ∧ x ∈ e.labels) ∧
    s.entries.Pairwise fun a b =>
      a.running = true → b.running = true → List.Disjoint a.labels b.labels := by
  constructor
  · rintro ⟨h, g⟩
    exact ⟨by simpa [view, Entry.standing] using h, by
      simpa [view, Entry.standing, List.pairwise_map] using g⟩
  · rintro ⟨h, g⟩
    exact ⟨by simpa [view, Entry.standing] using h, by
      simpa [view, Entry.standing, List.pairwise_map] using g⟩

/-- Entries stand in the order of their numbers, all of which have been given out. -/
structure Numbered (s : Schedule σ) : Prop where
  ordered : s.entries.Pairwise fun a b => a.id.val < b.id.val
  given : ∀ e ∈ s.entries, e.id.val < s.nextId

theorem Numbered.move (h : Numbered s) (move : Move loop s t) : Numbered t := by
  obtain ⟨ordered, given⟩ := h
  cases move with
  | add action =>
    refine ⟨?_, ?_⟩
    · simpa [add, note, List.pairwise_append, ordered] using given
    · simp only [add, note, List.mem_append, List.mem_singleton]
      rintro e (he | rfl)
      · exact Nat.lt_succ_of_lt (given e he)
      · exact Nat.lt_succ_self _
  | put world => exact ⟨ordered, given⟩
  | start earlier e later queue eligible first =>
    rw [queue] at ordered given
    exact ⟨by simpa [begun, note, List.pairwise_append] using ordered,
      by simpa [begun, note, or_imp, forall_and] using given⟩
  | wait =>
    unfold await
    split <;> exact ⟨ordered, given⟩
  | finish u id e release =>
    have kept := sublist_of_release? release
    obtain ⟨l₁, l₂, -, -, -, rfl⟩ := release?_eq_some release
    exact ⟨ordered.sublist kept, fun e he => given e (kept.subset he)⟩

theorem exclusive_add (h : s.view.Exclusive) (action : Action σ) :
    (s.add action).2.view.Exclusive := by
  rw [exclusive_view_iff] at h ⊢
  obtain ⟨held, apart⟩ := h
  refine ⟨?_, ?_⟩
  · intro x
    simpa [add, note, or_and_right, exists_or] using held x
  · simpa [add, note, List.pairwise_append] using apart

/-- What is started takes no label that a running action has, since all of these are held. -/
theorem exclusive_begun (h : s.view.Exclusive) {earlier later : List (Entry σ)} {e : Entry σ}
    (queue : s.entries = earlier ++ e :: later) (eligible : Eligible s.held e) :
    (s.begun earlier e later).view.Exclusive := by
  rw [exclusive_view_iff] at h ⊢
  obtain ⟨held, apart⟩ := h
  obtain ⟨idle, free⟩ := eligible
  have clear : ∀ a ∈ s.entries, a.running = true → List.Disjoint a.labels e.labels :=
    fun a ha hrun x hxa hxe => free x hxe ((held x).2 ⟨a, ha, hrun, hxa⟩)
  rw [queue] at held apart clear
  refine ⟨?_, ?_⟩
  · intro x
    have := held x
    simp only [List.mem_append, List.mem_cons] at this
    simp only [begun, note, mem_claim, List.mem_append, List.mem_cons, this]
    constructor
    · rintro (hx | ⟨a, ha | rfl | ha, hrun, hx⟩)
      · exact ⟨{ e with running := true }, .inr (.inl rfl), rfl, hx⟩
      · exact ⟨a, .inl ha, hrun, hx⟩
      · simp [idle] at hrun
      · exact ⟨a, .inr (.inr ha), hrun, hx⟩
    · rintro ⟨a, ha | rfl | ha, hrun, hx⟩
      · exact .inr ⟨a, .inl ha, hrun, hx⟩
      · exact .inl hx
      · exact .inr ⟨a, .inr (.inr ha), hrun, hx⟩
  · obtain ⟨before, ⟨-, behind⟩, across⟩ := by
      simpa only [List.pairwise_append, List.pairwise_cons] using apart
    simp only [begun, note, List.pairwise_append, List.pairwise_cons]
    refine ⟨before, ⟨?_, behind⟩, ?_⟩
    · intro b hb _ hrun
      exact List.disjoint_symm (clear b (by simp [hb]) hrun)
    · intro a ha b hb hrun hrun'
      rcases List.mem_cons.1 hb with rfl | hb
      · exact clear a (by simp [ha]) hrun
      · exact across a ha b (by simp [hb]) hrun hrun'

/-- What is released gives back no label that a running action still has, since it shared
none. -/
theorem exclusive_release (h : s.view.Exclusive) {id : ActionId} {e : Entry σ}
    (release : s.release? id = some (e, t)) : t.view.Exclusive := by
  rw [exclusive_view_iff] at h ⊢
  obtain ⟨held, apart⟩ := h
  obtain ⟨l₁, l₂, queue, -, hrun, rfl⟩ := release?_eq_some release
  have clear : ∀ a ∈ l₁ ++ l₂, a.running = true → List.Disjoint a.labels e.labels := by
    rw [queue] at apart
    have := List.pairwise_append.1 apart
    simp only [List.pairwise_cons, List.mem_cons] at this
    obtain ⟨-, ⟨behind, -⟩, across⟩ := this
    intro a ha hrun'
    rcases List.mem_append.1 ha with ha | ha
    · exact across a ha e (.inl rfl) hrun' hrun
    · exact List.disjoint_symm (behind a ha hrun hrun')
  refine ⟨?_, ?_⟩
  · intro x
    have := held x
    rw [queue] at this
    simp only [List.mem_append, List.mem_cons] at this
    simp only [mem_unclaim, this, List.mem_append]
    constructor
    · rintro ⟨⟨a, ha | rfl | ha, hrun', hx⟩, hxe⟩
      · exact ⟨a, .inl ha, hrun', hx⟩
      · exact absurd hx hxe
      · exact ⟨a, .inr ha, hrun', hx⟩
    · rintro ⟨a, ha, hrun', hx⟩
      refine ⟨⟨a, ?_, hrun', hx⟩, clear a (List.mem_append.2 ha) hrun' hx⟩
      exact ha.imp_right .inr
  · rw [queue] at apart
    exact apart.sublist ((List.sublist_cons_self _ _).append_left l₁)

theorem exclusive_move (h : s.view.Exclusive) (move : Move loop s t) : t.view.Exclusive := by
  cases move with
  | add action => exact exclusive_add h action
  | put world => exact h
  | start earlier e later queue eligible first => exact exclusive_begun h queue eligible
  | wait =>
    unfold await
    split <;> exact h
  | finish u id e release =>
    have left := exclusive_release h release
    exact left

theorem Numbered.eq_of_id_eq (h : Numbered s) {a b : Entry σ} (ha : a ∈ s.entries)
    (hb : b ∈ s.entries) (hid : a.id = b.id) : a = b := by
  have distinct : (s.entries.map Entry.id).Nodup :=
    List.pairwise_map.2 (h.ordered.imp fun hlt heq => absurd (heq ▸ hlt) (Nat.lt_irrefl _))
  exact List.inj_on_of_nodup_map distinct ha hb hid

theorem Numbered.id_ne (h : Numbered s) {l₁ l₂ : List (Entry σ)} {e : Entry σ}
    (queue : s.entries = l₁ ++ e :: l₂) : ∀ a ∈ l₁ ++ l₂, a.id ≠ e.id := by
  have ordered := h.ordered
  rw [queue] at ordered
  obtain ⟨-, behind, across⟩ := List.pairwise_append.1 ordered
  intro a ha hid
  rcases List.mem_append.1 ha with ha | ha
  · have := across a ha e (by simp)
    rw [hid] at this
    omega
  · have := (List.pairwise_cons.1 behind).1 a ha
    rw [hid] at this
    omega

theorem Numbered.standing_eq (h : Numbered s) {a b : Standing} (ha : a ∈ s.view.queue)
    (hb : b ∈ s.view.queue) (hid : a.id = b.id) : a = b := by
  obtain ⟨e, he, rfl⟩ := List.mem_map.1 ha
  obtain ⟨f, hf, rfl⟩ := List.mem_map.1 hb
  rw [h.eq_of_id_eq he hf hid]

/-- The labels that a journal shows for a number are those of its action, also later. -/
structure Remembered (s : Schedule σ) : Prop where
  given : ∀ m ∈ s.journal, ∀ a ∈ m.view.queue, a.id.val < s.nextId
  labels : ∀ m ∈ s.journal, ∀ a ∈ m.view.queue, ∀ e ∈ s.entries, e.id = a.id → e.labels = a.labels

theorem Remembered.move (h : Remembered s) (hn : Numbered s) (move : Move loop s t) :
    Remembered t := by
  have numbered := hn.move move
  obtain ⟨grown, origin⟩ := move.entries
  have given : ∀ m ∈ s.journal, ∀ a ∈ m.view.queue, a.id.val < t.nextId :=
    fun m hm a ha => Nat.lt_of_lt_of_le (h.given m hm a ha) grown
  have labels : ∀ m ∈ s.journal, ∀ a ∈ m.view.queue, ∀ e ∈ t.entries, e.id = a.id →
      e.labels = a.labels := by
    intro m hm a ha e he hid
    rcases origin e he with hnew | ⟨e', he', hid', haction⟩
    · have old := h.given m hm a ha
      rw [← hid] at old
      omega
    · rw [Entry.labels, ← haction]
      exact h.labels m hm a ha e' he' (hid'.trans hid)
  rcases move.journal with hj | ⟨event, hj, -⟩
  · exact ⟨hj ▸ given, hj ▸ labels⟩
  · refine ⟨?_, ?_⟩
    · rw [hj, List.forall_mem_cons]
      refine ⟨?_, given⟩
      simpa [view, Entry.standing] using numbered.given
    · rw [hj, List.forall_mem_cons]
      refine ⟨?_, labels⟩
      intro a ha e he hid
      obtain ⟨e', he', rfl⟩ := List.mem_map.1 ha
      rw [numbered.eq_of_id_eq he he' hid]
      rfl

/-- The actions under way by the journal are those that are marked so. -/
def Followed (s : Schedule σ) : Prop :=
  ∀ id, id ∈ Journal.underway s.journal ↔ ∃ e ∈ s.entries, e.id = id ∧ e.running = true

theorem Followed.move (h : Followed s) (hn : Numbered s) (move : Move loop s t) :
    Followed t := by
  intro id
  have before := h id
  cases move with
  | add action =>
    simpa [add, note, Journal.underway, Event.starts, Event.releases, or_and_right,
      exists_or] using before
  | put world => exact before
  | start earlier e later queue eligible first =>
    rw [queue] at before
    simp only [begun, note, Journal.underway, Event.starts, Event.releases, List.mem_append,
      List.mem_filter, List.mem_cons, List.not_mem_nil, not_false_eq_true, decide_true,
      and_true, or_false] at before ⊢
    rw [before]
    constructor
    · rintro (rfl | ⟨a, ha | rfl | ha, hid, hrun⟩)
      · exact ⟨{ e with running := true }, .inr (.inl rfl), rfl, rfl⟩
      · exact ⟨a, .inl ha, hid, hrun⟩
      · simp [eligible.1] at hrun
      · exact ⟨a, .inr (.inr ha), hid, hrun⟩
    · rintro ⟨a, ha | rfl | ha, hid, hrun⟩
      · exact .inr ⟨a, .inl ha, hid, hrun⟩
      · exact .inl hid.symm
      · exact .inr ⟨a, .inr (.inr ha), hid, hrun⟩
  | wait =>
    unfold await
    split <;> simpa [note, Journal.underway, Event.starts, Event.releases] using before
  | finish u id' e release =>
    obtain ⟨l₁, l₂, queue, rfl, -, rfl⟩ := release?_eq_some release
    have others := hn.id_ne queue
    rw [queue] at before
    simp only [note, Journal.underway, Event.starts, Event.releases, List.mem_filter,
      List.mem_singleton, List.nil_append, decide_not, Bool.not_eq_true', decide_eq_false_iff_not]
    rw [before]
    constructor
    · rintro ⟨⟨a, ha, rfl, hrun⟩, hne⟩
      refine ⟨a, ?_, rfl, hrun⟩
      have hae : a ≠ e := fun h => hne (h ▸ rfl)
      simpa [hae] using ha
    · rintro ⟨a, ha, rfl, hrun⟩
      refine ⟨⟨a, ?_, rfl, hrun⟩, others a ha⟩
      rw [List.mem_append] at ha
      simpa using ha.imp_right .inr

/-- What no move destroys. -/
structure Guarded (s : Schedule σ) : Prop where
  numbered : Numbered s
  exclusive : s.view.Exclusive
  remembered : Remembered s
  followed : Followed s
  separate : Journal.Throughout Moment.Separate s.journal

theorem Guarded.empty (world : σ) : Guarded (empty world) where
  numbered := ⟨.nil, by simp [Schedule.empty]⟩
  exclusive := (exclusive_view_iff _).2 ⟨by simp [Schedule.empty], .nil⟩
  remembered := ⟨by simp [Schedule.empty], by simp [Schedule.empty]⟩
  followed := by simp [Followed, Schedule.empty, Journal.underway]
  separate := trivial

theorem Guarded.move (h : Guarded s) (move : Move loop s t) : Guarded t := by
  have numbered := h.numbered.move move
  have exclusive := exclusive_move h.exclusive move
  have followed := h.followed.move h.numbered move
  refine ⟨numbered, exclusive, h.remembered.move h.numbered move, followed, ?_⟩
  rcases move.journal with hj | ⟨event, hj, leaves⟩
  · exact hj ▸ h.separate
  · rw [hj]
    have marked : ∀ id, id ∈ Journal.underway (⟨event, t.view⟩ :: s.journal) ↔
        ∃ a ∈ t.view.queue, a.id = id ∧ a.running = true := by
      intro id
      rw [← hj, followed id]
      simp [view, Entry.standing]
    refine ⟨⟨exclusive, marked, ?_, ?_⟩, h.separate⟩
    · intro a ha b hb hua hub hne
      have running : ∀ c ∈ t.view.queue, c.id ∈ Journal.underway (⟨event, t.view⟩ :: s.journal) →
          c.running = true := by
        intro c hc huc
        obtain ⟨d, hd, hid, hrun⟩ := (marked c.id).1 huc
        rwa [numbered.standing_eq hd hc hid] at hrun
      have different : a ≠ b := fun heq => hne (heq ▸ rfl)
      exact exclusive.disjoint ha hb different (running a ha hua) (running b hb hub)
    · rintro id name rfl m' hm' a ha hid x hx
      obtain ⟨e, he, heid, hfree⟩ := leaves id name rfl
      apply hfree x
      rwa [h.remembered.labels m' hm' a ha e he (heid.trans hid.symm)]

theorem Guarded.moves (h : Guarded s) (moves : Moves loop s t) : Guarded t :=
  moves.preserve (fun _ _ move h => h.move move) h

end Schedule

namespace Execution

open Schedule

variable {σ : Type}

theorem guarded_reached (loop : EventLoop σ) (world : σ) (calls : List (Call σ)) (n : Nat) :
    Guarded (reached loop world calls n).schedule :=
  (Guarded.empty world).moves (reached_moves loop world calls n.zero_le)

/-- Whatever its owner and the hooks call, and whatever fails, a schedule holds exactly the
labels of its running actions, no two of which share one. This is so after each call that
is answered, after every single step of a call, answered or not, and it was so at every
moment in between: whenever an action was queued, started or released and whenever a run
waited. Actions that share a label are never under way together, and the labels of an
action are free when its hook is called. -/
theorem exclusive_throughout (loop : EventLoop σ) (world : σ) (calls : List (Call σ)) :
    (∀ fuel s, callAll loop fuel (empty world) calls = some s →
      s.view.Exclusive ∧ Journal.Throughout Moment.Separate s.journal) ∧
    ∀ n, (reached loop world calls n).schedule.view.Exclusive ∧
      Journal.Throughout Moment.Separate (reached loop world calls n).schedule.journal := by
  have steps (n : Nat) := guarded_reached loop world calls n
  refine ⟨?_, fun n => ⟨(steps n).exclusive, (steps n).separate⟩⟩
  intro fuel s h
  obtain ⟨n, hn⟩ := callAll_eq_some_iff.1 ⟨fuel, h⟩
  have guarded := steps n
  rw [reached, hn] at guarded
  exact ⟨guarded.exclusive, guarded.separate⟩

/-- Two actions share a label. The hook of the first one runs the schedule. -/
def sharing : List (Call Stage) :=
  [.add (Script.mk "a" ["disk"] .now [] none true false).action,
    .add (Script.mk "b" ["disk", "net"] .now [] none false false).action, .run]

theorem sharing_exclusive_throughout :
    ∃ s, callAll Rehearsal.loop 32 (empty (.opening [])) sharing = some s ∧
      s.view.Exclusive ∧ Journal.Throughout Moment.Separate s.journal := by
  have answered : (callAll Rehearsal.loop 32 (empty (.opening [])) sharing).isSome := by
    decide +kernel
  obtain ⟨s, hs⟩ := Option.isSome_iff_exists.1 answered
  exact ⟨s, hs, (exclusive_throughout _ _ _).1 32 s hs⟩

end Execution

end BackupRetention
