import BackupRetention.Schedule.Basic
import Mathlib.Data.List.Flatten

/-!
# What a journal tells

A journal stands latest first, so what lies behind a moment is what was before it. From the
events alone one can tell which actions were queued, started, reported and finished, and
which of them are under way.

## Main definitions

* `Journal.Throughout`: something holds of every moment, given those before it.
* `Journal.underway`: the actions between their start and their release.
-/

namespace BackupRetention

namespace Event

/-- The action that is queued. -/
def additions : Event → List ActionId
  | .added id => [id]
  | _ => []

/-- The action whose start is called. -/
def starts : Event → List ActionId
  | .started id _ => [id]
  | _ => []

/-- The completions that a wait has brought. -/
def deliveries : Event → List ActionId
  | .delivered ids => ids
  | _ => []

/-- The action that is released, and whose hook is called. -/
def releases : Event → List ActionId
  | .finished id _ => [id]
  | _ => []

end Event

namespace Journal

/-- `P` holds of every moment and the journal before it. -/
def Throughout (P : Moment → List Moment → Prop) : List Moment → Prop
  | [] => True
  | m :: earlier => P m earlier ∧ Throughout P earlier

instance decidableThroughout (P : Moment → List Moment → Prop)
    [∀ m earlier, Decidable (P m earlier)] : ∀ j, Decidable (Throughout P j)
  | [] => isTrue trivial
  | _ :: earlier => @instDecidableAnd _ _ _ (decidableThroughout P earlier)

def added (j : List Moment) : List ActionId := j.flatMap (·.event.additions)

def started (j : List Moment) : List ActionId := j.flatMap (·.event.starts)

def delivered (j : List Moment) : List ActionId := j.flatMap (·.event.deliveries)

def finished (j : List Moment) : List ActionId := j.flatMap (·.event.releases)

/-- The actions that were started and are not released yet. -/
def underway : List Moment → List ActionId
  | [] => []
  | m :: earlier => m.event.starts ++ (underway earlier).filter (· ∉ m.event.releases)

section Cons

variable (m : Moment) (j : List Moment)

@[simp] theorem added_cons : added (m :: j) = m.event.additions ++ added j := rfl

@[simp] theorem started_cons : started (m :: j) = m.event.starts ++ started j := rfl

@[simp] theorem delivered_cons : delivered (m :: j) = m.event.deliveries ++ delivered j := rfl

@[simp] theorem finished_cons : finished (m :: j) = m.event.releases ++ finished j := rfl

end Cons

theorem Throughout.of_suffix {P : Moment → List Moment → Prop} {j k : List Moment}
    (h : Throughout P k) (hjk : j <:+ k) : Throughout P j := by
  induction k with
  | nil =>
    rw [List.suffix_nil.1 hjk]
    trivial
  | cons m k ih =>
    rcases List.suffix_cons_iff.1 hjk with rfl | hjk
    · exact h
    · exact ih h.2 hjk

theorem started_of_suffix {j k : List Moment} (h : j <:+ k) {id : ActionId}
    (hid : id ∈ started j) : id ∈ started k :=
  (h.sublist.flatMap _).subset hid

theorem delivered_of_suffix {j k : List Moment} (h : j <:+ k) {id : ActionId}
    (hid : id ∈ delivered j) : id ∈ delivered k :=
  (h.sublist.flatMap _).subset hid

theorem finished_of_suffix {j k : List Moment} (h : j <:+ k) {id : ActionId}
    (hid : id ∈ finished j) : id ∈ finished k :=
  (h.sublist.flatMap _).subset hid

end Journal

end BackupRetention
