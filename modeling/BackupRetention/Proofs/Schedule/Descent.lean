import BackupRetention.Proofs.Schedule.Admission
import BackupRetention.Proofs.Schedule.Batches
import Mathlib.Logic.Hydra

/-!
# Descent

What is left to do is a heap of queued actions, and the hook at hand. A step of a hook puts
the rest of the hook and at most one action in its place, all of them parts of it. Since a
hook has no part that goes on for ever, this comes to an end, however much is added.

## Main definitions

* `Within`: what a hook or an action has as its next part.
* `Execution.remaining`: what is left to do.
* `Execution.Below`: less is left to do, or the same and the next piece of it is nearer.
-/

namespace BackupRetention

open Relation

variable {σ : Type}

/-- The next parts of an action or of a hook. -/
inductive Within : Action σ ⊕ Hook σ → Action σ ⊕ Hook σ → Prop where
  | hook (action : Action σ) (id : ActionId) : Within (.inr (action.hook id)) (.inl action)
  | look (next : View → σ → Hook σ) (view : View) (world : σ) :
      Within (.inr (next view world)) (.inr (.look next))
  | put (world : σ) (next : Hook σ) : Within (.inr next) (.inr (.put world next))
  | queued (action : Action σ) (next : ActionId → Hook σ) :
      Within (.inl action) (.inr (.add action next))
  | add (action : Action σ) (next : ActionId → Hook σ) (id : ActionId) :
      Within (.inr (next id)) (.inr (.add action next))

mutual

theorem acc_action : ∀ action : Action σ, Acc Within (.inl action)
  | .mk _ _ _ hook => by
    refine ⟨_, ?_⟩
    intro part within
    cases within with
    | hook _ id => exact acc_hook (hook id)

theorem acc_hook : ∀ hook : Hook σ, Acc Within (.inr hook)
  | .finish _ => ⟨_, fun _ within => nomatch within⟩
  | .look next => by
    refine ⟨_, ?_⟩
    intro part within
    cases within with
    | look _ view world => exact acc_hook (next view world)
  | .put _ next => by
    refine ⟨_, ?_⟩
    intro part within
    cases within with
    | put => exact acc_hook next
  | .add action next => by
    refine ⟨_, ?_⟩
    intro part within
    cases within with
    | queued => exact acc_action action
    | add _ _ id => exact acc_hook (next id)
  | .complete _ _ => ⟨_, fun _ within => nomatch within⟩
  | .run _ => ⟨_, fun _ within => nomatch within⟩

end

theorem within_wf : WellFounded (Within (σ := σ)) :=
  ⟨fun
    | .inl action => acc_action action
    | .inr hook => acc_hook hook⟩

namespace Schedule

/-- The queued actions, running or not. -/
def actions (s : Schedule σ) : Multiset (Action σ ⊕ Hook σ) :=
  .ofList (s.entries.map fun e => .inl e.action)

@[simp] theorem actions_add (action : Action σ) (s : Schedule σ) :
    (s.add action).2.actions = s.actions + {.inl action} := by
  simp only [actions, add, note, List.map_append, List.map_cons, List.map_nil,
    ← Multiset.coe_add, Multiset.coe_singleton]

@[simp] theorem actions_startEligible (s : Schedule σ) :
    s.startEligible.2.actions = s.actions := by
  have kept := congrArg (List.map (Sum.inl (β := Hook σ))) (actions_of_startEligible s)
  rw [List.map_map, List.map_map] at kept
  exact congrArg Multiset.ofList kept

theorem actions_release {id : ActionId} {e : Entry σ} {s t : Schedule σ}
    (h : s.release? id = some (e, t)) : s.actions = t.actions + {.inl e.action} := by
  obtain ⟨l₁, l₂, queue, -, -, rfl⟩ := release?_eq_some h
  have perm : (l₁ ++ e :: l₂).Perm (l₁ ++ l₂ ++ [e]) := by
    apply List.perm_middle.trans
    exact (List.perm_append_singleton e (l₁ ++ l₂)).symm
  have := Multiset.coe_eq_coe.2 (perm.map fun e => (.inl e.action : Action σ ⊕ Hook σ))
  rw [actions, queue, this, List.map_append, ← Multiset.coe_add]
  rfl

end Schedule

namespace Execution

open Schedule

/-- What is left to do. -/
def remaining (x : Execution σ) : Multiset (Action σ ⊕ Hook σ) :=
  x.schedule.actions +
    match x.phase with
    | .follow hook => {.inr hook}
    | _ => 0

/-- How far the next hook is away. -/
def distance : Phase σ → Nat
  | .completed _ => 6
  | .handle [] => 5
  | .run => 4
  | .wait => 3
  | .handle (_ :: _) => 2
  | .complete _ => 1
  | .ended _ => 1
  | .follow _ => 0
  | .idle => 0

/-- Less is left to do, or the same and the next piece of it is nearer. -/
def Below (y x : Execution σ) : Prop :=
  Prod.Lex (CutExpand Within) (· < ·) (y.remaining, distance y.phase)
    (x.remaining, distance x.phase)

theorem below_wf : WellFounded (Below (σ := σ)) :=
  InvImage.wf (fun x : Execution σ => (x.remaining, distance x.phase))
    (WellFounded.prod_lex within_wf.cutExpand Nat.lt_wfRel.wf)

theorem Below.of_parts {x y : Execution σ} (m parts : Multiset (Action σ ⊕ Hook σ))
    (whole : Action σ ⊕ Hook σ) (hy : y.remaining = m + parts) (hx : x.remaining = m + {whole})
    (h : ∀ part ∈ parts, Within part whole) : Below y x := by
  apply Prod.Lex.left
  rw [hy, hx]
  exact (cutExpand_add_left m).2 (cutExpand_singleton h)

theorem Below.of_nearer {x y : Execution σ} (h : y.remaining = x.remaining)
    (nearer : distance y.phase < distance x.phase) : Below y x := by
  unfold Below
  rw [h]
  exact Prod.Lex.right _ nearer

end Execution

end BackupRetention
