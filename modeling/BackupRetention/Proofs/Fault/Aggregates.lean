import BackupRetention.Proofs.Fault.Context
import Mathlib.Data.List.Basic

/-!
# Aggregates of faults

However faults are put together, level by level, the aggregate holds the same members in the same
order, and none of them is an aggregate. Context keeps an aggregate whole, and hides no fatal fault.

## Main definitions

* `Fault.Grouping`: faults in nested lists.
* `Fault.Gathers`: what is promised of the aggregate of some faults.

## Main results

* `Fault.Grouping.aggregate?_eq`: nested lists give the aggregate of the faults in them.
* `Fault.gathers_parts`: what the aggregate of some faults holds.
-/

namespace BackupRetention.Fault

/-! ## Members -/

/-- A fault that is no aggregate. -/
def IsAlone (f : Fault) : Prop :=
  ∀ members, f ≠ .several members

theorem parts_several (members : List Fault) :
    parts (.several members) = members.flatMap parts := by
  rw [parts, partsOfAll_eq]

theorem parts_of_isAlone {f : Fault} (alone : f.IsAlone) : f.parts = [f] := by
  cases f with
  | several members => exact absurd rfl (alone members)
  | _ => rw [parts]

/-- A property of all faults, proved for those that are no aggregates, and for an aggregate from its
members. -/
theorem of_members {P : Fault → Prop} (single : ∀ f, f.IsAlone → P f)
    (several : ∀ members, (∀ f ∈ members, P f) → P (.several members)) (f : Fault) : P f := by
  cases f with
  | several members => exact several members fun f _ => of_members single several f
  | _ => exact single _ fun members => by simp

theorem isAlone_of_mem_parts {f p : Fault} (h : p ∈ f.parts) : p.IsAlone := by
  induction f using of_members with
  | single f alone =>
    rw [parts_of_isAlone alone, List.mem_singleton] at h
    exact h ▸ alone
  | several members ih =>
    rw [parts_several, List.mem_flatMap] at h
    obtain ⟨f, inside, h⟩ := h
    exact ih f inside h

/-- The members of an aggregate come apart no further. -/
theorem flatMap_parts_parts (f : Fault) : f.parts.flatMap parts = f.parts := by
  have each : ∀ p ∈ f.parts, p.parts = [p] := fun p h => parts_of_isAlone (isAlone_of_mem_parts h)
  rw [List.flatMap_congr each, List.flatMap_singleton']

/-- An aggregate of members stays as it is. -/
theorem parts_several_flatMap (fs : List Fault) :
    parts (.several (fs.flatMap parts)) = fs.flatMap parts := by
  rw [parts_several, List.flatMap_assoc, List.flatMap_congr fun f _ => flatMap_parts_parts f]

theorem isFatal_several {members : List Fault} :
    (several members).isFatal = true ↔ ∃ f ∈ members, f.isFatal = true := by
  rw [isFatal, anyFatal_eq, List.any_eq_true]

theorem isFatal_iff_parts {f : Fault} :
    (∃ p ∈ f.parts, p.isFatal = true) ↔ f.isFatal = true := by
  induction f using of_members with
  | single f alone => simp [parts_of_isAlone alone]
  | several members ih =>
    simp only [parts_several, isFatal_several, List.mem_flatMap]
    constructor
    · rintro ⟨p, ⟨f, inside, part⟩, fatal⟩
      exact ⟨f, inside, (ih f inside).1 ⟨p, part, fatal⟩⟩
    · rintro ⟨f, inside, fatal⟩
      obtain ⟨p, part, fatal⟩ := (ih f inside).2 fatal
      exact ⟨p, ⟨f, inside, part⟩, fatal⟩

theorem gather_eq {fs : List Fault} (some : fs ≠ []) :
    gather fs = .some (.several (fs.flatMap parts)) := by
  cases fs with
  | nil => exact absurd rfl some
  | cons f fs => rfl

/-! ## Context -/

theorem isAlone_above (layer : Layer) (f : Fault) : (layer.above f).IsAlone := by
  intro members
  cases layer <;> simp [Layer.above]

/-! ## Nested lists -/

/-- Faults in nested lists, each of them with a first member. -/
inductive Grouping where
  | single (f : Fault)
  | group (first : Grouping) (rest : List Grouping)

namespace Grouping

mutual

/-- The faults in their order. -/
def faults : Grouping → List Fault
  | .single f => [f]
  | .group first rest => first.faults ++ faultsOfAll rest

def faultsOfAll : List Grouping → List Fault
  | [] => []
  | g :: gs => g.faults ++ faultsOfAll gs

end

theorem faultsOfAll_eq (gs : List Grouping) : faultsOfAll gs = gs.flatMap faults := by
  induction gs with
  | nil => rfl
  | cons g gs ih => rw [faultsOfAll, ih, List.flatMap_cons]

theorem faults_group (first : Grouping) (rest : List Grouping) :
    (group first rest).faults = (first :: rest).flatMap faults := by
  rw [faults, faultsOfAll_eq, List.flatMap_cons]

mutual

/-- One fault for each list, from the innermost lists on. -/
def aggregate? : Grouping → Option Fault
  | .single f => some f
  | .group first rest => do
    let f ← first.aggregate?
    let fs ← aggregateAll? rest
    gather (f :: fs)

def aggregateAll? : List Grouping → Option (List Fault)
  | [] => some []
  | g :: gs => do
    let f ← g.aggregate?
    let fs ← aggregateAll? gs
    return f :: fs

end

/-- What nested lists come to, told without the lists inside them. -/
def flattened : Grouping → Fault
  | .single f => f
  | .group first rest => .several ((group first rest).faults.flatMap parts)

/-- Nothing is lost in the lists, and the order stays. -/
theorem parts_flattened (g : Grouping) : g.flattened.parts = g.faults.flatMap parts := by
  cases g with
  | single f => simp [flattened, faults]
  | group first rest => rw [flattened, parts_several_flatMap]

theorem gather_flattened (first : Grouping) (rest : List Grouping) :
    gather (first.flattened :: rest.map flattened) = some (group first rest).flattened := by
  have same : ((first :: rest).map flattened).flatMap parts =
      (group first rest).faults.flatMap parts := by
    rw [List.flatMap_map, List.flatMap_congr fun g _ => parts_flattened g, faults_group,
      List.flatMap_assoc]
  rw [gather_eq (List.cons_ne_nil _ _), ← List.map_cons, same, flattened]

mutual

/-- Level by level the faults come to the same as all at once. -/
theorem aggregate?_eq (g : Grouping) : g.aggregate? = some g.flattened := by
  cases g with
  | single f => rfl
  | group first rest =>
    rw [aggregate?, aggregate?_eq first, aggregateAll?_eq rest]
    exact gather_flattened first rest

theorem aggregateAll?_eq (gs : List Grouping) : aggregateAll? gs = some (gs.map flattened) := by
  cases gs with
  | nil => rfl
  | cons g gs =>
    rw [aggregateAll?, aggregate?_eq g, aggregateAll?_eq gs]
    rfl

end

end Grouping

/-! ## Aggregates -/

/-- What is promised of the aggregate of `fs`, which has these members. -/
structure Gathers (fs members : List Fault) : Prop where
  gathered : gather fs = some (.several members)
  raised : raiseAll fs = .error (.several members)
  members_eq : members = fs.flatMap parts
  parts_eq : (several members).parts = members
  alone : ∀ f ∈ members, f.IsAlone
  /-- Below a layer of context an aggregate stays whole. -/
  whole : ∀ (layer : Layer) (f : Fault), layer.above f ∈ fs → layer.above f ∈ members
  /-- Nested lists of the same faults give the same aggregate. -/
  regrouped : ∀ first rest, (Grouping.group first rest).faults = fs →
    (Grouping.group first rest).aggregate? = some (.several members)
  text_eq : (several members).text = String.intercalate "\n\n" (members.map text)
  fatal : ∀ layers, (under layers (.several members)).isFatal = true ↔ ∃ f ∈ fs, f.isFatal = true

/-- The aggregate of some faults holds their parts in order. It stays the same if the faults are put
together level by level, and it is fatal below all layers of context if one of them is. -/
theorem gathers_parts {fs : List Fault} (some : fs ≠ []) : Gathers fs (fs.flatMap parts) where
  gathered := gather_eq some
  raised := by rw [raiseAll, gather_eq some]
  members_eq := rfl
  parts_eq := parts_several_flatMap fs
  alone f inside := by
    obtain ⟨g, -, part⟩ := List.mem_flatMap.1 inside
    exact isAlone_of_mem_parts part
  whole layer f inside := by
    refine List.mem_flatMap.2 ⟨layer.above f, inside, ?_⟩
    rw [parts_of_isAlone (isAlone_above layer f)]
    exact List.mem_singleton_self _
  regrouped first rest same := by rw [Grouping.aggregate?_eq, Grouping.flattened, same]
  text_eq := congrArg _ (textOfAll_eq _)
  fatal layers := by
    rw [isFatal_under, isFatal_several, ← parts_several, isFatal_iff_parts, isFatal_several]

/-- A broken disk, a missing file in an aggregate of its own, and a bad date in another aggregate
below a layer of context. -/
def mixed : List Fault :=
  [.system ⟨5⟩, .several [.system .noEntry],
    .during "loading" (.several [.invalidDate ⟨"x", .badFormat⟩])]

/-- The aggregate below the layer stays as it is, also in nested lists. -/
theorem gathers_parts_mixed : mixed ≠ [] ∧
    Gathers mixed [.system ⟨5⟩, .system .noEntry,
      .during "loading" (.several [.invalidDate ⟨"x", .badFormat⟩])] ∧
    (Grouping.group (.group (.single (.system ⟨5⟩)) [.single (.several [.system .noEntry])])
      [.group (.single (.during "loading" (.several [.invalidDate ⟨"x", .badFormat⟩]))) []]
      ).aggregate? = gather mixed := by
  have some : mixed ≠ [] := List.cons_ne_nil _ _
  have gathered := gathers_parts some
  exact ⟨some, gathered, (gathered.regrouped _ _ rfl).trans gathered.gathered.symm⟩

end BackupRetention.Fault
