import BackupRetention.Proofs.Files.Listing

/-!
# Other listings

The same tree with its directories listed in another order. What a path leads to and what is read
there have nothing to do with the order, and any entry can stand first in its directory.

## Main definitions

* `FileTree.Relisted`: the same tree in another order.
* `FileTree.toFront`: a tree in which one place comes first.

## Main results

* `FileTree.Relisted.lookup_eq`, `FileTree.Relisted.readText_eq`: what the order does not change.
* `FileTree.Relisted.list_perm`: what it does change.
* `FileTree.exists_list_toFront`: a listing that starts with a given name.
-/

namespace BackupRetention.FileTree

variable {t u : FileTree} {l : Location} {name path : String}

/-- The same is everywhere, but the directories may be listed in another order. -/
structure Relisted (t u : FileTree) : Prop where
  current : u.current = t.current
  node : ∀ l, u.node? l = t.node? l
  children : ∀ l, (u.children l).Perm (t.children l)

theorem walkUntil_congr (same : ∀ l, u.node? l = t.node? l) (follow : Bool)
    (jump : Location → List String → Except Errno Place) (here : Location) (names : List String) :
    u.walkUntil follow jump here names = t.walkUntil follow jump here names := by
  induction names generalizing here with
  | nil => rfl
  | cons name rest ih => simp only [walkUntil, same, ih]

theorem walk_congr (same : ∀ l, u.node? l = t.node? l) (follow : Bool) (links : Nat) :
    u.walk follow links = t.walk follow links := by
  induction links with
  | zero => funext here names; exact walkUntil_congr same follow _ here names
  | succ links ih =>
    funext here names
    rw [walk, walk, ih]
    exact walkUntil_congr same follow _ here names

namespace Relisted

theorem lookup_eq (h : Relisted t u) (follow : Bool) (path : String) :
    u.lookup follow path = t.lookup follow path := by
  simp only [lookup, h.current, walk_congr h.node]

theorem readText_eq (h : Relisted t u) (path : String) : u.readText path = t.readText path := by
  simp only [readText, find, h.lookup_eq]

/-- The same names are listed. -/
theorem list_perm (h : Relisted t u) {names : List String} (listed : t.list path = .ok names) :
    ∃ names', u.list path = .ok names' ∧ names'.Perm names := by
  obtain ⟨l, dir, rfl⟩ := list_eq_ok listed
  exact ⟨_, list_of_lookup ((h.lookup_eq true path).trans dir), h.children l⟩

theorem symm (h : Relisted t u) : Relisted u t :=
  ⟨h.current.symm, fun l => (h.node l).symm, fun l => (h.children l).symm⟩

end Relisted

/-- The same tree, in which what is at `l` comes first. -/
def toFront (t : FileTree) (l : Location) : FileTree :=
  { t with
    nodes := t.nodes.filter (fun e => e.1 = l) ++ t.nodes.filter fun e => !decide (e.1 = l) }

theorem relisted_toFront (t : FileTree) (l : Location) : Relisted t (t.toFront l) where
  current := rfl
  node k := by
    have front := lookup_filter (fun k => decide (k = l)) t.nodes k
    have back := lookup_filter (fun k => !decide (k = l)) t.nodes k
    rw [node?, node?, toFront, List.lookup_append, front, back]
    by_cases here : k = l <;> simp [here]
  children k := (List.filter_append_perm _ _).filterMap _

theorem exists_children_toFront (listed : name ∈ t.children l) :
    ∃ rest, (t.toFront (l ++ [name])).children l = name :: rest := by
  have there := mem_children_iff.1 listed
  cases front : t.nodes.filter (fun e => e.1 = l ++ [name]) with
  | nil =>
    have none : t.nodes.lookup (l ++ [name]) = none := List.lookup_eq_none_iff.2 fun e he => by
      have other : e.1 ≠ l ++ [name] := by simpa using List.filter_eq_nil_iff.1 front e he
      simpa using Ne.symm other
    rw [node?, if_neg (by simp)] at there
    exact absurd none there
  | cons e rest =>
    have place : e.1 = l ++ [name] := by
      have member : e ∈ t.nodes.filter (fun e => e.1 = l ++ [name]) := by simp [front]
      simpa using (List.mem_filter.1 member).2
    rw [children, toFront, front, List.cons_append, List.filterMap_cons]
    simp [place]

/-- A name that is listed can be listed first. -/
theorem exists_list_toFront {names : List String} (listed : t.list path = .ok names)
    (here : name ∈ names) : ∃ u rest, Relisted t u ∧ u.list path = .ok (name :: rest) := by
  obtain ⟨l, dir, rfl⟩ := list_eq_ok listed
  obtain ⟨rest, first⟩ := exists_children_toFront here
  have relisted := relisted_toFront t (l ++ [name])
  refine ⟨_, rest, relisted, ?_⟩
  rw [list_of_lookup ((relisted.lookup_eq true path).trans dir), first]

end BackupRetention.FileTree
