import BackupRetention.Proofs.Files.Walks

/-!
# Growth of file trees

Making a directory, with all that are missing above it, takes nothing away. What is there stays as
it is, and whatever is new is a directory on the way.

## Main definitions

* `FileTree.Grows`: one tree has all of another, and only directories besides.

## Main results

* `FileTree.lookup_of_kept`: a path to a directory still leads there.
* `FileTree.grows_makeDirs`: what making directories comes to.
-/

namespace BackupRetention.FileTree

variable {t u v : FileTree} {follow : Bool} {links : Nat} {here l : Location}
  {names : List String} {p : Place} {path : String} {paths : List String}

/-! ## Paths in a growing tree -/

/-- All that is in `t` is also in `u`. -/
def Kept (t u : FileTree) : Prop := ∀ l n, t.node? l = some n → u.node? l = some n

/-- The place is a directory, or free and a directory in `u`. -/
def Opens (u : FileTree) (l : Location) : Place → Prop
  | .found k n => k = l ∧ n = .dir
  | .vacant k => k = l ∧ u.node? k = some .dir

/-- A walk to a directory, or to where one has been made, leads there. -/
theorem walkUntil_of_kept {jump jump' : Location → List String → Except Errno Place}
    (kept : t.Kept u)
    (jumps : ∀ here names, jump here names = .ok p → jump' here names = .ok (.found l .dir))
    (h : t.walkUntil follow jump here names = .ok p) (opens : u.Opens l p) :
    u.walkUntil true jump' here names = .ok (.found l .dir) := by
  fun_induction walkUntil t follow jump here names with
  | case1 here =>
    cases h
    rw [walkUntil, opens.1]
  | case2 here rest ih =>
    rw [walkUntil, if_pos rfl]
    exact ih h
  | case3 here rest other ih =>
    rw [walkUntil, if_neg other, if_pos rfl]
    exact ih h
  | case4 | case6 | case11 => cases h
  | case5 here name hdot hdots short k free =>
    cases h
    obtain ⟨rfl, dir⟩ := opens
    simp only [k] at dir
    simp only [walkUntil, if_neg hdot, if_neg hdots, if_neg short, dir, k]
  | case7 here name rest hdot hdots short k dir ih =>
    have dir' := kept _ _ dir
    simp only [k] at dir' ih
    rw [walkUntil, if_neg hdot, if_neg hdots, if_neg short]
    simp only [dir']
    exact ih h
  | case8 here name rest hdot hdots short k target link last =>
    cases h
    cases opens.2
  | case9 here name rest hdot hdots short k target link notLast =>
    have link' := kept _ _ link
    simp only [k] at link'
    rw [walkUntil, if_neg hdot, if_neg hdots, if_neg short]
    simpa [link'] using jumps _ _ h
  | case10 here name hdot hdots short k n notDir isNoLink node =>
    cases h
    exact absurd opens.2 notDir

theorem walk_of_kept (kept : t.Kept u) (h : t.walk follow links here names = .ok p)
    (opens : u.Opens l p) : u.walk true links here names = .ok (.found l .dir) := by
  induction links generalizing here names with
  | zero => exact walkUntil_of_kept kept (fun _ _ none => by cases none) h opens
  | succ links ih => exact walkUntil_of_kept kept (fun _ _ => ih) h opens

/-- A path to a directory, or to where one has been made, leads there. -/
theorem lookup_of_kept (kept : t.Kept u) (current : u.current = t.current)
    (h : t.lookup follow path = .ok p) (opens : u.Opens l p) :
    u.lookup true path = .ok (.found l .dir) := by
  obtain ⟨sound, walked, -⟩ := lookup_eq_ok_iff.1 h
  refine lookup_eq_ok_iff.2 ⟨sound, ?_, rfl⟩
  rw [Bool.true_or, current]
  exact walk_of_kept kept walked opens

/-! ## Growing trees -/

/-- `u` has all that `t` has. Besides, it has directories to which some of `paths` lead. -/
structure Grows (paths : List String) (t u : FileTree) : Prop where
  current : u.current = t.current
  kept : t.Kept u
  added : ∀ l n, t.node? l = none → u.node? l = some n →
    n = .dir ∧ ∃ path ∈ paths, u.lookup true path = .ok (.found l .dir)

theorem Grows.refl (paths : List String) (t : FileTree) : Grows paths t t where
  current := rfl
  kept _ _ node := node
  added l n free node := by
    rw [free] at node
    cases node

theorem Grows.mono {more : List String} (h : Grows paths t u) (sub : paths ⊆ more) :
    Grows more t u where
  current := h.current
  kept := h.kept
  added l n free node := by
    obtain ⟨dir, path, mem, leads⟩ := h.added l n free node
    exact ⟨dir, path, sub mem, leads⟩

theorem Grows.trans (h : Grows paths t u) (g : Grows paths u v) : Grows paths t v where
  current := g.current.trans h.current
  kept l n node := g.kept l n (h.kept l n node)
  added l n free node := by
    cases between : u.node? l with
    | none => exact g.added l n between node
    | some k =>
      obtain ⟨rfl, path, mem, leads⟩ := h.added l k free between
      obtain rfl : n = .dir := Option.some.inj (node.symm.trans (g.kept l _ between))
      exact ⟨rfl, path, mem, lookup_of_kept g.kept g.current leads ⟨rfl, rfl⟩⟩

/-- A directory that is made is where its path leads. -/
theorem grows_makeDir (t : FileTree) (path : String) : Grows [path] t (t.makeDir path).2 := by
  unfold makeDir
  split
  · exact .refl _ t
  · exact .refl _ t
  · next l vacant =>
    have free := (lookup_eq_ok vacant).2.placed.1 l rfl
    have notRoot : l ≠ [] := by
      rintro rfl
      simp at free
    have made := t.node?_set notRoot .dir
    have kept : t.Kept (t.set l .dir) := by
      intro k n node
      rw [made, if_neg, node]
      rintro rfl
      rw [free] at node
      cases node
    refine ⟨rfl, kept, fun k n none node => ?_⟩
    rw [made] at node
    split at node
    · next here =>
      subst here
      have dir : (t.set k .dir).node? k = some .dir := by rw [made, if_pos rfl]
      exact ⟨(Option.some.inj node).symm, path, List.mem_singleton.2 rfl,
        lookup_of_kept kept rfl vacant ⟨rfl, dir⟩⟩
    · rw [none] at node
      cases node

/-- All that are missing are made, or some of them if there is a failure. -/
theorem grows_makeAll (t : FileTree) (paths : List String) :
    Grows paths t (t.makeAll paths).2 := by
  induction paths generalizing t with
  | nil => exact .refl _ t
  | cons path above ih =>
    have one (t : FileTree) : Grows (path :: above) t (t.makeDir path).2 :=
      (t.grows_makeDir path).mono (by simp)
    have more (t : FileTree) : Grows (path :: above) t (t.makeAll above).2 :=
      (ih t).mono (List.subset_cons_self _ _)
    unfold makeAll
    split
    · exact .refl _ t
    · have first := one t
      generalize t.makeDir path = made at first ⊢
      obtain ⟨e | ⟨⟩, u⟩ := made
      · dsimp only at first ⊢
        split
        · have second := first.trans (more u)
          generalize u.makeAll above = rest at second ⊢
          obtain ⟨e | ⟨⟩, v⟩ := rest
          · exact second
          · have third := second.trans (one v)
            dsimp only at third ⊢
            generalize v.makeDir path = again at third ⊢
            obtain ⟨e | ⟨⟩, w⟩ := again
            · dsimp only at third ⊢
              split <;> exact third
            · exact third
        · split <;> exact first
      · exact first

/-- Making a directory and those above it makes no others. -/
theorem grows_makeDirs (t : FileTree) (path : String) :
    Grows (Path.ancestors path) t (t.makeDirs path).2 :=
  t.grows_makeAll _

end BackupRetention.FileTree
