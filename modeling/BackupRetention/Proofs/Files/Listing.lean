import BackupRetention.Proofs.Files.Walks

/-!
# Listing and reading

What a listing of a directory tells about the places below it, and what reading a file depends
on.

## Main results

* `FileTree.mem_children_iff`: a name is listed if something is there.
* `FileTree.readText_of_dirs`: a file reads the same after changes elsewhere.
-/

namespace BackupRetention.FileTree

variable {t u : FileTree} {path name : String} {l : Location}

theorem mem_children_iff : name ∈ t.children l ↔ t.node? (l ++ [name]) ≠ none := by
  have listed : t.node? (l ++ [name]) ≠ none ↔ ∃ e ∈ t.nodes, e.1 = l ++ [name] := by
    rw [node?, if_neg (by simp), Ne, List.lookup_eq_none_iff]
    rw [Classical.not_forall]
    refine exists_congr fun e => ?_
    rw [Classical.not_imp, bne_iff_ne, Classical.not_not, eq_comm (a := e.1)]
  rw [listed, children, List.mem_filterMap]
  refine exists_congr fun e => and_congr_right fun _ => ?_
  cases last : e.1.getLast? with
  | none => simp [List.getLast?_eq_none_iff.1 last]
  | some x =>
    obtain ⟨above, concat⟩ := List.getLast?_eq_some_iff.1 last
    rw [concat, List.dropLast_concat]
    by_cases here : above = l
    · simp [here]
    · simp [here]

theorem list_eq_ok {names : List String} (h : t.list path = .ok names) :
    ∃ l, t.lookup true path = .ok (.found l .dir) ∧ names = t.children l := by
  unfold list find at h
  cases found : t.lookup true path with
  | error e => simp [found] at h
  | ok p =>
    cases p with
    | vacant l => simp [found] at h
    | found l n =>
      cases n with
      | dir => exact ⟨l, rfl, by simpa [found] using h.symm⟩
      | _ => simp [found] at h

theorem list_of_lookup (h : t.lookup true path = .ok (.found l .dir)) :
    t.list path = .ok (t.children l) := by
  unfold list find
  rw [h]

/-- What is read depends on what is at the place that the path leads to. -/
theorem readText_congr (ht : t.lookup true path = .ok (t.placeAt l))
    (hu : u.lookup true path = .ok (u.placeAt l)) (same : u.node? l = t.node? l) :
    u.readText path = t.readText path := by
  have places : u.placeAt l = t.placeAt l := by rw [placeAt, placeAt, same]
  rw [readText, readText, find, find, ht, hu, places]

theorem exists_lookup_of_readText {text : String} (h : t.readText path = .ok text) :
    ∃ p, t.lookup true path = .ok p := by
  unfold readText find at h
  cases found : t.lookup true path with
  | error e => simp [found] at h
  | ok p => exact ⟨p, rfl⟩

/-- A file on a direct path still reads the same after a change that keeps the directories on the
way and the file itself, and makes no links. -/
theorem readText_of_dirs (direct : t.Direct path) (links : t.NoNewLinks u)
    (current : u.current = t.current)
    (dirs : ∀ l ∈ Path.along t.current path, t.node? l = some .dir → u.node? l = some .dir)
    (ends : Path.EndsIn path name)
    (same : u.node? (Path.locate t.current path) = t.node? (Path.locate t.current path))
    {text : String} (h : t.readText path = .ok text) : u.readText path = t.readText path := by
  obtain ⟨p, found⟩ := exists_lookup_of_readText h
  have there := lookup_of_dirs direct (.refl t) rfl (fun _ _ dir => dir) ends found true
  have still := lookup_of_dirs direct links current dirs ends found true
  rw [current] at still
  exact readText_congr there still same

/-- What is put into a free place is listed last. -/
theorem children_set (free : t.node? (l ++ [name]) = none) (n : Node) :
    (t.set (l ++ [name]) n).children l = t.children l ++ [name] := by
  have nodes (ns : List (Location × Node)) (none : ns.lookup (l ++ [name]) = none) :
      setIn (l ++ [name]) n ns = ns ++ [(l ++ [name], n)] := by
    induction ns with
    | nil => rfl
    | cons e ns ih =>
      rw [lookup_cons_eq] at none
      split at none
      · cases none
      · next other => rw [setIn, if_neg (Ne.symm other), ih none, List.cons_append]
  rw [node?, if_neg (by simp)] at free
  rw [children, set, nodes _ free, List.filterMap_append]
  simp [children]

end BackupRetention.FileTree
