import BackupRetention.Proofs.Files.Changes

/-!
# Entries of a directory

A path to a directory and one more name lead to the entry of that name, whatever links are on the
way to the directory. Taking entries away makes no path lead elsewhere.

## Main definitions

* `FileTree.Less`: a tree with fewer files, and nothing else.

## Main results

* `FileTree.location_of_entry`: where the path to an entry leads.
* `FileTree.unlink_entry`: taking away an entry, as long as nothing but entries has gone.
-/

namespace BackupRetention.FileTree

variable {t u v : FileTree} {here l : Location} {names : List String} {base name : String}

/-- What is left of `t` when something has been taken away. -/
structure Less (t u : FileTree) : Prop where
  current : u.current = t.current
  node : ∀ k n, u.node? k = some n → t.node? k = some n

theorem Less.refl (t : FileTree) : Less t t := ⟨rfl, fun _ _ node => node⟩

theorem Less.trans (h : Less t u) (g : Less u v) : Less t v :=
  ⟨g.current.trans h.current, fun k n node => h.node k n (g.node k n node)⟩

theorem less_erase (t : FileTree) (l : Location) : Less t (t.erase l) := by
  refine ⟨rfl, fun k n node => ?_⟩
  rw [node?_erase] at node
  split at node
  · cases node
  · exact node

/-- What is found in a tree with less in it was found there before. -/
theorem Leads.of_less (h : Less t u) {follow : Bool} {n : Node}
    (leads : u.Leads follow here names (.found l n)) : t.Leads follow here names (.found l n) := by
  generalize found : Place.found l n = p at leads
  induction leads with
  | arrive here => exact .arrive here
  | stay _ ih => exact .stay (ih found)
  | back _ ih => exact .back (ih found)
  | enter proper short dir _ ih => exact .enter proper short (h.node _ _ dir) (ih found)
  | through proper short link followed _ ih =>
    exact .through proper short (h.node _ _ link) followed (ih found)
  | vacant => cases found
  | leaf proper short node last => exact .leaf proper short (h.node _ _ node) last

/-- The first of several names on a way. -/
theorem Leads.cons_cases {follow : Bool} {x : String} {rest : List String} {p : Place}
    (leads : t.Leads follow here (x :: rest) p) (more : rest ≠ []) :
    (x = "." ∧ t.Leads follow here rest p) ∨ (x = ".." ∧ t.Leads follow here.dropLast rest p) ∨
    (Path.IsProper x ∧ t.node? (here ++ [x]) = some .dir ∧
      t.Leads follow (here ++ [x]) rest p) ∨
    ∃ target, Path.IsProper x ∧ t.node? (here ++ [x]) = some (.link target) ∧
      t.Leads follow (Path.startAt here target) (Path.names target ++ rest) p := by
  cases leads with
  | stay onward => exact .inl ⟨rfl, onward⟩
  | back onward => exact .inr (.inl ⟨rfl, onward⟩)
  | enter proper _ dir onward => exact .inr (.inr (.inl ⟨proper, dir, onward⟩))
  | through proper _ link _ onward => exact .inr (.inr (.inr ⟨_, proper, link, onward⟩))
  | vacant | leaf => exact absurd rfl more

/-- One name after a way to a directory leads to the entry of that name. -/
theorem Leads.location_of_dir (dir : t.Leads true here names (.found l .dir))
    (proper : Path.IsProper name) {p : Place} (onward : t.Leads false here (names ++ [name]) p) :
    p.location = l ++ [name] := by
  generalize found : Place.found l .dir = q at dir
  -- Along the way to the directory; the way to the entry cannot part from it before its end.
  induction dir with
  | arrive here =>
    obtain ⟨rfl, -⟩ := Place.found.inj found
    rw [List.nil_append] at onward
    cases onward with
    | stay => exact absurd rfl proper.ne_dot
    | back => exact absurd rfl proper.ne_dots
    | enter _ _ _ last =>
      cases last
      rfl
    | through _ _ _ followed => simp at followed
    | vacant | leaf => rfl
  | @stay here rest p _ ih =>
    rcases onward.cons_cases (by simp) with ⟨-, onward⟩ | ⟨other, -⟩ | ⟨other, -⟩ | ⟨_, other, -⟩
    · exact ih onward found
    · exact absurd other (by decide)
    · exact absurd rfl other.ne_dot
    · exact absurd rfl other.ne_dot
  | @back here rest p _ ih =>
    rcases onward.cons_cases (by simp) with ⟨other, -⟩ | ⟨-, onward⟩ | ⟨other, -⟩ | ⟨_, other, -⟩
    · exact absurd other (by decide)
    · exact ih onward found
    · exact absurd rfl other.ne_dots
    · exact absurd rfl other.ne_dots
  | @enter here x rest p inside _ node _ ih =>
    rcases onward.cons_cases (by simp) with
      ⟨other, -⟩ | ⟨other, -⟩ | ⟨-, -, onward⟩ | ⟨target, -, link, -⟩
    · exact absurd other inside.ne_dot
    · exact absurd other inside.ne_dots
    · exact ih onward found
    · simp [node] at link
  | @through here x target rest p inside _ link _ _ ih =>
    rcases onward.cons_cases (by simp) with
      ⟨other, -⟩ | ⟨other, -⟩ | ⟨-, node, -⟩ | ⟨target', -, link', onward⟩
    · exact absurd other inside.ne_dot
    · exact absurd other inside.ne_dots
    · simp [link] at node
    · obtain rfl : target = target' := by simpa [link] using link'
      exact ih (by rwa [List.append_assoc]) found
  | vacant => cases found
  | leaf _ _ _ last => exact absurd (Place.found.inj found).2.symm last

/-! ## Entries -/

/-- The path to an entry of a directory leads to it, also after entries have been taken away. -/
theorem location_of_entry (dir : t.lookup true base = .ok (.found l .dir))
    (plain : Path.IsPlain name) (less : Less t u) {k : Location} {n : Node}
    (found : u.lookup false (Path.join base name) = .ok (.found k n)) : k = l ++ [name] := by
  have relative := Path.isAbsolute_of_noSlash plain.noSlash
  have way := (lookup_eq_ok dir).2
  have onward := (Leads.of_lookup found (Path.endsIn_join_of_plain base plain)).of_less less
  rw [Bool.true_or] at way
  rw [Path.names_join base relative, Path.names_of_single plain.nonempty plain.noSlash,
    Path.startAt, Path.isAbsolute_join base relative, less.current] at onward
  exact way.location_of_dir plain.toIsProper onward

/-- Taking away an entry of a directory takes away this entry alone, or fails and changes
nothing. -/
theorem unlink_entry (dir : t.lookup true base = .ok (.found l .dir)) (plain : Path.IsPlain name)
    (less : Less t u) :
    (∃ e, u.unlink (Path.join base name) = (.error e, u)) ∨
      u.unlink (Path.join base name) = (.ok (), u.erase (l ++ [name])) := by
  rcases unlink_cases u (Path.join base name) with ⟨e, failed⟩ | ⟨k, n, found, -, done⟩
  · exact .inl ⟨e, failed⟩
  · rw [location_of_entry dir plain less found] at done
    exact .inr done

end BackupRetention.FileTree
