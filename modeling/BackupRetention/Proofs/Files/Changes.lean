import BackupRetention.Proofs.Files.Walks

/-!
# Changes of files

What opening and taking away files can do to a tree. Without links on the way, each touches at most
the place that its path names, and all directories stay.

## Main definitions

* `FileTree.Reaches`: what a path leads to.
* `FileTree.Covers`: what a path leads to, with everything below.
* `FileTree.Alters`: one place has another content.

## Main results

* `FileTree.touch_cases`, `FileTree.unlink_cases`: all that can come of either.
* `FileTree.alters_of_touch`, `FileTree.alters_of_unlink`: the same without links.
-/

namespace BackupRetention.FileTree

variable {t u : FileTree} {path name : String}

theorem touch_cases (t : FileTree) (path : String) :
    (∃ e, t.touch path = (.error e, t)) ∨
    (∃ l n, t.lookup true path = .ok (.found l n) ∧ n ≠ .dir ∧ t.touch path = (.ok l, t)) ∨
    ∃ l, t.lookup true path = .ok (.vacant l) ∧ t.touch path = (.ok l, t.set l (.file .empty)) := by
  unfold touch
  split
  · next e _ => exact .inl ⟨e, rfl⟩
  · exact .inl ⟨_, rfl⟩
  · next l n notDir found => exact .inr (.inl ⟨l, n, found, by rintro rfl; exact notDir rfl, rfl⟩)
  · next l vacant =>
    split
    · exact .inl ⟨_, rfl⟩
    · exact .inr (.inr ⟨l, vacant, rfl⟩)

theorem unlink_cases (t : FileTree) (path : String) :
    (∃ e, t.unlink path = (.error e, t)) ∨
    ∃ l n, t.lookup false path = .ok (.found l n) ∧ n ≠ .dir ∧
      t.unlink path = (.ok (), t.erase l) := by
  unfold unlink find
  cases h : t.lookup false path with
  | error e => exact .inl ⟨e, rfl⟩
  | ok p =>
    cases p with
    | vacant l => exact .inl ⟨_, rfl⟩
    | found l n =>
      cases n with
      | dir => exact .inl ⟨_, rfl⟩
      | _ => exact .inr ⟨l, _, rfl, by simp, rfl⟩

theorem touch_of_found {l : Location} {n : Node} (h : t.lookup true path = .ok (.found l n))
    (notDir : n ≠ .dir) : t.touch path = (.ok l, t) := by
  unfold touch
  rw [h]
  cases n with
  | dir => exact absurd rfl notDir
  | _ => rfl

theorem unlink_of_found {l : Location} {n : Node} (h : t.lookup false path = .ok (.found l n))
    (notDir : n ≠ .dir) : t.unlink path = (.ok (), t.erase l) := by
  unfold unlink find
  rw [h]
  cases n with
  | dir => exact absurd rfl notDir
  | _ => rfl

/-- What is not there cannot be taken away. -/
theorem unlink_of_vacant {l : Location} (h : t.lookup false path = .ok (.vacant l)) :
    t.unlink path = (.error (.system .noEntry), t) := by
  unfold unlink find
  rw [h]

theorem unlink_of_dir {l : Location} (h : t.lookup false path = .ok (.found l .dir)) :
    t.unlink path = (.error (.system .isDirectory), t) := by
  unfold unlink find
  rw [h]

/-- What `path` leads to is at `l`. A link there is not followed. -/
def Reaches (t : FileTree) (path : String) (l : Location) : Prop :=
  ∃ n, t.lookup false path = .ok (.found l n)

theorem Reaches.getLast? {l : Location} (h : t.Reaches path l) (ends : Path.EndsIn path name) :
    l.getLast? = some name := by
  obtain ⟨n, found⟩ := h
  exact (Leads.of_lookup found ends).last ends.proper ends.last

/-- What `path` leads to is at `l` or above it. -/
def Covers (t : FileTree) (path : String) (l : Location) : Prop :=
  ∃ p, t.lookup false path = .ok p ∧ p.location <+: l

theorem agreesOff_removeAll (t : FileTree) (path : String) :
    AgreesOff (t.Covers path) t (t.removeAll path) := by
  unfold removeAll find
  cases h : t.lookup false path with
  | error e => exact .refl _ t
  | ok p =>
    cases p with
    | vacant l => exact .refl _ t
    | found l n => exact (agreesOff_eraseBelow t l).mono fun k hk => ⟨.found l n, h, hk⟩

/-- A path that leads to or above a place with another name leads above it. -/
theorem Covers.above {l : Location} (h : t.Covers path l) (ends : Path.EndsIn path name)
    (other : l.getLast? ≠ some name) : t.Covers path l.dropLast := by
  obtain ⟨p, found, below⟩ := h
  have last := (Leads.of_lookup found ends).last ends.proper ends.last
  obtain ⟨rest, rfl⟩ := below
  have further : rest ≠ [] := by
    rintro rfl
    rw [List.append_nil] at other
    exact other last
  refine ⟨p, found, ?_⟩
  rw [List.dropLast_append_of_ne_nil further]
  exact List.prefix_append _ _

/-! ## The content of a file -/

/-- There is a file at `l` with this content. -/
def Holds (t : FileTree) (l : Location) (content : ByteArray) : Prop :=
  t.node? l = some (.file content)

/-- What the file at `l` holds; nothing if it is missing. -/
def contentAt (t : FileTree) (l : Location) : ByteArray :=
  match t.node? l with
  | some (.file content) => content
  | _ => .empty

variable {l : Location} {content : ByteArray}

theorem Holds.ne_root (h : t.Holds l content) : l ≠ [] := by
  rintro rfl
  simp [Holds] at h

/-- Opening a file changes no content. -/
theorem Holds.touch (h : t.Holds l content) (path : String) : (t.touch path).2.Holds l content := by
  rcases touch_cases t path with ⟨e, touched⟩ | ⟨_, _, -, -, touched⟩ | ⟨k, vacant, touched⟩
  · rwa [touched]
  · rwa [touched]
  · have free := (lookup_eq_ok vacant).2.placed.1 k rfl
    have notRoot : k ≠ [] := by
      rintro rfl
      simp at free
    rw [touched, Holds, node?_set t notRoot, if_neg, h]
    rintro rfl
    rw [h] at free
    cases free

/-- Taking away a name leaves other files. -/
theorem Holds.unlink (h : t.Holds l content) (other : ¬ t.Reaches path l) :
    (t.unlink path).2.Holds l content := by
  rcases unlink_cases t path with ⟨e, unlinked⟩ | ⟨k, n, found, -, unlinked⟩
  · rwa [unlinked]
  · rw [unlinked, Holds, node?_erase, if_neg, h]
    rintro ⟨-, rfl⟩
    exact other ⟨n, found⟩

/-- A line is added at the end. -/
theorem Holds.append (h : t.Holds l content) (text : String) :
    ∃ u, t.append l text = (.ok (), u) ∧ u.Holds l (content ++ text.toUTF8) := by
  refine ⟨t.set l (.file (content ++ text.toUTF8)), ?_, ?_⟩
  · rw [FileTree.append, h]
  · rw [Holds, node?_set t h.ne_root, if_pos rfl]

/-! ## Direct paths -/

/-- `u` is `t` but for what is at `l`. It has no new links, and all directories of `t`. -/
structure Alters (l : Location) (t u : FileTree) : Prop where
  off : AgreesOff (· = l) t u
  links : t.NoNewLinks u
  dirs : ∀ k, t.node? k = some .dir → u.node? k = some .dir

theorem Covers.prefix (h : t.Covers path l) (direct : t.Direct path)
    (ends : Path.EndsIn path name) : Path.locate t.current path <+: l := by
  obtain ⟨p, found, below⟩ := h
  rwa [lookup_eq_placeAt direct ends found, location_placeAt] at below

/-- After a file was opened something is at the place that its path names. -/
theorem alters_of_touch {l : Location} (direct : t.Direct path) (ends : Path.EndsIn path name)
    (h : t.touch path = (.ok l, u)) : (∃ p, t.lookup true path = .ok p) ∧
      l = Path.locate t.current path ∧ Alters l t u ∧ u.node? l ≠ none := by
  rcases touch_cases t path with ⟨e, he⟩ | ⟨k, n, found, notDir, hk⟩ | ⟨k, vacant, hk⟩
  · simp [he] at h
  · obtain ⟨rfl, rfl⟩ : k = l ∧ t = u := by simpa [hk] using h
    obtain ⟨rfl, node⟩ := placeAt_eq_found (lookup_eq_placeAt direct ends found).symm
    exact ⟨⟨_, found⟩, rfl, ⟨.refl _ t, .refl t, fun _ hk => hk⟩, by simp [node]⟩
  · obtain ⟨rfl, rfl⟩ : k = l ∧ t.set k (.file .empty) = u := by simpa [hk] using h
    obtain ⟨rfl, free⟩ := placeAt_eq_vacant (lookup_eq_placeAt direct ends vacant).symm
    have notRoot := ends.locate_ne_nil t.current
    refine ⟨⟨_, vacant⟩, rfl, ⟨agreesOff_set t notRoot _, t.noNewLinks_set notRoot _, ?_⟩,
      by simp [node?_set t notRoot]⟩
    intro k dir
    rw [node?_set t notRoot, if_neg, dir]
    rintro rfl
    rw [free] at dir
    cases dir

/-- After a file was taken away nothing is at the place that its path names. -/
theorem alters_of_unlink (direct : t.Direct path) (ends : Path.EndsIn path name)
    (h : t.unlink path = (.ok (), u)) : (∃ p, t.lookup false path = .ok p) ∧
      Alters (Path.locate t.current path) t u ∧ u.node? (Path.locate t.current path) = none := by
  rcases unlink_cases t path with ⟨e, he⟩ | ⟨l, n, found, notDir, hl⟩
  · simp [he] at h
  · obtain rfl : t.erase l = u := by simpa [hl] using h
    obtain ⟨rfl, node⟩ := placeAt_eq_found (lookup_eq_placeAt direct ends found).symm
    have notRoot := ends.locate_ne_nil t.current
    refine ⟨⟨_, found⟩, ⟨agreesOff_erase t _, t.noNewLinks_erase _, ?_⟩,
      by simp [node?_erase, notRoot]⟩
    intro k dir
    rw [node?_erase, if_neg, dir]
    rintro ⟨-, rfl⟩
    rw [node] at dir
    exact notDir (Option.some.inj dir)

/-- Whether something is at a path can be told from the place where it leads. -/
theorem isThere_eq {l : Location} (h : t.lookup true path = .ok (t.placeAt l)) :
    t.isThere path = (t.node? l).isSome := by
  unfold isThere find
  rw [h, placeAt]
  cases t.node? l <;> rfl

end BackupRetention.FileTree
