import BackupRetention.Files.Operations
import BackupRetention.Proofs.Files.Names

/-!
# Walks along paths

How looking up a path can succeed, name by name. Where there are no links on the way, a path leads
to the place that it names, and it still does so after changes that keep all directories.

## Main definitions

* `FileTree.Leads`: what a successful walk meets.
* `FileTree.Linkless`: a tree without links.
* `FileTree.Direct`: a path without links on the way.
* `FileTree.NoNewLinks`: a change that makes no links.

## Main results

* `FileTree.lookup_eq_ok_iff`: when looking up a path succeeds.
* `FileTree.lookup_eq_placeAt`: a direct path leads to the place that it names.
* `FileTree.lookup_of_dirs`: it does so as long as the directories stay.
-/

namespace BackupRetention

theorem getLast?_of_cons {x name : String} {rest : List String} (hne : rest ≠ [])
    (h : (x :: rest).getLast? = some name) : rest.getLast? = some name := by
  rwa [List.getLast?_cons_of_ne_nil hne] at h

/-- Where a path leads, whether something is there or not. -/
def Place.location : Place → Location
  | .found l _ => l
  | .vacant l => l

/-- There is a file, or there can be one: no link, no device and no directory. -/
def Place.IsOrdinary : Place → Prop
  | .vacant _ => True
  | .found _ (.file _) => True
  | .found _ _ => False

instance (p : Place) : Decidable p.IsOrdinary :=
  match p with
  | .vacant _ => .isTrue trivial
  | .found _ (.file _) => .isTrue trivial
  | .found _ .dir | .found _ (.link _) | .found _ .fullDevice | .found _ .nullDevice => .isFalse id

def Node.isLink : Node → Bool
  | .link _ => true
  | _ => false

namespace FileTree

/-- How a walk succeeds, name by name. The directory where it starts is taken for granted. -/
inductive Leads (t : FileTree) (follow : Bool) : Location → List String → Place → Prop where
  | arrive (here : Location) : Leads t follow here [] (.found here .dir)
  | stay {here : Location} {rest : List String} {p : Place}
      (onward : Leads t follow here rest p) : Leads t follow here ("." :: rest) p
  | back {here : Location} {rest : List String} {p : Place}
      (onward : Leads t follow here.dropLast rest p) : Leads t follow here (".." :: rest) p
  | enter {here : Location} {name : String} {rest : List String} {p : Place}
      (proper : Path.IsProper name) (short : name.utf8ByteSize ≤ maxName)
      (dir : t.node? (here ++ [name]) = some .dir)
      (onward : Leads t follow (here ++ [name]) rest p) : Leads t follow here (name :: rest) p
  | through {here : Location} {name target : String} {rest : List String} {p : Place}
      (proper : Path.IsProper name) (short : name.utf8ByteSize ≤ maxName)
      (link : t.node? (here ++ [name]) = some (.link target))
      (followed : rest = [] → follow = true)
      (onward : Leads t follow (Path.startAt here target) (Path.names target ++ rest) p) :
      Leads t follow here (name :: rest) p
  | vacant {here : Location} {name : String} (proper : Path.IsProper name)
      (short : name.utf8ByteSize ≤ maxName) (free : t.node? (here ++ [name]) = none) :
      Leads t follow here [name] (.vacant (here ++ [name]))
  | leaf {here : Location} {name : String} {n : Node} (proper : Path.IsProper name)
      (short : name.utf8ByteSize ≤ maxName) (node : t.node? (here ++ [name]) = some n)
      (last : n ≠ .dir) : Leads t follow here [name] (.found (here ++ [name]) n)

variable {t u : FileTree} {follow : Bool} {links : Nat} {here : Location} {names : List String}
  {p : Place}

/-- A walk succeeds step by step if what is behind links does. -/
theorem leads_of_walkUntil {jump : Location → List String → Except Errno Place}
    (jumps : ∀ here names p, jump here names = .ok p → t.Leads follow here names p)
    (h : t.walkUntil follow jump here names = .ok p) : t.Leads follow here names p := by
  fun_induction walkUntil t follow jump here names with
  | case1 here =>
    cases h
    exact .arrive here
  | case2 here rest ih => exact .stay (ih h)
  | case3 here rest _ ih => exact .back (ih h)
  | case4 | case6 | case11 => cases h
  | case5 here name hdot hdots short l free =>
    cases h
    exact .vacant ⟨hdot, hdots⟩ (by omega) free
  | case7 here name rest hdot hdots short l dir ih =>
    exact .enter ⟨hdot, hdots⟩ (by omega) dir (ih h)
  | case8 here name rest hdot hdots short l target link last =>
    obtain ⟨rfl, -⟩ := last
    cases h
    exact .leaf ⟨hdot, hdots⟩ (by omega) link (by simp)
  | case9 here name rest hdot hdots short l target link notLast =>
    refine .through ⟨hdot, hdots⟩ (by omega) link ?_ (jumps _ _ _ h)
    intro last
    simpa [last] using notLast
  | case10 here name hdot hdots short l n notDir notLink node =>
    cases h
    exact .leaf ⟨hdot, hdots⟩ (by omega) node notDir

theorem leads_of_walk (h : t.walk follow links here names = .ok p) :
    t.Leads follow here names p := by
  -- By the links that may still be followed; between two of them the names get fewer.
  induction links generalizing here names p with
  | zero => exact leads_of_walkUntil (fun _ _ _ none => by cases none) h
  | succ links ih => exact leads_of_walkUntil (fun _ _ _ => ih) h

/-- A walk that does not end at a link goes on as if links at the end were followed. -/
theorem walkUntil_follow {jump jump' : Location → List String → Except Errno Place}
    (jumps : ∀ here names, jump here names = .ok p → jump' here names = .ok p)
    (notLink : ∀ l target, p ≠ .found l (.link target))
    (h : t.walkUntil false jump here names = .ok p) :
    t.walkUntil true jump' here names = .ok p := by
  fun_induction walkUntil t false jump here names with
  | case1 here => simpa [walkUntil] using h
  | case2 here rest ih =>
    rw [walkUntil, if_pos rfl]
    exact ih h
  | case3 here rest other ih =>
    rw [walkUntil, if_neg other, if_pos rfl]
    exact ih h
  | case4 | case6 | case11 => cases h
  | case5 here name hdot hdots short l free =>
    simpa [walkUntil, hdot, hdots, short, l, free] using h
  | case7 here name rest hdot hdots short l dir ih =>
    rw [walkUntil, if_neg hdot, if_neg hdots, if_neg short]
    simp only [l] at dir ih
    simp only [dir]
    exact ih h
  | case8 here name rest hdot hdots short l target link last =>
    cases h
    exact absurd rfl (notLink _ _)
  | case9 here name rest hdot hdots short l target link notLast =>
    rw [walkUntil, if_neg hdot, if_neg hdots, if_neg short]
    simp only [l] at link
    simpa [link] using jumps _ _ h
  | case10 here name hdot hdots short l n notDir isNoLink node =>
    rw [walkUntil, if_neg hdot, if_neg hdots, if_neg short]
    simp only [l] at node
    cases n with
    | dir => exact absurd rfl notDir
    | link target => exact absurd rfl (isNoLink target)
    | _ => simpa [node] using h

theorem walk_follow (notLink : ∀ l target, p ≠ .found l (.link target))
    (h : t.walk false links here names = .ok p) : t.walk true links here names = .ok p := by
  induction links generalizing here names with
  | zero => exact walkUntil_follow (fun _ _ none => by cases none) notLink h
  | succ links ih => exact walkUntil_follow (fun _ _ => ih) notLink h

/-- A walk that follows links at its end shows that there is something on the way. -/
theorem walkUntil_unfollowed {jump jump' : Location → List String → Except Errno Place}
    (jumps : ∀ here names p, jump here names = .ok p → ∃ q, jump' here names = .ok q)
    (h : t.walkUntil true jump here names = .ok p) :
    ∃ q, t.walkUntil false jump' here names = .ok q := by
  fun_induction walkUntil t true jump here names with
  | case1 here => exact ⟨_, rfl⟩
  | case2 here rest ih =>
    rw [walkUntil, if_pos rfl]
    exact ih h
  | case3 here rest other ih =>
    rw [walkUntil, if_neg other, if_pos rfl]
    exact ih h
  | case4 | case6 | case11 => cases h
  | case5 here name hdot hdots short l free => simp [walkUntil, hdot, hdots, short, l, free]
  | case7 here name rest hdot hdots short l dir ih =>
    rw [walkUntil, if_neg hdot, if_neg hdots, if_neg short]
    simp only [l] at dir ih
    simp only [dir]
    exact ih h
  | case8 here name rest hdot hdots short l target link last => simp at last
  | case9 here name rest hdot hdots short l target link notLast =>
    rw [walkUntil, if_neg hdot, if_neg hdots, if_neg short]
    simp only [l] at link
    simp only [link]
    split
    · exact ⟨_, rfl⟩
    · exact jumps _ _ _ h
  | case10 here name hdot hdots short l n notDir isNoLink node =>
    rw [walkUntil, if_neg hdot, if_neg hdots, if_neg short]
    simp only [l] at node
    cases n with
    | dir => exact absurd rfl notDir
    | link target => exact absurd rfl (isNoLink target)
    | _ => simp [node]

theorem walk_unfollowed (h : t.walk true links here names = .ok p) :
    ∃ q, t.walk false links here names = .ok q := by
  induction links generalizing here names p with
  | zero => exact walkUntil_unfollowed (fun _ _ _ none => by cases none) h
  | succ links ih => exact walkUntil_unfollowed (fun _ _ _ => ih) h

/-- A vacant place is free, and what is found is there. -/
theorem Leads.placed (h : t.Leads follow here names p) :
    (∀ l, p = .vacant l → t.node? l = none) ∧
      ∀ l n, p = .found l n → n ≠ .dir → t.node? l = some n := by
  induction h with
  | arrive here => simp
  | stay _ ih => exact ih
  | back _ ih => exact ih
  | enter _ _ _ _ ih => exact ih
  | through _ _ _ _ _ ih => exact ih
  | vacant _ _ free => simp [free]
  | leaf _ _ node => simp [node]

/-- A walk that does not follow a link at its end comes to the last of the names. -/
theorem Leads.last (h : t.Leads false here names p) {name : String}
    (proper : Path.IsProper name) (last : names.getLast? = some name) :
    p.location.getLast? = some name := by
  induction h with
  | arrive here => simp at last
  | @stay here rest p _ ih =>
    refine ih (getLast?_of_cons ?_ last)
    rintro rfl
    exact proper.ne_dot (by simpa using last.symm)
  | @back here rest p _ ih =>
    refine ih (getLast?_of_cons ?_ last)
    rintro rfl
    exact proper.ne_dots (by simpa using last.symm)
  | @enter here x rest p _ _ _ onward ih =>
    by_cases hr : rest = []
    · subst hr
      cases onward
      simpa [Place.location] using last
    · exact ih (getLast?_of_cons hr last)
  | @through here x target rest p _ _ _ followed _ ih =>
    have hr : rest ≠ [] := fun hr => Bool.false_ne_true (followed hr)
    refine ih ?_
    rw [List.getLast?_append, getLast?_of_cons hr last]
    rfl
  | vacant => simpa [Place.location] using last
  | leaf => simpa [Place.location] using last

/-! ## Ways without links -/

/-- There are no links. -/
def Linkless (t : FileTree) : Prop :=
  ∀ l target, t.node? l ≠ some (.link target)

/-- There are no links at these places. -/
def Clear (t : FileTree) (ls : List Location) : Prop :=
  ∀ l ∈ ls, ∀ target, t.node? l ≠ some (.link target)

/-- There are no links on the way that the path names. -/
def Direct (t : FileTree) (path : String) : Prop := t.Clear (Path.along t.current path)

/-- All links of `u` are links of `t`. -/
def NoNewLinks (t u : FileTree) : Prop :=
  ∀ l target, u.node? l = some (.link target) → t.node? l = some (.link target)

theorem Linkless.direct (h : t.Linkless) (path : String) : t.Direct path := fun l _ => h l

theorem NoNewLinks.refl (t : FileTree) : t.NoNewLinks t := fun _ _ link => link

theorem NoNewLinks.trans {v : FileTree} (h : t.NoNewLinks u) (g : u.NoNewLinks v) :
    t.NoNewLinks v :=
  fun l target link => h l target (g l target link)

theorem Clear.of_links {ls : List Location} (h : t.Clear ls) (links : t.NoNewLinks u) :
    u.Clear ls :=
  fun l hl target link => h l hl target (links l target link)

theorem Direct.of_links {path : String} (h : t.Direct path) (links : t.NoNewLinks u)
    (current : u.current = t.current) : u.Direct path := by
  rw [Direct, current]
  exact Clear.of_links h links

theorem noNewLinks_set (t : FileTree) {l : Location} (notRoot : l ≠ []) (content : ByteArray) :
    t.NoNewLinks (t.set l (.file content)) := by
  intro k target link
  rw [node?_set t notRoot] at link
  split at link
  · simp at link
  · exact link

theorem noNewLinks_erase (t : FileTree) (l : Location) : t.NoNewLinks (t.erase l) := by
  intro k target link
  rw [node?_erase] at link
  split at link
  · cases link
  · exact link

theorem noNewLinks_eraseBelow (t : FileTree) (l : Location) : t.NoNewLinks (t.eraseBelow l) := by
  intro k target link
  rw [node?_eraseBelow] at link
  split at link
  · cases link
  · exact link

theorem linkless_of_all (h : t.nodes.all (fun e => !e.2.isLink) = true) : t.Linkless := by
  intro l target node
  have member : (l, Node.link target) ∈ t.nodes := by
    unfold node? at node
    split at node
    · cases node
    · obtain ⟨before, after, split, -⟩ := List.lookup_eq_some_iff.1 node
      simp [split]
  simpa [Node.isLink] using List.all_eq_true.1 h _ member

/-- What a walk to `l` finds there. -/
def placeAt (t : FileTree) (l : Location) : Place :=
  match t.node? l with
  | none => .vacant l
  | some n => .found l n

theorem location_placeAt (t : FileTree) (l : Location) : (t.placeAt l).location = l := by
  unfold placeAt
  split <;> rfl

theorem placeAt_eq_found {l k : Location} {n : Node} (h : t.placeAt l = .found k n) :
    k = l ∧ t.node? l = some n := by
  unfold placeAt at h
  split at h
  · cases h
  · next m node =>
    cases h
    exact ⟨rfl, node⟩

theorem placeAt_eq_vacant {l k : Location} (h : t.placeAt l = .vacant k) :
    k = l ∧ t.node? l = none := by
  unfold placeAt at h
  split at h
  · next free =>
    cases h
    exact ⟨rfl, free⟩
  · cases h

/-- Without links the names alone tell where a walk leads. -/
theorem Leads.eq_placeAt (clear : t.Clear (Path.entered here names))
    (h : t.Leads follow here names p) {name : String} (proper : Path.IsProper name)
    (last : names.getLast? = some name) :
    p = t.placeAt (names.foldl Path.step here) := by
  induction h with
  | arrive here => simp at last
  | @stay here rest p _ ih =>
    refine ih clear (getLast?_of_cons ?_ last)
    rintro rfl
    exact proper.ne_dot (by simpa using last.symm)
  | @back here rest p _ ih =>
    refine ih clear (getLast?_of_cons ?_ last)
    rintro rfl
    exact proper.ne_dots (by simpa using last.symm)
  | @enter here x rest p proper' _ dir onward ih =>
    rw [Path.entered, if_pos proper'] at clear
    rw [List.foldl_cons, Path.step_of_proper proper']
    by_cases hr : rest = []
    · subst hr
      cases onward
      simp [placeAt, dir]
    · exact ih (fun l hl => clear l (List.mem_cons_of_mem _ hl)) (getLast?_of_cons hr last)
  | through proper' _ link =>
    rw [Path.entered, if_pos proper'] at clear
    exact absurd link (clear _ List.mem_cons_self _)
  | vacant proper' _ free => simp [Path.step_of_proper proper', placeAt, free]
  | leaf proper' _ node => simp [Path.step_of_proper proper', placeAt, node]

/-- The same, whatever the names end in. -/
theorem Leads.location_eq (clear : t.Clear (Path.entered here names))
    (h : t.Leads follow here names p) : p.location = names.foldl Path.step here := by
  induction h with
  | arrive here => rfl
  | stay _ ih => exact ih clear
  | back _ ih => exact ih clear
  | enter proper _ _ _ ih =>
    rw [Path.entered, if_pos proper] at clear
    rw [List.foldl_cons, Path.step_of_proper proper,
      ih fun l hl => clear l (List.mem_cons_of_mem _ hl)]
  | through proper _ link =>
    rw [Path.entered, if_pos proper] at clear
    exact absurd link (clear _ List.mem_cons_self _)
  | vacant proper => rw [List.foldl_cons, Path.step_of_proper proper]; rfl
  | leaf proper => rw [List.foldl_cons, Path.step_of_proper proper]; rfl

section Onward

variable {jump : Location → List String → Except Errno Place}

/-- The last step of a walk without links. -/
theorem walkUntil_single {x : String} (clear : t.Clear [here ++ [x]])
    (proper : Path.IsProper x) (short : x.utf8ByteSize ≤ maxName) :
    t.walkUntil follow jump here [x] = .ok (t.placeAt (here ++ [x])) := by
  rw [walkUntil, if_neg proper.ne_dot, if_neg proper.ne_dots, if_neg (by omega), placeAt]
  cases node : t.node? (here ++ [x]) with
  | none => simp [node]
  | some n =>
    cases n with
    | dir => simp [node, walkUntil]
    | link target => exact absurd node (clear _ List.mem_cons_self _)
    | _ => simp [node]

/-- A walk without links leads as far in every other such tree that has the same directories. -/
theorem Leads.walkUntil_of_dirs (clear : t.Clear (Path.entered here names))
    (clear' : u.Clear (Path.entered here names))
    (dirs : ∀ l ∈ Path.entered here names, t.node? l = some .dir → u.node? l = some .dir)
    (h : t.Leads follow here names p) {name : String} (proper : Path.IsProper name)
    (last : names.getLast? = some name) (follow' : Bool) :
    u.walkUntil follow' jump here names = .ok (u.placeAt (names.foldl Path.step here)) := by
  induction h with
  | arrive here => simp at last
  | @stay here rest p _ ih =>
    rw [walkUntil, if_pos rfl]
    refine ih clear clear' dirs (getLast?_of_cons ?_ last)
    rintro rfl
    exact proper.ne_dot (by simpa using last.symm)
  | @back here rest p _ ih =>
    rw [walkUntil, if_neg (by decide), if_pos rfl]
    refine ih clear clear' dirs (getLast?_of_cons ?_ last)
    rintro rfl
    exact proper.ne_dots (by simpa using last.symm)
  | @enter here x rest p proper' short dir onward ih =>
    rw [Path.entered, if_pos proper'] at clear clear' dirs
    rw [List.foldl_cons, Path.step_of_proper proper']
    by_cases hr : rest = []
    · subst hr
      exact walkUntil_single clear' proper' short
    · rw [walkUntil, if_neg proper'.ne_dot, if_neg proper'.ne_dots, if_neg (by omega)]
      simp only [dirs _ List.mem_cons_self dir]
      exact ih (fun l hl => clear l (List.mem_cons_of_mem _ hl))
        (fun l hl => clear' l (List.mem_cons_of_mem _ hl))
        (fun l hl => dirs l (List.mem_cons_of_mem _ hl)) (getLast?_of_cons hr last)
  | through proper' _ link =>
    rw [Path.entered, if_pos proper'] at clear
    exact absurd link (clear _ List.mem_cons_self _)
  | vacant proper' short _ =>
    rw [Path.entered, if_pos proper'] at clear'
    rw [List.foldl_cons, List.foldl_nil, Path.step_of_proper proper']
    exact walkUntil_single clear' proper' short
  | leaf proper' short _ _ =>
    rw [Path.entered, if_pos proper'] at clear'
    rw [List.foldl_cons, List.foldl_nil, Path.step_of_proper proper']
    exact walkUntil_single clear' proper' short

/-- A walk without links that comes to a directory does so in every other tree that has the
directories on the way. -/
theorem Leads.walkUntil_dir (clear : t.Clear (Path.entered here names)) {l : Location}
    (h : t.Leads follow here names (.found l .dir))
    (dirs : ∀ k ∈ Path.entered here names, t.node? k = some .dir → u.node? k = some .dir)
    (follow' : Bool) : u.walkUntil follow' jump here names = .ok (.found l .dir) := by
  generalize hp : Place.found l .dir = p at h
  induction h with
  | arrive here => rfl
  | stay _ ih =>
    rw [walkUntil, if_pos rfl]
    exact ih clear dirs hp
  | back _ ih =>
    rw [walkUntil, if_neg (by decide), if_pos rfl]
    exact ih clear dirs hp
  | @enter here x rest p proper short dir _ ih =>
    rw [Path.entered, if_pos proper] at clear dirs
    rw [walkUntil, if_neg proper.ne_dot, if_neg proper.ne_dots, if_neg (by omega)]
    simp only [dirs _ List.mem_cons_self dir]
    exact ih (fun k hk => clear k (List.mem_cons_of_mem _ hk))
      (fun k hk => dirs k (List.mem_cons_of_mem _ hk)) hp
  | through proper _ link =>
    rw [Path.entered, if_pos proper] at clear
    exact absurd link (clear _ List.mem_cons_self _)
  | vacant => cases hp
  | leaf _ _ _ last =>
    cases hp
    exact absurd rfl last

/-- A walk without links that comes to some name also comes to a shorter one beside it. -/
theorem Leads.walkUntil_beside {ns : List String} {x y : String}
    (clear : t.Clear (Path.entered here (ns ++ [x])))
    (h : t.Leads follow here (ns ++ [x]) p) (last : Path.IsProper x) (proper : Path.IsProper y)
    (shorter : y.utf8ByteSize ≤ x.utf8ByteSize) (free : t.Clear [ns.foldl Path.step here ++ [y]])
    (follow' : Bool) : t.walkUntil follow' jump here (ns ++ [y]) =
      .ok (t.placeAt (ns.foldl Path.step here ++ [y])) := by
  induction ns generalizing here with
  | nil =>
    have short : x.utf8ByteSize ≤ maxName := by
      cases h with
      | stay => exact absurd rfl last.ne_dot
      | back => exact absurd rfl last.ne_dots
      | enter _ short | through _ short | vacant _ short | leaf _ short => exact short
    exact walkUntil_single free proper (Nat.le_trans shorter short)
  | cons name ns ih =>
    rw [List.cons_append] at h clear ⊢
    rw [List.foldl_cons] at free ⊢
    generalize hrest : ns ++ [x] = rest at h clear
    have more : rest ≠ [] := by simp [← hrest]
    cases h with
    | stay onward =>
      subst hrest
      rw [walkUntil, if_pos rfl]
      exact ih clear onward free
    | back onward =>
      subst hrest
      rw [walkUntil, if_neg (by decide), if_pos rfl]
      exact ih clear onward free
    | enter proper' short dir onward =>
      subst hrest
      rw [Path.entered, if_pos proper'] at clear
      rw [Path.step_of_proper proper'] at free ⊢
      rw [walkUntil, if_neg proper'.ne_dot, if_neg proper'.ne_dots, if_neg (by omega)]
      simp only [dir]
      exact ih (fun l hl => clear l (List.mem_cons_of_mem _ hl)) onward free
    | through proper' _ link =>
      rw [Path.entered, if_pos proper'] at clear
      exact absurd link (clear _ List.mem_cons_self _)
    | vacant | leaf => exact absurd rfl more

end Onward

/-! ## Look-ups -/

section Lookup

variable {path name : String}

theorem eq_of_demandDirectory {place : Place} (h : demandDirectory path place = .ok p) :
    p = place := by
  unfold demandDirectory at h
  split at h
  · exact (Except.ok.inj h).symm
  · split at h
    · cases h
    · exact (Except.ok.inj h).symm
  · exact (Except.ok.inj h).symm

/-- A look-up succeeds if its path is one and the walk along it does. -/
theorem lookup_eq_ok_iff : t.lookup follow path = .ok p ↔
    (path.toList ≠ [] ∧ path.toList.contains '\x00' = false ∧ path.utf8ByteSize < maxPath) ∧
      t.walk (follow || Path.endsInSlash path) maxLinks (Path.startAt t.current path)
        (Path.names path) = .ok p ∧ demandDirectory path p = .ok p := by
  constructor
  · intro h
    unfold lookup at h
    split at h
    · cases h
    · next nonempty =>
      split at h
      · cases h
      · next nul =>
        split at h
        · cases h
        · next long =>
          refine ⟨⟨nonempty, by simpa using nul, by omega⟩, ?_⟩
          dsimp only at h
          split at h
          · cases h
          · next place walked =>
            split at h
            · cases h
            · next demanded =>
              cases h
              obtain rfl := eq_of_demandDirectory demanded
              exact ⟨walked, demanded⟩
  · rintro ⟨⟨nonempty, nul, long⟩, walked, demanded⟩
    rw [Path.startAt] at walked
    rw [lookup, if_neg nonempty, if_neg (by rw [nul]; simp), if_neg (by omega)]
    dsimp only
    rw [walked]
    simp only [demanded]

/-- What is behind a successful look-up. -/
theorem lookup_eq_ok (h : t.lookup follow path = .ok p) :
    (path.toList ≠ [] ∧ path.toList.contains '\x00' = false ∧ path.utf8ByteSize < maxPath) ∧
      t.Leads (follow || Path.endsInSlash path) (Path.startAt t.current path)
        (Path.names path) p := by
  obtain ⟨sound, walked, -⟩ := lookup_eq_ok_iff.1 h
  exact ⟨sound, leads_of_walk walked⟩

/-- What is no link is also found when a link would be followed. -/
theorem lookup_follow {path : String} (notLink : ∀ l target, p ≠ .found l (.link target))
    (h : t.lookup false path = .ok p) : t.lookup true path = .ok p := by
  obtain ⟨sound, walked, demanded⟩ := lookup_eq_ok_iff.1 h
  refine lookup_eq_ok_iff.2 ⟨sound, ?_, demanded⟩
  cases slash : Path.endsInSlash path with
  | true => rwa [slash] at walked
  | false =>
    rw [slash] at walked
    exact walk_follow notLink walked

theorem demandDirectory_of_noSlash {path : String} (noSlash : Path.endsInSlash path = false)
    (p : Place) : demandDirectory path p = .ok p := by
  cases p with
  | vacant l => rfl
  | found l n => cases n <;> simp [demandDirectory, noSlash]

/-- What is found when links are followed is found, or a link to it, when they are not. -/
theorem exists_lookup_unfollowed {path : String} (noSlash : Path.endsInSlash path = false)
    (h : t.lookup true path = .ok p) : ∃ q, t.lookup false path = .ok q := by
  obtain ⟨sound, walked, -⟩ := lookup_eq_ok_iff.1 h
  obtain ⟨q, reached⟩ := walk_unfollowed walked
  refine ⟨q, lookup_eq_ok_iff.2 ⟨sound, ?_, demandDirectory_of_noSlash noSlash q⟩⟩
  rwa [noSlash]

theorem Leads.of_lookup (h : t.lookup follow path = .ok p) (ends : Path.EndsIn path name) :
    t.Leads follow (Path.startAt t.current path) (Path.names path) p := by
  have leads := (lookup_eq_ok h).2
  rwa [ends.noSlash, Bool.or_false] at leads

/-- The way to something in a directory is direct if the way to the directory is. -/
theorem Direct.join {base : String} (h : t.Direct base) (plain : Path.IsPlain name)
    (notLink : ∀ target, t.node? (Path.locate t.current base ++ [name]) ≠ some (.link target)) :
    t.Direct (Path.join base name) := by
  intro l hl
  rcases Path.along_join_of_plain plain hl with rfl | hl
  · exact notLink
  · exact h l hl

theorem Direct.clear (h : t.Direct path) :
    t.Clear (Path.entered (Path.startAt t.current path) (Path.names path)) :=
  fun l hl => h l (List.mem_cons_of_mem _ hl)

/-- A direct path leads to the place that it names. -/
theorem lookup_eq_placeAt (direct : t.Direct path) (ends : Path.EndsIn path name)
    (h : t.lookup follow path = .ok p) : p = t.placeAt (Path.locate t.current path) :=
  (Leads.of_lookup h ends).eq_placeAt direct.clear ends.proper ends.last

/-- A direct path still leads to the place that it names after a change that keeps the directories
on the way and makes no links. -/
theorem lookup_of_dirs (direct : t.Direct path) (links : t.NoNewLinks u)
    (current : u.current = t.current)
    (dirs : ∀ l ∈ Path.along t.current path, t.node? l = some .dir → u.node? l = some .dir)
    (ends : Path.EndsIn path name)
    (h : t.lookup follow path = .ok p) (follow' : Bool) :
    u.lookup follow' path = .ok (u.placeAt (Path.locate u.current path)) := by
  obtain ⟨sound, -⟩ := lookup_eq_ok h
  refine lookup_eq_ok_iff.2 ⟨sound, ?_, demandDirectory_of_noSlash ends.noSlash _⟩
  rw [current]
  exact (Leads.of_lookup h ends).walkUntil_of_dirs direct.clear (direct.clear.of_links links)
    (fun l hl => dirs l (List.mem_cons_of_mem _ hl)) ends.proper ends.last _

/-- A direct path to a directory leads there after a change that keeps the directories on the
way. -/
theorem lookup_dir_of_dirs (direct : t.Direct path) (current : u.current = t.current)
    (dirs : ∀ l ∈ Path.along t.current path, t.node? l = some .dir → u.node? l = some .dir)
    {l : Location} (h : t.lookup follow path = .ok (.found l .dir)) (follow' : Bool) :
    l = Path.locate t.current path ∧ u.lookup follow' path = .ok (.found l .dir) := by
  obtain ⟨sound, leads⟩ := lookup_eq_ok h
  refine ⟨leads.location_eq direct.clear, lookup_eq_ok_iff.2 ⟨sound, ?_, rfl⟩⟩
  rw [current]
  exact leads.walkUntil_dir direct.clear (fun k hk => dirs k (List.mem_cons_of_mem _ hk)) _

/-- A direct path still leads to the place that it names if the end of its last name is cut. -/
theorem lookup_cut {base name s : String} (plain : Path.IsPlain name)
    (plain' : Path.IsPlain (name ++ s)) (direct : t.Direct (Path.join base (name ++ s)))
    (free : ∀ target, t.node? (Path.locate t.current base ++ [name]) ≠ some (.link target))
    (h : t.lookup follow (Path.join base (name ++ s)) = .ok p) (follow' : Bool) :
    t.lookup follow' (Path.join base name) =
      .ok (t.placeAt (Path.locate t.current base ++ [name])) := by
  have whole : Path.join base (name ++ s) = Path.join base name ++ s :=
    (Path.join_append base plain.nonempty s).symm
  have relative := Path.isAbsolute_of_noSlash plain.noSlash
  have relative' := Path.isAbsolute_of_noSlash plain'.noSlash
  obtain ⟨⟨-, nul, long⟩, -⟩ := lookup_eq_ok h
  have leads := Leads.of_lookup h (Path.endsIn_join_of_plain base plain')
  have clear := direct.clear
  rw [Path.names_join base relative', Path.names_of_single plain'.nonempty plain'.noSlash,
    Path.startAt, Path.isAbsolute_join base relative'] at leads clear
  have walked (follow : Bool) : t.walk follow maxLinks (Path.startAt t.current base)
      (Path.names base ++ [name]) = .ok (t.placeAt (Path.locate t.current base ++ [name])) :=
    leads.walkUntil_beside clear plain'.toIsProper plain.toIsProper (by simp)
      (fun l hl => List.mem_singleton.1 hl ▸ free) follow
  have nonempty : (Path.join base name).toList ≠ [] := by
    intro empty
    have last := (Path.endsIn_join_of_plain base plain).last
    rw [Path.names, Text.split, empty] at last
    simp [Text.pieces_nil] at last
  rw [whole, String.toList_append, List.contains_append, Bool.or_eq_false_iff] at nul
  rw [whole, String.utf8ByteSize_append] at long
  refine lookup_eq_ok_iff.2 ⟨⟨nonempty, nul.1, by omega⟩, ?_,
    demandDirectory_of_noSlash (Path.endsIn_join_of_plain base plain).noSlash _⟩
  rw [Path.startAt, Path.isAbsolute_join base relative, Path.names_join base relative,
    Path.names_of_single plain.nonempty plain.noSlash]
  exact walked _

end Lookup

end FileTree

end BackupRetention
