import BackupRetention.Proofs.Files.Listing

/-!
# Spellings of a path

Slashes can be repeated in a path, and names can stay in place. That tells no paths apart, and with
one more name behind it each of them leads to the same place. Only where they are too long for a
path they lead nowhere.

## Main definitions

* `Path.Same`: the path spelled in another way.

## Main results

* `FileTree.lookup_join_same`: both spellings lead to one place.
-/

namespace BackupRetention

namespace Path

/-- The names that do not stay in place. -/
def moves (names : List String) : List String := names.filter (· ≠ ".")

/-- The same path, but for repeated slashes and names that stay in place. -/
structure Same (p q : String) : Prop where
  absolute : isAbsolute p = isAbsolute q
  steps : steps p = steps q

instance (p q : String) : Decidable (Same p q) :=
  decidable_of_iff (isAbsolute p = isAbsolute q ∧ steps p = steps q)
    ⟨fun h => ⟨h.1, h.2⟩, fun h => ⟨h.absolute, h.steps⟩⟩

@[simp] theorem moves_moves (ns : List String) : moves (moves ns) = moves ns := by
  simp [moves]

@[simp] theorem moves_append (ns ms : List String) : moves (ns ++ ms) = moves ns ++ moves ms :=
  List.filter_append ..

theorem moves_steps (p : String) : moves (steps p) = moves (names p) := by
  unfold steps
  cases names p with
  | nil => rfl
  | cons n ns =>
    by_cases stay : n = "."
    · by_cases top : isAbsolute p = true <;> simp [moves, stay, top]
    · simp [moves, stay]

theorem Same.moves_names {p q : String} (h : Same p q) : moves (names p) = moves (names q) := by
  rw [← moves_steps, ← moves_steps, h.steps]

end Path

namespace FileTree

variable {t : FileTree} {follow : Bool} {x : String}

/-- Names that stay in place make no difference before another name. -/
theorem walkUntil_moves {jump : Location → List String → Except Errno Place}
    (jumps : ∀ l target rest, jump l (Path.names target ++ (rest ++ [x])) =
      jump l (Path.names target ++ (Path.moves rest ++ [x])))
    (here : Location) (names : List String) : t.walkUntil follow jump here (names ++ [x]) =
      t.walkUntil follow jump here (Path.moves names ++ [x]) := by
  induction names generalizing here with
  | nil => rfl
  | cons name names ih =>
    by_cases stay : name = "."
    · have passed : Path.moves (name :: names) = Path.moves names := by simp [Path.moves, stay]
      rw [passed, List.cons_append, walkUntil, if_pos stay, ih]
    · have kept : Path.moves (name :: names) = name :: Path.moves names := by
        simp [Path.moves, stay]
      have behind (l : Location) (target : String) := jumps l target names
      rw [kept, List.cons_append, List.cons_append, walkUntil, walkUntil]
      simp only [ih, behind, List.append_eq_nil_iff, List.cons_ne_nil, and_false, false_and,
        if_false]

theorem walk_moves (links : Nat) (here : Location) (names : List String) :
    t.walk follow links here (names ++ [x]) =
      t.walk follow links here (Path.moves names ++ [x]) := by
  induction links generalizing here names with
  | zero => exact walkUntil_moves (fun _ _ _ => rfl) here names
  | succ links ih =>
    refine walkUntil_moves (fun l target rest => ?_) here names
    rw [← List.append_assoc, ← List.append_assoc, ih, ih l (Path.names target ++ Path.moves rest),
      Path.moves_append, Path.moves_append, Path.moves_moves]

/-- A name below two spellings of a path leads to one place, if it leads to one from each. -/
theorem lookup_join_same {base base' : String} (same : Path.Same base base')
    (plain : Path.IsPlain x) {p q : Place}
    (hp : t.lookup follow (Path.join base x) = .ok p)
    (hq : t.lookup follow (Path.join base' x) = .ok q) : p = q := by
  have relative := Path.isAbsolute_of_noSlash plain.noSlash
  have walked {b : String} {r : Place} (h : t.lookup follow (Path.join b x) = .ok r) :
      t.walk follow maxLinks (if Path.isAbsolute b then [] else t.current)
        (Path.moves (Path.names b) ++ [x]) = .ok r := by
    have walk := (lookup_eq_ok_iff.1 h).2.1
    rwa [(Path.endsIn_join_of_plain b plain).noSlash, Bool.or_false, Path.startAt,
      Path.isAbsolute_join b relative, Path.names_join b relative,
      Path.names_of_single plain.nonempty plain.noSlash, walk_moves] at walk
  have one := walked hp
  rw [same.absolute, same.moves_names, walked hq] at one
  exact (Except.ok.inj one).symm

/-- A file below two spellings of a path reads the same, if it can be read from each. -/
theorem readText_join_same {base base' : String} (same : Path.Same base base')
    (plain : Path.IsPlain x) {text text' : String}
    (h : t.readText (Path.join base x) = .ok text)
    (h' : t.readText (Path.join base' x) = .ok text') : text = text' := by
  obtain ⟨p, found⟩ := exists_lookup_of_readText h
  obtain ⟨q, found'⟩ := exists_lookup_of_readText h'
  obtain rfl := lookup_join_same same plain found found'
  rw [readText, find, found] at h
  rw [readText, find, found'] at h'
  exact Except.ok.inj (h.symm.trans h')

end FileTree

end BackupRetention
