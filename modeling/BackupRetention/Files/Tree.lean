import BackupRetention.Files.Path

/-!
# File trees

All that is stored on a machine, as a list of places and what is there. A place is the list
of names that leads to it from the root. The order of the list is the order in which
directories are listed. A tree keeps the changes made to it, so that they can be carried out
elsewhere.

## Main definitions

* `FileTree.node?`: what is at a place.
* `FileTree.set`, `FileTree.erase`, `FileTree.eraseBelow`: the changes.
* `FileTree.AgreesOff`: two trees that differ inside a set of places only.
-/

namespace BackupRetention

/-- The names from the root to a file or directory. -/
abbrev Location := List String

/-- Two contents are the same if all their bytes are. -/
local instance contentDecidableEq : DecidableEq ByteArray := fun a b =>
  decidable_of_iff (a.data = b.data) ByteArray.ext_iff.symm

/-- What can be at a place. -/
inductive Node where
  | file (content : ByteArray)
  | dir
  | link (target : String)
  | fullDevice
  | nullDevice
  deriving DecidableEq

/-- A change to a tree. -/
inductive Change where
  | put (l : Location) (n : Node)
  | drop (l : Location)
  | dropBelow (l : Location)
  deriving DecidableEq

structure FileTree where
  nodes : List (Location × Node)
  /-- Where relative paths start. -/
  current : Location
  /-- What has been changed, latest first. -/
  changes : List Change

namespace FileTree

/-- A tree with nothing but its root. -/
def empty : FileTree := ⟨[], [], []⟩

/-- What is at `l`. The root is always a directory. -/
def node? (t : FileTree) (l : Location) : Option Node :=
  if l = [] then some .dir else t.nodes.lookup l

/-- Puts `n` at `l`, last in the listing of its directory if nothing was there. -/
def setIn (l : Location) (n : Node) : List (Location × Node) → List (Location × Node)
  | [] => [(l, n)]
  | (k, m) :: rest => if k = l then (l, n) :: rest else (k, m) :: setIn l n rest

def set (t : FileTree) (l : Location) (n : Node) : FileTree :=
  { t with nodes := setIn l n t.nodes, changes := .put l n :: t.changes }

/-- Takes away what is at `l`. -/
def erase (t : FileTree) (l : Location) : FileTree :=
  { t with nodes := t.nodes.filter fun e => e.1 ≠ l, changes := .drop l :: t.changes }

/-- Takes away what is at `l` and everything below. -/
def eraseBelow (t : FileTree) (l : Location) : FileTree :=
  { t with nodes := t.nodes.filter fun e => ¬ l <+: e.1, changes := .dropBelow l :: t.changes }

/-- The names in the directory at `l`. -/
def children (t : FileTree) (l : Location) : List String :=
  t.nodes.filterMap fun e =>
    match e.1.getLast? with
    | some name => if e.1.dropLast = l then some name else none
    | none => none

@[simp] theorem node?_root (t : FileTree) : t.node? [] = some .dir := by
  simp [node?]

theorem lookup_cons_eq (k j : Location) (m : Node) (rest : List (Location × Node)) :
    ((j, m) :: rest).lookup k = if k = j then some m else rest.lookup k := by
  by_cases h : k = j
  · subst h
    simp
  · have hb : (k == j) = false := by simpa using h
    simp [List.lookup_cons, hb, h]

theorem lookup_setIn (l k : Location) (n : Node) (nodes : List (Location × Node)) :
    (setIn l n nodes).lookup k = if k = l then some n else nodes.lookup k := by
  induction nodes with
  | nil => simp [setIn, lookup_cons_eq]
  | cons e rest ih =>
    obtain ⟨j, m⟩ := e
    unfold setIn
    by_cases hj : j = l
    · subst hj
      by_cases hk : k = j <;> simp [lookup_cons_eq, hk]
    · by_cases hk : k = j
      · subst hk
        simp [hj]
      · simp [lookup_cons_eq, hj, hk, ih]

theorem node?_set (t : FileTree) {l : Location} (hl : l ≠ []) (n : Node) (k : Location) :
    (t.set l n).node? k = if k = l then some n else t.node? k := by
  unfold node? set
  by_cases hk : k = []
  · subst hk
    simp [Ne.symm hl]
  · simp [hk, lookup_setIn]

theorem lookup_filter (p : Location → Bool) (nodes : List (Location × Node)) (k : Location) :
    (nodes.filter fun e => p e.1).lookup k = if p k then nodes.lookup k else none := by
  induction nodes with
  | nil => simp
  | cons e rest ih =>
    obtain ⟨j, m⟩ := e
    by_cases hp : p j = true
    · by_cases hk : k = j
      · subst hk
        simp [hp]
      · simp [hp, lookup_cons_eq, hk, ih]
    · by_cases hk : k = j
      · subst hk
        simp [hp, ih]
      · simp [hp, lookup_cons_eq, hk, ih]

theorem node?_erase (t : FileTree) (l k : Location) :
    (t.erase l).node? k = if k ≠ [] ∧ k = l then none else t.node? k := by
  by_cases hk : k = []
  · simp [hk]
  · simp only [node?, erase, hk, if_false, ne_eq, not_false_eq_true, true_and,
      lookup_filter fun e => decide (e ≠ l)]
    by_cases h : k = l <;> simp [h]

theorem node?_eraseBelow (t : FileTree) (l k : Location) :
    (t.eraseBelow l).node? k = if k ≠ [] ∧ l <+: k then none else t.node? k := by
  by_cases hk : k = []
  · simp [hk]
  · simp only [node?, eraseBelow, hk, if_false, ne_eq, not_false_eq_true, true_and,
      lookup_filter fun e => decide (¬ l <+: e)]
    by_cases h : l <+: k <;> simp [h]

/-- The two trees hold the same outside `changed`, and paths start at the same place. -/
def AgreesOff (changed : Location → Prop) (t u : FileTree) : Prop :=
  u.current = t.current ∧ ∀ l, ¬ changed l → u.node? l = t.node? l

theorem AgreesOff.refl (changed : Location → Prop) (t : FileTree) : AgreesOff changed t t :=
  ⟨rfl, fun _ _ => rfl⟩

theorem AgreesOff.trans {changed : Location → Prop} {t u v : FileTree}
    (h : AgreesOff changed t u) (g : AgreesOff changed u v) : AgreesOff changed t v :=
  ⟨g.1.trans h.1, fun l hl => (g.2 l hl).trans (h.2 l hl)⟩

theorem AgreesOff.mono {changed more : Location → Prop} {t u : FileTree}
    (h : AgreesOff changed t u) (hm : ∀ l, changed l → more l) : AgreesOff more t u :=
  ⟨h.1, fun l hl => h.2 l fun hc => hl (hm l hc)⟩

theorem agreesOff_set (t : FileTree) {l : Location} (hl : l ≠ []) (n : Node) :
    AgreesOff (· = l) t (t.set l n) :=
  ⟨rfl, fun k hk => by rw [node?_set t hl]; simp [hk]⟩

theorem agreesOff_erase (t : FileTree) (l : Location) : AgreesOff (· = l) t (t.erase l) :=
  ⟨rfl, fun k hk => by rw [node?_erase]; simp [hk]⟩

theorem agreesOff_eraseBelow (t : FileTree) (l : Location) :
    AgreesOff (l <+: ·) t (t.eraseBelow l) :=
  ⟨rfl, fun k hk => by rw [node?_eraseBelow]; simp [hk]⟩

end FileTree

end BackupRetention
