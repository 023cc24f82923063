import BackupRetention.Files.Tree
import BackupRetention.Proofs.Text.Pieces

/-!
# Names along paths

Joining paths appends the names along them. Read without looking at any files, the names tell
a place: `.` stays, `..` goes back, every other name goes one step down.

## Main definitions

* `Path.IsProper`: a name that goes down.
* `Path.IsPlain`: a proper name that is a path of its own.
* `Path.locate`: the place that a path names.
* `Path.EndsIn`: the last name of a path goes down.

## Main results

* `Path.names_join`: the names along joined paths.
* `Path.locate_join_of_plain`: a plain name goes one step down.
-/

namespace BackupRetention

namespace Path

/-! ## Names -/

/-- The name leads to something below, unlike `.` and `..`. -/
structure IsProper (name : String) : Prop where
  ne_dot : name ≠ "."
  ne_dots : name ≠ ".."

instance (name : String) : Decidable (IsProper name) :=
  decidable_of_iff (name ≠ "." ∧ name ≠ "..") ⟨fun h => ⟨h.1, h.2⟩, fun h => ⟨h.1, h.2⟩⟩

/-- The name is a whole path by itself, which leads to something below. -/
structure IsPlain (name : String) : Prop extends IsProper name where
  nonempty : name ≠ ""
  noSlash : '/' ∉ name.toList

instance (name : String) : Decidable (IsPlain name) :=
  decidable_of_iff (IsProper name ∧ name ≠ "" ∧ '/' ∉ name.toList)
    ⟨fun h => ⟨h.1, h.2.1, h.2.2⟩, fun h => ⟨h.toIsProper, h.nonempty, h.noSlash⟩⟩

theorem names_of_single {name : String} (nonempty : name ≠ "") (noSlash : '/' ∉ name.toList) :
    names name = [name] := by
  simp [names, Text.split, Text.pieces_of_not_mem noSlash, nonempty]

theorem isAbsolute_of_noSlash {name : String} (noSlash : '/' ∉ name.toList) :
    isAbsolute name = false := by
  cases h : name.toList with
  | nil => simp [isAbsolute, h]
  | cons c cs =>
    have hc : c ≠ '/' := fun hc => noSlash (by simp [h, hc])
    simp [isAbsolute, h, hc]

theorem isAbsolute_append {a : String} (nonempty : a ≠ "") (b : String) :
    isAbsolute (a ++ b) = isAbsolute a := by
  cases h : a.toList with
  | nil => exact absurd (String.ext (by simpa using h)) nonempty
  | cons c cs => simp [isAbsolute, h]

theorem endsInSlash_append (a : String) {b : String} (nonempty : b ≠ "")
    (noSlash : '/' ∉ b.toList) : endsInSlash (a ++ b) = false := by
  cases h : b.toList.getLast? with
  | none =>
    have nil : b.toList = [] := List.getLast?_eq_none_iff.1 h
    exact absurd (String.ext (by simpa using nil)) nonempty
  | some c =>
    have hc : c ≠ '/' := fun hc => noSlash (hc ▸ List.mem_of_getLast? h)
    simp [endsInSlash, h, hc]

theorem names_append_slash (a b : String) : names (a ++ "/" ++ b) = names a ++ names b := by
  simp [names, Text.split, Text.pieces_append_cons]

theorem names_slash (a : String) : names (a ++ "/") = names a := by
  have h := names_append_slash a ""
  have empty : names "" = [] := by decide
  rwa [empty, List.append_nil, String.append_empty] at h

theorem exists_of_endsInSlash {path : String} (h : endsInSlash path = true) :
    ∃ start, path = start ++ "/" := by
  have last : path.toList.getLast? = some '/' := by simpa [endsInSlash] using h
  obtain ⟨start, hstart⟩ := List.getLast?_eq_some_iff.1 last
  exact ⟨String.ofList start, String.ext (by simp [hstart])⟩

/-- The text of a path below another one. There is one slash between them, unless the base is
empty. -/
theorem join_cases (base : String) {part : String} (h : isAbsolute part = false) :
    (base = "" ∧ join base part = part) ∨
      (∃ start, base = start ++ "/" ∧ join base part = start ++ "/" ++ part) ∨
      (base ≠ "" ∧ join base part = base ++ "/" ++ part) := by
  unfold join
  rw [if_neg (by simp [h])]
  by_cases hb : base = ""
  · subst hb
    exact .inl ⟨rfl, by simp⟩
  · by_cases hs : endsInSlash base = true
    · rw [if_pos (.inr hs)]
      obtain ⟨start, rfl⟩ := exists_of_endsInSlash hs
      exact .inr (.inl ⟨start, rfl, rfl⟩)
    · have hl : base.toList ≠ [] := fun hl => hb (String.ext (by simpa using hl))
      rw [if_neg (by simp [hl, hs])]
      exact .inr (.inr ⟨hb, rfl⟩)

theorem names_join (base : String) {part : String} (h : isAbsolute part = false) :
    names (join base part) = names base ++ names part := by
  rcases join_cases base h with ⟨rfl, hj⟩ | ⟨start, rfl, hj⟩ | ⟨-, hj⟩
  · have empty : names "" = [] := by decide
    rw [hj, empty, List.nil_append]
  · rw [hj, names_append_slash, names_slash]
  · rw [hj, names_append_slash]

theorem isAbsolute_join (base : String) {part : String} (h : isAbsolute part = false) :
    isAbsolute (join base part) = isAbsolute base := by
  rcases join_cases base h with ⟨rfl, hj⟩ | ⟨start, rfl, hj⟩ | ⟨hne, hj⟩
  · rw [hj, h]
    decide
  · rw [hj]
    simp [isAbsolute, List.head?_append]
  · cases hb : base.toList with
    | nil => exact absurd (String.ext (by simpa using hb)) hne
    | cons c cs => simp [hj, isAbsolute, hb]

/-! ## Places -/

/-- One name further. -/
def step (here : Location) (name : String) : Location :=
  if name = "." then here else if name = ".." then here.dropLast else here ++ [name]

theorem step_of_proper {name : String} (h : IsProper name) (here : Location) :
    step here name = here ++ [name] := by
  rw [step, if_neg h.ne_dot, if_neg h.ne_dots]

/-- Where the path starts: relative paths start at `start`. -/
def startAt (start : Location) (path : String) : Location :=
  if isAbsolute path then [] else start

/-- The place that a path names, if relative paths start at `start`. -/
def locate (start : Location) (path : String) : Location :=
  (names path).foldl step (startAt start path)

theorem locate_join (start : Location) (base : String) {part : String}
    (h : isAbsolute part = false) :
    locate start (join base part) = (names part).foldl step (locate start base) := by
  rw [locate, startAt, isAbsolute_join base h, names_join base h, List.foldl_append]
  rfl

theorem locate_join_of_plain (start : Location) (base : String) {name : String}
    (h : IsPlain name) : locate start (join base name) = locate start base ++ [name] := by
  rw [locate_join start base (isAbsolute_of_noSlash h.noSlash),
    names_of_single h.nonempty h.noSlash, List.foldl_cons, step_of_proper h.toIsProper]
  rfl

/-- The places on the way that names lead into. -/
def entered : Location → List String → List Location
  | _, [] => []
  | here, name :: rest =>
    if IsProper name then (here ++ [name]) :: entered (here ++ [name]) rest
    else entered (step here name) rest

/-- The place that a path names, and all that it leads into on the way. -/
def along (start : Location) (path : String) : List Location :=
  locate start path :: entered (startAt start path) (names path)

theorem entered_append (here : Location) (ns ms : List String) :
    entered here (ns ++ ms) = entered here ns ++ entered (ns.foldl step here) ms := by
  induction ns generalizing here with
  | nil => rfl
  | cons name ns ih =>
    rw [List.cons_append, entered, entered]
    split
    · next proper => rw [ih, List.cons_append, List.foldl_cons, step_of_proper proper]
    · rw [ih, List.foldl_cons]

/-- On the way to something in a directory there is the way to the directory. -/
theorem along_join_of_plain {start k : Location} {base name : String} (h : IsPlain name)
    (hk : k ∈ along start (join base name)) :
    k = locate start base ++ [name] ∨ k ∈ along start base := by
  rw [along, locate_join_of_plain start base h] at hk
  rcases List.mem_cons.1 hk with here | hk
  · exact .inl here
  · have relative := isAbsolute_of_noSlash h.noSlash
    rw [startAt, isAbsolute_join base relative, names_join base relative,
      names_of_single h.nonempty h.noSlash, entered_append, List.mem_append] at hk
    rcases hk with before | last
    · exact .inr (List.mem_cons_of_mem _ before)
    · rw [entered, if_pos h.toIsProper, entered, List.mem_singleton] at last
      exact .inl last

theorem prefix_foldl_step {names : List String} (straight : ".." ∉ names) (here : Location) :
    here <+: names.foldl step here := by
  induction names generalizing here with
  | nil => exact List.prefix_refl here
  | cons name names ih =>
    rw [List.mem_cons, not_or] at straight
    refine List.IsPrefix.trans ?_ (ih straight.2 (step here name))
    rw [step, if_neg (Ne.symm straight.1)]
    split
    · exact List.prefix_refl here
    · exact List.prefix_append _ _

theorem prefix_of_mem_entered {names : List String} (straight : ".." ∉ names)
    {here k : Location} (hk : k ∈ entered here names) : k <+: names.foldl step here := by
  induction names generalizing here with
  | nil => cases hk
  | cons name names ih =>
    have rest : ".." ∉ names := fun h => straight (List.mem_cons_of_mem _ h)
    rw [entered] at hk
    rw [List.foldl_cons]
    split at hk
    · next proper =>
      rw [step_of_proper proper]
      rcases List.mem_cons.1 hk with rfl | hk
      · exact prefix_foldl_step rest _
      · exact ih rest hk
    · exact ih rest hk

/-- The way of a path that never goes back leads straight down to its place. -/
theorem prefix_of_mem_along {path : String} (straight : ".." ∉ names path) {start k : Location}
    (hk : k ∈ along start path) : k <+: locate start path := by
  rcases List.mem_cons.1 hk with rfl | hk
  · exact List.prefix_refl _
  · exact prefix_of_mem_entered straight hk

/-- A plain name does not go back. -/
theorem straight_join_of_plain {base name : String} (straight : ".." ∉ names base)
    (h : IsPlain name) : ".." ∉ names (join base name) := by
  rw [names_join base (isAbsolute_of_noSlash h.noSlash), names_of_single h.nonempty h.noSlash,
    List.mem_append, List.mem_singleton, not_or]
  exact ⟨straight, h.ne_dots.symm⟩

example : locate ["home"] "a/../b/./c" = ["home", "b", "c"] := by decide

/-! ## Ends of paths -/

/-- The last name of the path goes down, and no slash follows it. -/
structure EndsIn (path name : String) : Prop where
  proper : IsProper name
  last : (names path).getLast? = some name
  noSlash : endsInSlash path = false

/-- A path leads to something that has its last name. -/
theorem EndsIn.getLast?_locate {path name : String} (h : EndsIn path name) (start : Location) :
    (locate start path).getLast? = some name := by
  obtain ⟨above, habove⟩ := List.getLast?_eq_some_iff.1 h.last
  rw [locate, habove, List.foldl_append, List.foldl_cons, List.foldl_nil,
    step_of_proper h.proper, List.getLast?_append]
  rfl

theorem EndsIn.locate_ne_nil {path name : String} (h : EndsIn path name) (start : Location) :
    locate start path ≠ [] := by
  intro root
  have last := h.getLast?_locate start
  rw [root] at last
  cases last

/-- The names before the end of a text do not hide the name at its end. -/
theorem exists_endsIn_append (front : String) {s : String} (noSlash : '/' ∉ s.toList)
    (long : 2 < s.toList.length) : ∃ start, EndsIn (front ++ s) (start ++ s) := by
  obtain ⟨before, last, -, cut⟩ := Text.pieces_append_of_not_mem front.toList noSlash
  have length : 2 < (String.ofList last ++ s).toList.length := by simp; omega
  have longer {name : String} (h : 2 < name.toList.length) (short : String)
      (hs : short.toList.length ≤ 2) : name ≠ short := by
    rintro rfl
    omega
  refine ⟨String.ofList last, ⟨longer length _ (by decide), longer length _ (by decide)⟩, ?_, ?_⟩
  · have nonempty : String.ofList last ++ s ≠ "" := longer length _ (by decide)
    rw [names, Text.split, String.toList_append, cut, List.map_append, List.filter_append,
      List.getLast?_append]
    simp [nonempty]
  · exact endsInSlash_append front (longer (by omega) _ (by decide)) noSlash

/-- A text that goes on after the start of a part is still below the base. -/
theorem join_append (base : String) {part : String} (nonempty : part ≠ "") (s : String) :
    join base part ++ s = join base (part ++ s) := by
  unfold join
  rw [isAbsolute_append nonempty]
  split
  · rfl
  · split
    · exact String.append_assoc ..
    · exact String.append_assoc ..

theorem endsIn_join_of_plain (base : String) {name : String} (h : IsPlain name) :
    EndsIn (join base name) name where
  proper := h.toIsProper
  last := by
    rw [names_join base (isAbsolute_of_noSlash h.noSlash),
      names_of_single h.nonempty h.noSlash, List.getLast?_append]
    rfl
  noSlash := by
    obtain ⟨front, joined⟩ : ∃ front, join base name = front ++ name := by
      rcases join_cases base (isAbsolute_of_noSlash h.noSlash) with
        ⟨-, hj⟩ | ⟨start, -, hj⟩ | ⟨-, hj⟩
      · exact ⟨"", by simp [hj]⟩
      · exact ⟨_, hj⟩
      · exact ⟨_, hj⟩
    rw [joined]
    exact endsInSlash_append front h.nonempty h.noSlash

end Path

end BackupRetention
