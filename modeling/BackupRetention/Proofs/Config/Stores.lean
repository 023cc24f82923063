import BackupRetention.DeviceMap
import BackupRetention.Proofs.Files.Spellings
import BackupRetention.Proofs.Text.Trim

/-!
# Which store a device is found at

A device is found at the first of the configured stores that names it. Stores that cannot be read,
that name a device nobody knows, or that name one that was found before, are passed over: without
them the map is the same.

## Main definitions

* `DeviceMap.NamedBy`: a text names a device on its first line.
* `DeviceMap.Names`: a store names a device.
* `DeviceMap.PassedOver`: a store is of no use.

## Main results

* `DeviceMap.locate_identify`: the store of a device, as a search through all stores.
* `DeviceMap.identify_exact`: the store of a device, and what makes no difference to it.
-/

namespace BackupRetention

@[simp] theorem Config.hasDevice_iff {c : Config} {device : String} :
    c.hasDevice device = true ↔ device ∈ c.devices := by
  simp [hasDevice]

namespace DeviceMap

variable {c : Config} {t : FileTree} {m : DeviceMap} {content device store : String}

/-! ## Names at stores -/

/-- Between its blanks the first line of `content` is `device`. -/
def NamedBy (content device : String) : Prop :=
  ∃ line, Text.FirstLine content.toList line ∧ Text.Trims line device.toList

theorem named_eq_iff : named content = device ↔ NamedBy content device := by
  obtain ⟨line, first⟩ := Text.exists_firstLine content.toList
  have own : named content = String.ofList (Text.trimChars line) := by
    rw [← Text.trims_head?_lines first, named]
    cases Text.lines content.toList <;> rfl
  have only {other : List Char} (h : Text.FirstLine content.toList other) : other = line :=
    Option.some.inj ((Text.firstLine_iff.1 h).symm.trans (Text.firstLine_iff.1 first))
  constructor
  · rintro rfl
    exact ⟨line, first, by simpa [own] using Text.trims_trimChars line⟩
  · rintro ⟨other, h, trims⟩
    obtain rfl := only h
    rw [own, Text.trims_iff.1 trims, String.ofList_toList]

/-- The file that names the device at `store` can be read, and it names `device`. -/
def Names (t : FileTree) (store device : String) : Prop :=
  ∃ content, t.readText (Path.join store idFile) = .ok content ∧ NamedBy content device

theorem namedAt_eq_some_iff : namedAt t store = some device ↔ Names t store device := by
  unfold namedAt Names
  cases t.readText (Path.join store idFile) <;> simp [named_eq_iff]

instance (t : FileTree) (store device : String) : Decidable (Names t store device) :=
  decidable_of_iff _ namedAt_eq_some_iff

/-- A store names one device at most, however its path is spelled. -/
theorem Names.unique {store' other : String} (same : Path.Same store store')
    (h : Names t store device) (g : Names t store' other) : device = other := by
  obtain ⟨content, read, named⟩ := h
  obtain ⟨content', read', named'⟩ := g
  have plain : Path.IsPlain idFile := by decide
  obtain rfl := FileTree.readText_join_same same plain read read'
  rw [← named_eq_iff.2 named, ← named_eq_iff.2 named']

/-! ## One store after the other -/

/-- Notes what a store names, if anything. -/
def noteAny (c : Config) (m : DeviceMap) (store : String) : Option String → DeviceMap
  | some device => m.note c device store
  | none => m

/-- Looks at one more store. -/
def look (c : Config) (t : FileTree) (m : DeviceMap) (store : String) : DeviceMap :=
  m.noteAny c store (namedAt t store)

theorem identify_eq (c : Config) (t : FileTree) :
    identify c t = c.stores.foldl (look c t) empty := by
  refine congrArg (List.foldl · empty c.stores) (funext₂ fun m store => ?_)
  rw [look]
  cases namedAt t store <;> rfl

theorem look_stores (c : Config) (t : FileTree) (stores : List String) :
    look { c with stores := stores } t = look c t := by
  funext m store
  rw [look, look]
  cases namedAt t store <;> rfl

theorem note_of_fresh (known : device ∈ c.devices) (missing : m.locate device = none)
    (store : String) : m.note c device store = ⟨m.stores ++ [(device, store)]⟩ :=
  if_pos ⟨Config.hasDevice_iff.2 known, missing⟩

theorem note_of_stale (stale : device ∈ c.devices → m.locate device ≠ none) (store : String) :
    m.note c device store = m :=
  if_neg fun fresh => stale (Config.hasDevice_iff.1 fresh.1) fresh.2

/-- What noting a store adds: the device that it names, if that is known and has not been found. -/
theorem locate_noteAny (c : Config) (m : DeviceMap) (store : String) (named : Option String)
    (d : String) : (m.noteAny c store named).locate d =
      (m.locate d).or (if d ∈ c.devices ∧ named = some d then some store else none) := by
  cases named with
  | none => simp [noteAny]
  | some device =>
    simp only [noteAny, Option.some.injEq]
    by_cases fresh : device ∈ c.devices ∧ m.locate device = none
    · rw [note_of_fresh fresh.1 fresh.2, locate, List.lookup_append]
      refine congrArg (Option.or _) ?_
      by_cases same : d = device
      · simp [same, fresh.1]
      · simp [same, Ne.symm same]
    · rw [note_of_stale (fun known missing => fresh ⟨known, missing⟩)]
      by_cases here : d ∈ c.devices ∧ device = d
      · obtain ⟨known, rfl⟩ := here
        obtain ⟨s, found⟩ := Option.ne_none_iff_exists'.1 fun missing => fresh ⟨known, missing⟩
        simp [found]
      · simp [here]

/-- Looking at some stores one after the other finds each device at the first that names it. -/
theorem locate_foldl (c : Config) (t : FileTree) (m : DeviceMap) (stores : List String)
    (d : String) : (stores.foldl (look c t) m).locate d = (m.locate d).or
      (if d ∈ c.devices then stores.find? (namedAt t · = some d) else none) := by
  induction stores generalizing m with
  | nil => simp
  | cons store stores ih =>
    rw [List.foldl_cons, ih, look, locate_noteAny, Option.or_assoc, List.find?_cons]
    refine congrArg (Option.or _) ?_
    by_cases known : d ∈ c.devices <;> by_cases named : namedAt t store = some d <;>
      simp [known, named]

theorem locate_identify (c : Config) (t : FileTree) (d : String) : (identify c t).locate d =
    if d ∈ c.devices then c.stores.find? (namedAt t · = some d) else none := by
  rw [identify_eq, locate_foldl]
  rfl

/-! ## Stores of no use -/

/-- The store cannot be read, or names a device that is not known or that one of the stores before
it names. -/
inductive PassedOver (c : Config) (t : FileTree) (before : List String) (store : String) :
    Prop where
  | unreadable (h : ∀ content, t.readText (Path.join store idFile) ≠ .ok content)
  | unknown {device : String} (names : Names t store device) (h : device ∉ c.devices)
  | repeated {device earlier : String} (names : Names t store device) (h : earlier ∈ before)
      (too : Names t earlier device)

/-- A store of no use adds nothing. -/
theorem PassedOver.look_eq {before : List String} (h : PassedOver c t before store) :
    look c t (before.foldl (look c t) empty) store = before.foldl (look c t) empty := by
  cases h with
  | unreadable h =>
    have silent : namedAt t store = none := by
      rw [Option.eq_none_iff_forall_ne_some]
      intro device named
      obtain ⟨content, read, -⟩ := namedAt_eq_some_iff.1 named
      exact h content read
    rw [look, silent]
    rfl
  | @unknown device names h =>
    rw [look, namedAt_eq_some_iff.2 names]
    exact note_of_stale (absurd · h) store
  | @repeated device earlier names here too =>
    rw [look, namedAt_eq_some_iff.2 names]
    refine note_of_stale (fun known missing => ?_) store
    rw [locate_foldl, if_pos known, Option.or_eq_none_iff, List.find?_eq_none] at missing
    exact missing.2 earlier here (by simpa using namedAt_eq_some_iff.2 too)

/-- A device is found at a store exactly if it is configured, the store names it, and no store
before does. Stores of no use make no difference to the map, and no store makes one to where a
device is that it does not name. No two devices are found at one store, nor at two spellings of its
path. -/
theorem identify_exact (c : Config) (t : FileTree) :
    (∀ d s, (identify c t).locate d = some s ↔ d ∈ c.devices ∧ ∃ before after,
      c.stores = before ++ s :: after ∧ Names t s d ∧ ∀ x ∈ before, ¬ Names t x d) ∧
    (∀ before s after, c.stores = before ++ s :: after →
      (PassedOver c t before s → identify c t = identify { c with stores := before ++ after } t) ∧
      ∀ d, ¬ Names t s d →
        (identify c t).locate d = (identify { c with stores := before ++ after } t).locate d) ∧
    ∀ d e s s', (identify c t).locate d = some s → (identify c t).locate e = some s' →
      Path.Same s s' → d = e := by
  have found (d s : String) : (identify c t).locate d = some s ↔ d ∈ c.devices ∧ ∃ before after,
      c.stores = before ++ s :: after ∧ Names t s d ∧ ∀ x ∈ before, ¬ Names t x d := by
    rw [locate_identify]
    by_cases known : d ∈ c.devices
    · simp only [known, if_true, true_and, List.find?_eq_some_iff_append, decide_eq_true_eq,
        Bool.not_eq_true', decide_eq_false_iff_not, namedAt_eq_some_iff]
      grind
    · simp [known]
  refine ⟨found, ?_, ?_⟩
  · intro before s after stores
    constructor
    · intro useless
      rw [identify_eq, identify_eq, stores, look_stores c t (before ++ after), List.foldl_append,
        List.foldl_append, List.foldl_cons, useless.look_eq]
    · intro d other
      rw [locate_identify, locate_identify, stores]
      have passed : ¬ namedAt t s = some d := fun named => other (namedAt_eq_some_iff.1 named)
      simp [List.find?_append, passed]
  · intro d e s s' hd he same
    obtain ⟨-, _, _, -, names, -⟩ := (found d s).1 hd
    obtain ⟨-, _, _, -, names', -⟩ := (found e s').1 he
    exact names.unique same names'

/-- Stores of two devices: one is named twice, one store names a stranger, and two name nothing. -/
def fiveStores : FileTree where
  nodes := [(["a"], .dir), (["a", "device-id"], .file "dev0\n".toUTF8), (["b"], .dir),
    (["c"], .dir), (["c", "device-id"], .file "stranger".toUTF8), (["d"], .dir),
    (["d", "device-id"], .file "dev0\nspare\n".toUTF8), (["e"], .dir),
    (["e", "device-id"], .file "\t dev1 \r\n".toUTF8)]
  current := []
  changes := []

def twoDevices : Config :=
  { stores := ["a", "b", "c", "d", "e", "e/.", "missing"], devices := ["dev0", "dev1"] }

theorem identify_exact_fiveStores :
    (identify twoDevices fiveStores).locate "dev0" = some "a" ∧
      (identify twoDevices fiveStores).locate "dev1" = some "e" ∧
      PassedOver twoDevices fiveStores ["a", "b", "c"] "d" ∧
      identify twoDevices fiveStores =
        identify { twoDevices with stores := ["a", "b", "c", "e", "e/.", "missing"] } fiveStores ∧
      ∀ d, (identify twoDevices fiveStores).locate d = some "e/." → d = "dev1" := by
  obtain ⟨found, removed, apart⟩ := identify_exact twoDevices fiveStores
  have second := (found "dev1" "e").2
    ⟨by decide, ["a", "b", "c", "d"], ["e/.", "missing"], rfl, by decide +kernel, by decide +kernel⟩
  have early : Names fiveStores "a" "dev0" := by decide +kernel
  have again : Names fiveStores "d" "dev0" := by decide +kernel
  have useless : PassedOver twoDevices fiveStores ["a", "b", "c"] "d" :=
    .repeated again List.mem_cons_self early
  refine ⟨?_, second, useless, (removed ["a", "b", "c"] "d" _ rfl).1 useless, fun d here => ?_⟩
  · exact (found "dev0" "a").2 ⟨by decide, [], _, rfl, early, by simp⟩
  · exact apart d "dev1" "e/." "e" here second (by decide)

end DeviceMap

end BackupRetention
