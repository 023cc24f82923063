import BackupRetention.Proofs.Prune.Effects
import BackupRetention.Proofs.Prune.FileNames
import BackupRetention.Proofs.State.Shelves

/-!
# Places of backups

A backup has its data and its sentinel on a store and its log among the logs, where the prune logs
are as well. Places of different backups, and different places of one backup, are apart: neither is
below the other.

## Main definitions

* `Location.Apart`: neither place is below the other.
* `Backup.Named`: the names of a backup can stand in names of files.
* `Backup.ways`: the ways from a store to what it holds of a backup.

## Main results

* `Backup.alike_of_logName`: different backups have logs of different names.
* `Removal.apart_log`, `Removal.apart_way`: what belongs to another backup.
-/

namespace BackupRetention

/-! ## Places -/

/-- Neither place is below the other. -/
def Location.Apart (l k : Location) : Prop := ¬ l <+: k ∧ ¬ k <+: l

namespace Location.Apart

variable {l k a b c : Location}

theorem symm (h : Apart l k) : Apart k l := ⟨h.2, h.1⟩

/-- What is below places apart is apart. -/
theorem append (h : Apart l k) (a b : Location) : Apart (l ++ a) (k ++ b) := by
  have comparable {l k a b : Location} (below : l ++ a <+: k ++ b) : l <+: k ∨ k <+: l :=
    List.prefix_or_prefix_of_prefix ((List.prefix_append l a).trans below) (List.prefix_append k b)
  constructor
  · exact fun below => (comparable below).elim h.1 h.2
  · exact fun below => (comparable below).elim h.2 h.1

/-- Different ways of one length lead to places apart. -/
theorem of_length (l : Location) (same : a.length = b.length) (other : a ≠ b) :
    Apart (l ++ a) (l ++ b) := by
  constructor
  · exact fun below => other ((List.prefix_append_right_inj l).1 below |>.eq_of_length same)
  · exact fun below =>
      other ((List.prefix_append_right_inj l).1 below |>.eq_of_length same.symm).symm

/-- What is at or below one of two places apart is neither above nor below the other. -/
theorem not_below (h : Apart l k) (near : c <+: k ∨ k <+: c) : ¬ l <+: c := by
  intro below
  rcases near with above | under
  · exact h.1 (below.trans above)
  · exact (List.prefix_or_prefix_of_prefix below under).elim h.1 h.2

end Location.Apart

/-! ## Names -/

/-- Where a date ends in a text that goes on with `-`. -/
theorem Date.chars_append_inj {d d' : Date} {r r' : List Char}
    (h : d.chars ++ '-' :: r = d'.chars ++ '-' :: r') : d = d' ∧ r = r' := by
  simp only [chars, List.append_assoc, List.cons_append] at h
  obtain ⟨year, h⟩ := Text.padded_append_inj h
  obtain ⟨month, h⟩ := Text.padded_append_inj h
  obtain ⟨day, rest⟩ := Text.padded_append_inj h
  refine ⟨?_, rest⟩
  cases d
  cases d'
  simp_all

namespace Backup

/-- A name of a device, a host or a volume: a name of a file without `-`. -/
def IsName (name : String) : Prop := Path.IsPlain name ∧ '-' ∉ name.toList

instance (name : String) : Decidable (IsName name) :=
  inferInstanceAs (Decidable (_ ∧ _))

/-- The names of a backup can stand in names of files. -/
structure Named (b : Backup) : Prop where
  device : IsName b.device
  host : IsName b.host
  volume : IsName b.volume

instance (b : Backup) : Decidable b.Named :=
  decidable_of_iff (IsName b.device ∧ IsName b.host ∧ IsName b.volume)
    ⟨fun h => ⟨h.1, h.2.1, h.2.2⟩, fun h => ⟨h.device, h.host, h.volume⟩⟩

theorem Named.flat {b : Backup} (h : b.Named) : b.Flat :=
  ⟨h.device.1.noSlash, h.host.1.noSlash, h.volume.1.noSlash⟩

/-- Different backups have logs of different names. -/
theorem alike_of_logName {a b : Backup} (ha : a.Named) (hb : b.Named)
    (same : a.logName = b.logName) : a.Alike b := by
  have letters (c : Backup) : c.logName.toList = c.date.chars ++ '-' ::
      (c.device.toList ++ '-' :: (c.host.toList ++ '-' :: (c.volume.toList ++ ".log".toList))) := by
    simp [logName]
  have cut {c : Backup} (hc : c.Named) : Text.pieces '-' (c.device.toList ++ '-' ::
      (c.host.toList ++ '-' :: (c.volume.toList ++ ".log".toList))) =
        [c.device.toList, c.host.toList, c.volume.toList ++ ".log".toList] := by
    refine (Text.pieces_eq_iff (List.cons_ne_nil _ _)).2 ⟨by simp [List.intercalate], ?_⟩
    simp [hc.device.2, hc.host.2, hc.volume.2]
  have whole := congrArg String.toList same
  rw [letters, letters] at whole
  obtain ⟨date, names⟩ := Date.chars_append_inj whole
  have parts := congrArg (Text.pieces '-') names
  rw [cut ha, cut hb] at parts
  simp only [List.cons.injEq, List.append_left_inj, String.toList_inj, and_true] at parts
  exact ⟨date, parts.1, parts.2.1, parts.2.2⟩

/-- The ways from a store to what it holds of a backup: the sentinel and the data. -/
def ways (b : Backup) : List Location :=
  [[b.host, b.volume, b.date.text ++ sentinelSuffix], [b.host, b.volume, b.date.text]]

/-- Different backups on one device have nothing on its store in common. -/
theorem alike_of_mem_ways {a b : Backup} (device : a.device = b.device) {way : Location}
    (ha : way ∈ a.ways) (hb : way ∈ b.ways) : a.Alike b := by
  have dotless (d e : Date) : d.text ++ sentinelSuffix ≠ e.text := by
    intro same
    have dot : '.' ∈ e.text.toList := by
      rw [← same]
      simp [sentinelSuffix]
    rw [Date.toList_text] at dot
    rcases Date.mem_chars dot with h | h <;> exact absurd h (by decide)
  have cut (d e : Date) (same : d.text ++ sentinelSuffix = e.text ++ sentinelSuffix) :
      d.text = e.text :=
    String.ext (by simpa using congrArg String.toList same)
  obtain ⟨date, host, volume⟩ : a.date.text = b.date.text ∧ a.host = b.host ∧
      a.volume = b.volume := by
    simp only [ways, List.mem_cons, List.not_mem_nil, or_false] at ha hb
    grind
  exact ⟨Date.text_injective date, device, host, volume⟩

theorem length_of_mem_ways {b : Backup} {way : Location} (h : way ∈ b.ways) : way.length = 3 := by
  simp only [ways, List.mem_cons, List.not_mem_nil, or_false] at h
  rcases h with rfl | rfl <;> rfl

end Backup

/-- Prune logs are apart from the logs of backups. -/
theorem PruneLog.apart_logName (logs : Location) (b : Backup) (text : String) :
    Location.Apart (logs ++ [namePrefix ++ text]) (logs ++ [b.logName]) := by
  refine .of_length _ (by simp) ?_
  rw [Ne, List.singleton_inj, Backup.logName_eq]
  exact namePrefix_append_ne _ _ _

/-! ## What a removal touches -/

namespace Removal

variable {x : Removal} {b : Backup} {start c : Location} {store : String}

/-- The paths of what belongs to a backup: its sentinel, its log and its data. -/
def paths (x : Removal) : List String := [x.sentinelPath, x.logPath, x.dataPath]

def places (x : Removal) (start : Location) : List Location :=
  x.paths.map (Path.locate start)

/-- What a removal may change is at or below a place of its backup. -/
theorem exists_below_of_touches {k : Location} (h : x.touches start k) :
    ∃ c ∈ x.places start, c <+: k := by
  have known : ∀ path ∈ x.paths, Path.locate start path ∈ x.places start := fun path hpath =>
    List.mem_map_of_mem hpath
  rcases h with sentinel | log | below
  · refine ⟨_, known x.sentinelPath List.mem_cons_self, ?_⟩
    rw [sentinel]
    exact List.prefix_refl _
  · refine ⟨_, known x.logPath (List.mem_cons_of_mem _ List.mem_cons_self), ?_⟩
    rw [log]
    exact List.prefix_refl _
  · exact ⟨_, known x.dataPath (List.mem_cons_of_mem _ (List.mem_cons_of_mem _
      List.mem_cons_self)), below⟩

theorem locate_volumePath (named : x.backup.Named) (start : Location) :
    Path.locate start x.volumePath =
      Path.locate start x.store ++ [x.backup.host, x.backup.volume] := by
  rw [volumePath, Path.locate_join_of_plain _ _ named.volume.1,
    Path.locate_join_of_plain _ _ named.host.1, List.append_assoc]
  rfl

theorem mem_places (named : x.backup.Named) : c ∈ x.places start ↔
    (∃ way ∈ x.backup.ways, c = Path.locate start x.store ++ way) ∨
      c = Path.locate start x.logs ++ [x.backup.logName] := by
  have sentinel := x.sentinelPlace_eq start
  have log := x.logPlace_eq named.flat.isPlain_logName start
  have data := x.dataPlace_eq start
  rw [locate_volumePath named, List.append_assoc] at sentinel data
  have three : c ∈ x.places start ↔
      c = x.sentinelPlace start ∨ c = x.logPlace start ∨ c = x.dataPlace start := by
    simp only [places, paths, List.map_cons, List.map_nil, List.mem_cons, List.not_mem_nil,
      or_false, sentinelPlace, logPlace, dataPlace]
  rw [three, sentinel, log, data]
  simp only [Backup.ways, List.exists_mem_cons_iff, List.not_mem_nil, false_and, exists_false,
    or_false, List.cons_append, List.nil_append, or_assoc]
  exact or_congr_right or_comm

/-- Paths that go back neither to the store nor to the logs do not go back below. -/
theorem straight_of_mem_paths (named : x.backup.Named) (store : ".." ∉ Path.names x.store)
    (logs : ".." ∉ Path.names x.logs) : ∀ path ∈ x.paths, ".." ∉ Path.names path := by
  have volume : ".." ∉ Path.names x.volumePath :=
    Path.straight_join_of_plain (Path.straight_join_of_plain store named.host.1) named.volume.1
  simp only [paths, List.forall_mem_cons, List.not_mem_nil, false_imp_iff, implies_true, and_true]
  refine ⟨?_, ?_, ?_⟩
  · rw [sentinelPath_eq]
    exact Path.straight_join_of_plain volume x.isPlain_sentinel
  · rw [logPath, Backup.logPath]
    exact Path.straight_join_of_plain logs named.flat.isPlain_logName
  · exact Path.straight_join_of_plain volume x.backup.date.isPlain_text

/-- The log of another backup is apart from what a removal touches. -/
theorem apart_log (named : x.backup.Named) (named' : b.Named) (other : ¬ x.backup.Alike b)
    (logs : (Path.locate start x.store).Apart (Path.locate start x.logs))
    (hc : c ∈ x.places start) : c.Apart (Path.locate start x.logs ++ [b.logName]) := by
  rcases (mem_places named).1 hc with ⟨way, -, rfl⟩ | rfl
  · exact logs.append _ _
  · refine .of_length _ (by simp) fun same => other ?_
    exact Backup.alike_of_logName named named' (List.singleton_inj.1 same)

/-- What a store holds of another backup is apart from what a removal touches. -/
theorem apart_way (named : x.backup.Named) (other : ¬ x.backup.Alike b)
    (logs : (Path.locate start store).Apart (Path.locate start x.logs))
    (stores : (x.backup.device = b.device ∧ x.store = store) ∨
      (Path.locate start x.store).Apart (Path.locate start store))
    {way : Location} (hway : way ∈ b.ways) (hc : c ∈ x.places start) :
    c.Apart (Path.locate start store ++ way) := by
  rcases (mem_places named).1 hc with ⟨own, hown, rfl⟩ | rfl
  · rcases stores with ⟨device, rfl⟩ | apart
    · refine .of_length _ ?_ fun same => other ?_
      · rw [Backup.length_of_mem_ways hown, Backup.length_of_mem_ways hway]
      · exact Backup.alike_of_mem_ways device hown (same ▸ hway)
    · exact apart.append _ _
  · exact logs.symm.append _ _

end Removal

end BackupRetention
