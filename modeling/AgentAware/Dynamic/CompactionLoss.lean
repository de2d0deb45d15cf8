import AgentAware.Dynamic.Runs

/-!
# What a compaction loses

A scan of a table leaves out the records it cannot read, and a compaction keeps what it scanned and
removes its inputs. An unreadable record is therefore lost, or an older version of its node comes
back. This file says exactly when a compaction keeps, for every node, the newest version that its
inputs index.

## Main definitions

- `indexedSequences` — the sequence ids the inputs index for a node
- `IsNewest` — a record of the largest of them
- `NewestReadable` — the newest indexed version of every node can be read
- `KeepsNewest` — the claim of a compaction: nothing lost, or nothing done

## Main results

- `keepsNewest_iff` — a compaction that adopts its output keeps everything exactly when the newest
  indexed version of every node can be read
-/

namespace Dynamic

open DynamicWriteManager

/-- The sequence ids that tables index for a node. -/
def indexedSequences (tables : List SSTableReader) (node_id : NodeId) : List ℕ :=
  tables.filterMap fun table => (table.index.lookup node_id).map IndexEntry.sequence_id

/-- The nodes that tables index. -/
def indexedNodes (tables : List SSTableReader) : List NodeId :=
  tables.flatMap fun table => table.index.keys

/-- A record of the largest sequence id that tables index for its node. -/
def IsNewest (tables : List SSTableReader) (record : DynamicRecord) : Prop :=
  record.sequence_id ∈ indexedSequences tables record.node_id ∧
    ∀ sequence_id ∈ indexedSequences tables record.node_id, sequence_id ≤ record.sequence_id

instance (tables : List SSTableReader) (record : DynamicRecord) :
    Decidable (IsNewest tables record) :=
  inferInstanceAs (Decidable (_ ∧ _))

/-- Of every indexed node the newest indexed version can be read. -/
def NewestReadable (disk : Disk) (tables : List SSTableReader) : Prop :=
  ∀ node_id ∈ indexedNodes tables,
    ∃ record ∈ scanTables disk tables, record.node_id = node_id ∧ IsNewest tables record

-- The list of nodes is searched, not the type of all node ids.
instance (disk : Disk) (tables : List SSTableReader) : Decidable (NewestReadable disk tables) :=
  List.decidableBAll (fun node_id =>
    ∃ record ∈ scanTables disk tables, record.node_id = node_id ∧ IsNewest tables record) _

/-- The output has, for every node the inputs index, the newest indexed version. -/
def HasNewest (disk : Disk) (output : SSTableReader) (inputs : List SSTableReader) : Prop :=
  ∀ node_id ∈ indexedNodes inputs, ∃ record ∈ output.find disk node_id, IsNewest inputs record

instance (disk : Disk) (output : SSTableReader) (inputs : List SSTableReader) :
    Decidable (HasNewest disk output inputs) :=
  List.decidableBAll (fun node_id => ∃ record ∈ output.find disk node_id, IsNewest inputs record) _

/-- The files of a table are as they were. -/
structure SameFiles (disk disk' : Disk) (base : String) : Prop where
  data : disk'.files (.data base) = disk.files (.data base)
  index : disk'.files (.index base) = disk.files (.index base)
  value : disk'.metas base = disk.metas base

/-- A compaction that succeeds loses nothing; one that fails leaves its inputs alone. -/
def KeepsNewest (world : World) (ok : Bool) (after : World) : Prop :=
  if ok then ∃ output, after.manager.sstables = [output] ∧
    HasNewest after.disk output world.manager.sstables
  else after.manager.manifest = world.manager.manifest ∧
    after.manager.sstables = world.manager.sstables ∧
    after.disk.manifest = world.disk.manifest ∧
    ∀ table ∈ world.manager.sstables, SameFiles world.disk after.disk table.base_path

/-- A number that does not fit the `std::int64_t` the meta file is parsed with. -/
def OverLimit (world : World) : Prop :=
  2 ^ 63 ≤ world.manager.manifest.next_sstable_id ∨
    ∃ record ∈ scanTables world.disk world.manager.sstables, 2 ^ 63 ≤ record.sequence_id

variable {world : World} {disk : Disk} {tables : List SSTableReader} {record : DynamicRecord}

theorem mem_scanTables : record ∈ scanTables disk tables ↔
    ∃ table ∈ tables, table.find disk record.node_id = some record := by
  simp only [scanTables, List.mem_flatMap, mem_scan]

/-- What can be read is indexed. -/
theorem sequence_mem_indexed (h : record ∈ scanTables disk tables) :
    record.sequence_id ∈ indexedSequences tables record.node_id := by
  obtain ⟨table, htable, hfind⟩ := mem_scanTables.mp h
  refine List.mem_filterMap.mpr ⟨table, htable, ?_⟩
  rw [SSTableReader.find] at hfind
  split at hfind
  · cases hfind
  next entry hlookup =>
  split at hfind
  · cases hfind
  split at hfind
  case isFalse => cases hfind
  next hcheck =>
  cases hfind
  rw [hlookup, Option.map_some, hcheck.2]

theorem le_maxSequenceId {records : List DynamicRecord} (h : record ∈ records) :
    record.sequence_id ≤ maxSequenceId records := by
  cases records with
  | nil => cases h
  | cons first records =>
    rw [maxSequenceId]
    rcases List.mem_cons.mp h with rfl | h
    · exact (le_foldl_max records _).1
    · exact (le_foldl_max records _).2 record h

/-- The output of a compaction is rejected when a number in its meta file is too large. -/
theorem metaLoadable_compactedMeta (world : World) :
    metaLoadable (compactedMeta world) = true ↔ ¬OverLimit world := by
  have hcovers := deduplicateNewest_covers (scanTables world.disk world.manager.sstables)
  constructor
  · intro hload
    obtain ⟨_, hid, _, _, hmax, _⟩ := metaLoadable_iff.mp hload
    rintro (hover | ⟨record, hrecord, hover⟩)
    · exact absurd hid (not_lt.mpr hover)
    · obtain ⟨newest, hnewest, _, hle⟩ := hcovers.2 record hrecord
      exact absurd (lt_of_le_of_lt (hle.trans (le_maxSequenceId hnewest)) hmax) (not_lt.mpr hover)
  · intro hfits
    rw [OverLimit, not_or] at hfits
    refine metaLoadable_tableMeta (not_le.mp hfits.1) (by decide) (deduplicateNewest_sorted _) ?_
    intro record hrecord
    by_contra hover
    exact hfits.2 ⟨record, hcovers.1 record hrecord, not_lt.mp hover⟩

/-- The output of a compaction has the newest version of every node exactly when it could be
read. -/
theorem hasNewest_iff (h : Compacted world disk) :
    HasNewest disk (compactedTable world).reader world.manager.sstables ↔
      NewestReadable world.disk world.manager.sstables := by
  have hfind : ∀ node_id record, (compactedTable world).reader.find disk node_id = some record ↔
      record ∈ compactedRecords world ∧ record.node_id = node_id := by
    have hscan : (compactedTable world).reader.scan disk = compactedRecords world :=
      scan_of_tableFiles h.files (compactedRecords_valid world) (deduplicateNewest_sorted _)
    intro node_id record
    rw [← hscan, mem_scan]
    constructor
    · intro hfound
      have hnode := node_id_of_find hfound
      exact ⟨by rw [hnode, hfound], hnode⟩
    · rintro ⟨hfound, rfl⟩
      exact hfound
  have hcovers := deduplicateNewest_covers (scanTables world.disk world.manager.sstables)
  constructor
  · intro hnewest node_id hnode
    obtain ⟨record, hrecord, hmax⟩ := hnewest node_id hnode
    obtain ⟨hmem, hid⟩ := (hfind node_id record).mp hrecord
    exact ⟨record, hcovers.1 record hmem, hid, hmax⟩
  · intro hreadable node_id hnode
    obtain ⟨record, hrecord, rfl, _, hmax⟩ := hreadable node_id hnode
    obtain ⟨newest, hnewest, hid, hle⟩ := hcovers.2 record hrecord
    refine ⟨newest, (hfind _ _).mpr ⟨hnewest, hid⟩, sequence_mem_indexed (hcovers.1 newest hnewest),
      fun sequence_id hsequence => ?_⟩
    rw [hid] at hsequence
    exact (hmax sequence_id hsequence).trans hle

/-- A compaction of tables of which any records may be unreadable loses nothing exactly when it
gives up, or the newest indexed version of every node can be read. The new table has an id, and so
files, of its own. -/
theorem keepsNewest_iff (hfresh : ∀ table ∈ world.manager.sstables,
      table.base_path ≠ basePath world.manager.manifest.next_sstable_id) :
    KeepsNewest world (compactOnce.exec world []).1.1 (compactOnce.exec world []).2.store ↔
      world.manager.opened = false ∨ world.manager.sstables.length < 2 ∨ OverLimit world ∨
        NewestReadable world.disk world.manager.sstables := by
  by_cases hguard : world.manager.opened = true ∧ 2 ≤ world.manager.sstables.length
  · obtain ⟨hopened, hlength⟩ := hguard
    obtain ⟨⟨hadopted, hrejected⟩, _⟩ := Prog.wp_exec (wp_compactOnce hopened hlength)
    have hnot : ¬world.manager.sstables.length < 2 := not_lt.mpr hlength
    cases hload : metaLoadable (compactedMeta world) with
    | true =>
      obtain ⟨hok, hcompacted, hmanager⟩ := hadopted hload
      have hlimit := (metaLoadable_compactedMeta world).mp hload
      rw [KeepsNewest, if_pos hok, hmanager]
      simp only [List.cons.injEq, and_true, exists_eq_left', hasNewest_iff hcompacted, hopened,
        hnot, hlimit, Bool.true_eq_false, false_or]
    | false =>
      obtain ⟨hok, hframe, hmanager⟩ := hrejected hload
      have hlimit : OverLimit world := by
        by_contra hfits
        rw [(metaLoadable_compactedMeta world).mpr hfits] at hload
        cases hload
      rw [KeepsNewest, if_neg (by simp [hok]), hmanager]
      refine iff_of_true ⟨rfl, rfl, hframe.manifest, fun table htable => ?_⟩ (.inr (.inr (.inl hlimit)))
      have hbase := hfresh table htable
      exact ⟨hframe.files _ (by simpa using hbase) (by simp),
        hframe.files _ (by simp) (by simpa using hbase), hframe.metas _ hbase⟩
  · have hguard' : (!world.manager.opened || decide (world.manager.sstables.length < 2)) = true := by
      rw [Bool.or_eq_true, Bool.not_eq_true', decide_eq_true_eq]
      by_contra hcon
      rw [not_or, Bool.not_eq_false, not_lt] at hcon
      exact hguard hcon
    have hsame : compactOnce.exec world [] = ((false, { attempted := true }), ⟨world, [], []⟩) := by
      simp only [Prog.exec, compactOnce]
      change Prog.run (Prog.observe _) _ = _
      rw [Prog.run]
      change Prog.run (if _ then _ else _) _ = _
      rw [if_pos hguard']
      rfl
    rw [hsame]
    refine iff_of_true ⟨rfl, rfl, rfl, fun _ _ => ⟨rfl, rfl, rfl⟩⟩ ?_
    rw [Bool.or_eq_true, Bool.not_eq_true', decide_eq_true_eq] at hguard'
    exact hguard'.imp_right .inl

/-- Two tables whose records can all be read. -/
theorem keepsNewest_two_tables :
    let config : Config ℕ := { squared_l2 := fun _ _ => 0 }
    let world := (runCalls config [.open, .erase 7, .flush, .erase 8, .flush] ⟨{}, new config⟩).2
    KeepsNewest world (compactOnce.exec world []).1.1 (compactOnce.exec world []).2.store :=
  (keepsNewest_iff (by decide +kernel)).mpr (.inr (.inr (.inr (by decide +kernel))))

/-- One damaged byte: the tombstone of node 7 cannot be read, and a successful compaction loses
it. -/
theorem compactOnce_loses_record :
    let config : Config ℕ := { squared_l2 := fun _ _ => 0 }
    let written := (runCalls config [.open, .erase 7, .flush, .erase 8, .flush] ⟨{}, new config⟩).2
    let damage : File → File := fun file => { file with synced := 0 :: file.synced.tail }
    let world : World := ⟨written.disk.modifyFile (.data (basePath 1)) damage, written.manager⟩
    (compactOnce.exec world []).1.1 = true ∧
      ¬KeepsNewest world (compactOnce.exec world []).1.1 (compactOnce.exec world []).2.store := by
  refine ⟨by decide +kernel, fun hkeeps => ?_⟩
  rw [KeepsNewest, if_pos (by decide +kernel)] at hkeeps
  obtain ⟨output, houtput, hnewest⟩ := hkeeps
  refine absurd hnewest ?_
  have hmem : output ∈ [output] := List.mem_singleton_self output
  rw [← houtput] at hmem
  clear houtput hnewest
  revert output
  decide +kernel

end Dynamic
