import AgentAware.Dynamic.Directory
import AgentAware.Dynamic.DynamicWriteManager

/-!
# An open manager and its directory

`Session` is the invariant of an open manager between two operations: the directory is complete,
the manager's tables are those of the manifest, and the next sequence id is larger than every stored
one. `open` establishes it.

## Main definitions

- `Session` — the invariant
- `openedManager` — the manager that `open` leaves

## Main results

- `wp_openDirectory` — `open` succeeds on a complete directory and recovers its records
- `wp_openSession` — it starts a session
-/

namespace Dynamic

open DynamicWriteManager

variable {D : Type} {config : Config D}

/-- The invariant of an open manager that logs its writes: the tables hold what was flushed, the
memtable what was written since, `live`. -/
structure Session (world : World) (manifest : ManifestData) (tables : List LiveTable)
    (live : List DynamicRecord) : Prop where
  opened : world.manager.opened = true
  directory : Directory world.disk manifest tables
  sstables : world.manager.manifest.sstables = manifest.sstables
  next_sstable_id : world.manager.manifest.next_sstable_id = manifest.next_sstable_id
  sstable_positive : 0 < world.manager.manifest.next_sstable_id
  sequence_positive : 0 < world.manager.manifest.next_sequence_id
  checkpoint : world.manager.manifest.wal_checkpoint < 2 ^ 63
  readers : world.manager.sstables = tables.map LiveTable.reader
  writer : world.manager.wal_writer = some { good := true }
  created : (world.disk.files .wal).isSome
  memtable : world.manager.memtable.Holds live
  valid : ∀ record ∈ live, record.Valid
  below : ∀ record ∈ tableRecords tables ++ live,
    record.sequence_id < world.manager.manifest.next_sequence_id

theorem max_sequence_id_of_openFiles {disk : Disk} {base : String} {reader : SSTableReader}
    (h : SSTableReader.openFiles disk base = some reader) : reader.max_sequence_id < 2 ^ 63 := by
  rw [SSTableReader.openFiles] at h
  split at h
  · cases h
  split at h
  case isFalse => cases h
  next value _ hload =>
  split at h
  · cases h
  split at h
  · cases h
  split at h
  case isFalse => cases h
  cases h
  exact (metaLoadable_iff.mp hload).2.2.2.2.1

/-- The largest sequence id `open` meets in the tables. -/
def maxLoaded (m : ℕ) (tables : List LiveTable) : ℕ :=
  tables.foldl (fun m table => table.records.foldl (fun m record => max m record.sequence_id)
    (max m table.reader.max_sequence_id)) m

theorem le_foldl_max (records : List DynamicRecord) (m : ℕ) :
    m ≤ records.foldl (fun m record => max m record.sequence_id) m ∧
      ∀ record ∈ records,
        record.sequence_id ≤ records.foldl (fun m record => max m record.sequence_id) m := by
  induction records generalizing m with
  | nil => simp
  | cons r records ih =>
    obtain ⟨hle, hmem⟩ := ih (max m r.sequence_id)
    rw [List.foldl_cons]
    refine ⟨(le_max_left _ _).trans hle, fun record hr => ?_⟩
    rcases List.mem_cons.mp hr with rfl | hr
    · exact (le_max_right _ _).trans hle
    · exact hmem record hr

theorem foldl_max_lt {records : List DynamicRecord} {m bound : ℕ} (hm : m < bound)
    (h : ∀ record ∈ records, record.sequence_id < bound) :
    records.foldl (fun m record => max m record.sequence_id) m < bound := by
  induction records generalizing m with
  | nil => exact hm
  | cons r records ih =>
    exact ih (max_lt hm (h r List.mem_cons_self)) fun r' hr' => h r' (List.mem_cons_of_mem _ hr')

theorem le_maxLoaded (tables : List LiveTable) (m : ℕ) :
    m ≤ maxLoaded m tables ∧
      ∀ record ∈ tableRecords tables, record.sequence_id ≤ maxLoaded m tables := by
  induction tables generalizing m with
  | nil => simp [maxLoaded, tableRecords]
  | cons table tables ih =>
    obtain ⟨hle, hmem⟩ := ih (table.records.foldl (fun m record => max m record.sequence_id)
      (max m table.reader.max_sequence_id))
    obtain ⟨hle', hmem'⟩ := le_foldl_max table.records (max m table.reader.max_sequence_id)
    change _ ≤ maxLoaded _ tables ∧ ∀ record ∈ table.records ++ tableRecords tables, _
    refine ⟨((le_max_left _ _).trans hle').trans hle, fun record hr => ?_⟩
    rcases List.mem_append.mp hr with hr | hr
    · exact (hmem' record hr).trans hle
    · exact hmem record hr

theorem maxLoaded_lt {tables : List LiveTable} {m bound : ℕ} (hm : m < bound)
    (hreader : ∀ table ∈ tables, table.reader.max_sequence_id < bound)
    (h : ∀ record ∈ tableRecords tables, record.sequence_id < bound) :
    maxLoaded m tables < bound := by
  induction tables generalizing m with
  | nil => exact hm
  | cons table tables ih =>
    refine ih (foldl_max_lt (max_lt hm (hreader table List.mem_cons_self)) fun r hr => ?_)
      (fun t ht => hreader t (List.mem_cons_of_mem _ ht)) fun r hr => ?_
    · exact h r (List.mem_append_left _ hr)
    · exact h r (List.mem_append_right _ hr)

/-- Opening the tables of a complete directory adds their readers and records. -/
theorem wp_loadTables {R : World → World → Prop} {Q : Option ℕ → World → Prop} {disk : Disk}
    {manager : Manager} {tables : List LiveTable} {m : ℕ} (hholds : ∀ t ∈ tables, t.Holds disk)
    (hR : ∀ u v : Manager, R ⟨disk, u⟩ ⟨disk, v⟩)
    (hQ : Q (some (maxLoaded m tables)) ⟨disk, { manager with
      recent_records := manager.recent_records ++ tableRecords tables
      sstables := manager.sstables ++ tables.map LiveTable.reader }⟩) :
    (loadTables (tables.map LiveTable.entry) m).wp Prog.Quiet R Q ⟨disk, manager⟩ := by
  induction tables generalizing m manager with
  | nil => simpa [loadTables, tableRecords, maxLoaded] using hQ
  | cons table tables ih =>
    have htable := hholds table List.mem_cons_self
    rw [List.map_cons, loadTables, Prog.wp_bind, wp_onDisk]
    refine wp_open (hR _ _) ?_
    rw [htable.opens]
    simp only [Prog.wp_bind, wp_onDisk]
    refine wp_scanAll (hR _ _) ?_
    rw [htable.scan]
    simp only [wp_assign]
    refine ⟨hR _ _, ih (fun t ht => hholds t (List.mem_cons_of_mem _ ht)) ?_⟩
    simpa [tableRecords, maxLoaded, List.append_assoc] using hQ

/-- The manager after `open` recovered the records of some tables and of the log. -/
def openedManager (config : Config D) (manifest : ManifestData) (tables : List LiveTable)
    (logged : List DynamicRecord) : Manager :=
  let manifest' := nextSequence manifest
    (logged.foldl (fun m record => max m record.sequence_id) (maxLoaded 0 tables))
  { manifest := manifest'
    memtable := logged.foldl MemTable.insertReplayed
      (MemTable.new config.options.memtable_flush_bytes)
    wal_writer := some { good := true }
    sstables := tables.map LiveTable.reader
    recent_records := tableRecords tables ++ logged
    read_view := some
      { opened := true
        latest_sequence := publishedSequence manifest'
        history_records := uniqueRecordVersions (tableRecords tables ++ logged) }
    latest_sequence := publishedSequence manifest'
    opened := true }

section Opening

variable {world : World} {manifest : ManifestData} {tables : List LiveTable}
  {logged : List DynamicRecord} {tail : Bytes}

/-- Without I/O errors `open` succeeds on a complete directory and recovers the records of the
tables and of the log, whatever bytes follow them there. -/
theorem wp_openDirectory (hclosed : world.manager.opened = false)
    (hwal : config.options.enable_wal = true) (hdir : Directory world.disk manifest tables)
    (hsettled : LogSettled world.disk) (hlog : LogHolds world.disk logged tail) :
    (DynamicWriteManager.open config).wp Prog.Quiet
      (fun _ u => SameContents world.disk u.disk)
      (fun ok u => ok = true ∧ SameContents world.disk u.disk ∧ LogSettled u.disk ∧
        (u.disk.files .wal).isSome ∧ u.manager = openedManager config manifest tables logged)
      world := by
  have hrefl := SameContents.refl world.disk
  have hnew := SameContents.modifyFile world.disk (f := id) fun _ => rfl
  have hflush := hnew.trans (SameContents.modifyFile (world.disk.modifyFile .wal id)
    (f := File.flush) File.contents_flush)
  rw [DynamicWriteManager.open, Prog.wp_bind, Prog.wp_look]
  simp only [hclosed, Bool.false_eq_true, if_false, Prog.wp_bind, wp_onDisk, Prog.wp_probe_quiet,
    if_true]
  refine ⟨hrefl, hrefl, hrefl, Manifest.wp_load hrefl ?_⟩
  rw [hdir.stored]
  simp only [Prog.wp_bind, wp_assign]
  refine ⟨hrefl, ?_⟩
  rw [← hdir.entries]
  refine wp_loadTables hdir.holds (fun _ _ => hrefl) ?_
  simp only [Prog.wp_bind, wp_assign, hwal, if_true, openWal, wp_onDisk, wp_replay, wp_walNew,
    wp_walSync, Prog.wp_pure, finishOpen, wp_publish]
  rw [logRecords_of_logHolds hlog hsettled, List.nil_append, List.nil_append]
  refine ⟨hrefl, hrefl, hrefl, hnew, hflush, hflush, hflush, hflush, hflush, hflush, trivial,
    hflush, ?_, by simp, rfl⟩
  intro file hfile
  rw [modifyFile_files_self] at hfile
  cases hfile
  rfl

/-- The counter passes every recovered record whose sequence id is a positive `std::int64_t`. -/
theorem lt_nextSequence (hdir : Directory world.disk manifest tables)
    (hbound : ∀ record ∈ tableRecords tables ++ logged, record.sequence_id < 2 ^ 63) :
    ∀ record ∈ tableRecords tables ++ logged, record.sequence_id <
      (openedManager config manifest tables logged).manifest.next_sequence_id := by
  have hmax := @maxLoaded_lt tables 0 (2 ^ 63) (by decide)
    (fun t ht => max_sequence_id_of_openFiles (hdir.holds t ht).opens)
    fun r hr => hbound r (List.mem_append_left _ hr)
  have hlt := foldl_max_lt hmax fun r hr => hbound r (List.mem_append_right _ hr)
  intro record hrecord
  have hmod : ∀ n, n < 2 ^ 63 → (n + 1) % 2 ^ 64 = n + 1 := fun n hn =>
    Nat.mod_eq_of_lt (by omega)
  have hle : record.sequence_id ≤
      logged.foldl (fun m record => max m record.sequence_id) (maxLoaded 0 tables) := by
    rcases List.mem_append.mp hrecord with hr | hr
    · exact ((le_maxLoaded tables 0).2 record hr).trans (le_foldl_max logged _).1
    · exact (le_foldl_max logged _).2 record hr
  change _ < max _ _
  rw [hmod _ hlt]
  exact lt_of_lt_of_le (Nat.lt_succ_of_le hle) (le_max_right _ _)

/-- `open` starts a session on a complete directory. -/
theorem wp_openSession (hclosed : world.manager.opened = false)
    (hwal : config.options.enable_wal = true) (hdir : Directory world.disk manifest tables)
    (hsettled : LogSettled world.disk) (hlog : LogHolds world.disk logged tail)
    (hbound : ∀ record ∈ tableRecords tables ++ logged, record.sequence_id < 2 ^ 63) :
    (DynamicWriteManager.open config).wp Prog.Quiet
      (fun _ u => SameContents world.disk u.disk)
      (fun ok u => ok = true ∧ SameContents world.disk u.disk ∧ LogSettled u.disk ∧
        Session u manifest tables logged ∧ u.manager = openedManager config manifest tables logged)
      world := by
  refine Prog.wp_post (wp_openDirectory hclosed hwal hdir hsettled hlog) ?_
  rintro ok ⟨disk, manager⟩ ⟨hok, hsame, hsettled', hcreated, rfl⟩
  have hload := Manifest.loadable_iff.mp (Manifest.loadable_of_stored hdir.stored)
  refine ⟨hok, hsame, hsettled', ?_, rfl⟩
  exact
    { opened := rfl, directory := hsame.toSameTables.directory hdir, sstables := rfl
      next_sstable_id := rfl, sstable_positive := hload.2.2.2.2.2
      sequence_positive := lt_of_lt_of_le hload.2.2.2.2.1 (le_max_left _ _)
      checkpoint := hload.2.2.2.1, readers := rfl, writer := rfl, created := hcreated
      memtable := MemTable.holds_replay _ _, valid := hlog.valid
      below := lt_nextSequence hdir hbound }

end Opening

end Dynamic
