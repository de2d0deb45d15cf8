import AgentAware.Dynamic.Session

/-!
# The operations of an open manager

What every operation does to a session when no file operation fails: which directories it passes
through, and the session it ends in. An operation that replaces tables passes from one complete
directory to another in a single step, the rename of the manifest.

## Main results

- `wp_recordLocked` — a write is appended to the log and joins the memtable
- `wp_flushLocked` — a flush turns the memtable into a table and starts a new log
- `wp_compactOnce` — a compaction turns the tables into one
- `wp_close` — closing saves the manifest and settles the log
-/

namespace Dynamic

open DynamicWriteManager

variable {D : Type} {config : Config D} {world : World} {manifest : ManifestData}
  {tables : List LiveTable} {live : List DynamicRecord}

/-- The manager after a record was published, when the sequence counter does not wrap around. -/
def published (manager : Manager) (memtable : MemTable) (record : DynamicRecord) : Manager :=
  let manager' : Manager :=
    { manager with
      memtable := memtable
      recent_records := manager.recent_records ++ [record]
      manifest := { manager.manifest with
        next_sequence_id := manager.manifest.next_sequence_id + 1 } }
  { manager' with
    read_view := some (currentView manager')
    latest_sequence := publishedSequence manager'.manifest }

/-- The disk after part of a record was appended to the log. -/
def appended (disk : Disk) (bytes : Bytes) : Disk :=
  disk.modifyFile .wal fun file => file.append bytes

/-- A write of the next sequence id succeeds: its encoding is appended to the log, chunk by chunk,
and it joins the memtable. -/
theorem wp_recordLocked {record : DynamicRecord} (hwal : config.options.enable_wal = true)
    (hs : Session world manifest tables live) (hvalid : record.Valid)
    (hseq : record.sequence_id = world.manager.manifest.next_sequence_id)
    (hnext : world.manager.manifest.next_sequence_id + 1 < 2 ^ 64) :
    (recordLocked config record).wp Prog.Quiet
      (fun _ u => ∃ p q, walCodec.encode record = p ++ q ∧ u.disk = appended world.disk p)
      (fun ok u => ok = true ∧ ∃ memtable, memtable.Holds (live ++ [record]) ∧
        world.manager.memtable.insert record = some memtable ∧
        u = ⟨appended world.disk (walCodec.encode record),
          published world.manager memtable record⟩) world := by
  obtain ⟨file, hfile⟩ := Option.isSome_iff_exists.mp hs.created
  obtain ⟨memtable, hinsert, hmemtable⟩ : ∃ memtable,
      world.manager.memtable.insert record = some memtable ∧ memtable.Holds (live ++ [record]) :=
    hs.memtable.insert fun r hr => hseq ▸ hs.below r (List.mem_append_right _ hr)
  have hwhole : ∃ p q, walCodec.encode record = p ++ q ∧
      appended world.disk (walCodec.encode record) = appended world.disk p :=
    ⟨walCodec.encode record, [], by simp, rfl⟩
  rw [recordLocked, Prog.wp_bind, Prog.wp_look]
  simp only [hwal, if_true, hs.writer, Prog.wp_bind, wp_onDisk]
  refine Prog.wp_mono (wp_walAppend (writable_of_valid hvalid) hfile) ?_ fun _ _ => id
  rintro _ d ⟨rfl, rfl⟩
  simp only [wp_assign, Prog.wp_pure, if_true, hinsert, Prog.wp_bind, wp_publish,
    Nat.mod_eq_of_lt hnext]
  refine ⟨hwhole, hwhole, hwhole, hwhole, trivial, memtable, hmemtable, rfl, ?_⟩
  simp only [published, currentView, hs.writer, appended]

/-- The session after a write. -/
theorem Session.append {record : DynamicRecord} {memtable : MemTable}
    (hs : Session world manifest tables live) (hvalid : record.Valid)
    (hseq : record.sequence_id = world.manager.manifest.next_sequence_id)
    (hmemtable : memtable.Holds (live ++ [record])) (bytes : Bytes) :
    Session ⟨appended world.disk bytes, published world.manager memtable record⟩ manifest tables
      (live ++ [record]) where
  opened := hs.opened
  directory := (SameTables.modifyFile world.disk fun file => file.append bytes).directory hs.directory
  sstables := hs.sstables
  next_sstable_id := hs.next_sstable_id
  sstable_positive := hs.sstable_positive
  sequence_positive := Nat.succ_pos _
  checkpoint := hs.checkpoint
  readers := hs.readers
  writer := hs.writer
  created := by simp [appended]
  memtable := hmemtable
  valid r hr := by
    rcases List.mem_append.mp hr with hr | hr
    · exact hs.valid r hr
    · rw [List.mem_singleton.mp hr]
      exact hvalid
  below r hr := by
    rw [← List.append_assoc] at hr
    change r.sequence_id < world.manager.manifest.next_sequence_id + 1
    rcases List.mem_append.mp hr with hr | hr
    · exact lt_trans (hs.below r hr) (Nat.lt_succ_self _)
    · rw [List.mem_singleton.mp hr, hseq]
      exact Nat.lt_succ_self _

/-- Part of a record appended to a log without a bad tail is a bad tail; a whole record is one more
record. -/
theorem LogHolds.append {disk : Disk} {record : DynamicRecord} (h : LogHolds disk live [])
    (hfile : (disk.files .wal).isSome) (hvalid : record.Valid) {p q : Bytes}
    (hpq : walCodec.encode record = p ++ q) :
    (q ≠ [] → LogHolds (appended disk p) live p) ∧
      (q = [] → LogHolds (appended disk p) (live ++ [record]) []) := by
  obtain ⟨file, hfile⟩ := Option.isSome_iff_exists.mp hfile
  have hbytes : walBytes (appended disk p) = walCodec.encodeAll live ++ p := by
    have hdisk := h.bytes
    rw [walBytes, hfile, List.append_nil] at hdisk
    rw [appended, SameContents.walBytes_modifyFile, hfile, File.contents_append]
    exact congrArg (· ++ p) hdisk
  refine ⟨fun hq => ⟨h.valid, hbytes, walCodec.decode_eq_none_of_prefix hvalid hpq hq⟩,
    fun hq => ⟨?_, ?_, h.stops⟩⟩
  · intro r hr
    rcases List.mem_append.mp hr with hr | hr
    · exact h.valid r hr
    · rw [List.mem_singleton.mp hr]
      exact hvalid
  · rw [hbytes, PrefixCodec.encodeAll_append, PrefixCodec.encodeAll_cons,
      PrefixCodec.encodeAll_nil, hpq, hq]
    simp

/-- The table that a list of records becomes. -/
def newTable (sstable_id : ℕ) (level : ℤ) (records : List DynamicRecord) : LiveTable where
  entry := ⟨sstable_id, level, basePath sstable_id⟩
  reader := readerOf (basePath sstable_id) records (tableMeta sstable_id level records)
  records := records

theorem maxSequenceId_lt {records : List DynamicRecord} {bound : ℕ} (hb : 0 < bound)
    (h : ∀ record ∈ records, record.sequence_id < bound) : maxSequenceId records < bound := by
  cases records with
  | nil => exact hb
  | cons r records =>
    exact foldl_max_lt (h r List.mem_cons_self) fun r' hr' => h r' (List.mem_cons_of_mem _ hr')

theorem minSequenceId_lt {records : List DynamicRecord} {bound : ℕ} (hb : 0 < bound)
    (h : ∀ record ∈ records, record.sequence_id < bound) : minSequenceId records < bound := by
  cases records with
  | nil => exact hb
  | cons r records =>
    have hmin : ∀ (l : List DynamicRecord) (m : ℕ), m < bound →
        l.foldl (fun m r => min m r.sequence_id) m < bound := by
      intro l
      induction l with
      | nil => intro _ hm; exact hm
      | cons r l ih => intro m hm; exact ih _ (lt_of_le_of_lt (min_le_left _ _) hm)
    exact hmin records r.sequence_id (h r List.mem_cons_self)

/-- The meta file of records with ids below `2 ^ 63` is accepted. -/
theorem metaLoadable_tableMeta {sstable_id : ℕ} {level : ℤ} {records : List DynamicRecord}
    (hid : sstable_id < 2 ^ 63) (hlevel : -2 ^ 31 ≤ level ∧ level < 2 ^ 31)
    (hsorted : records.Pairwise fun a b => a.node_id < b.node_id)
    (hseq : ∀ record ∈ records, record.sequence_id < 2 ^ 63) :
    metaLoadable (tableMeta sstable_id level records) = true := by
  have hcount := length_le_of_sorted hsorted
  have hmin := minSequenceId_lt (by decide : 0 < 2 ^ 63) hseq
  have hmax := maxSequenceId_lt (by decide : 0 < 2 ^ 63) hseq
  exact metaLoadable_iff.mpr ⟨rfl, hid, lt_of_le_of_lt hcount (by decide : 2 ^ 32 < 2 ^ 63), hmin,
    hmax, hlevel.1, hlevel.2⟩

/-- The files of a list of records are a live table. -/
theorem newTable_holds {disk : Disk} {sstable_id : ℕ} {level : ℤ} {records : List DynamicRecord}
    (h : TableFiles disk (basePath sstable_id) records (tableMeta sstable_id level records))
    (hload : metaLoadable (tableMeta sstable_id level records) = true)
    (hvalid : ∀ record ∈ records, record.Valid)
    (hsorted : records.Pairwise fun a b => a.node_id < b.node_id) :
    (newTable sstable_id level records).Holds disk where
  base := rfl
  id := rfl
  opens := by
    change SSTableReader.openFiles disk (basePath sstable_id) = _
    rw [openFiles_of_tableFiles h rfl hvalid hsorted, if_pos hload]
    rfl
  scan := scan_of_tableFiles h hvalid hsorted
  data_settled file hfile := by
    have hdata : disk.files (.data (basePath sstable_id)) = some file := hfile
    rw [h.data] at hdata
    cases hdata
    rfl
  index_settled file hfile := by
    have hindex : disk.files (.index (basePath sstable_id)) = some file := hfile
    rw [h.index] at hindex
    cases hindex
    rfl

/-- Starting a new log: the old one is flushed, removed and created again. -/
theorem wp_rotateWalLocked (hwal : config.options.enable_wal = true)
    (hwriter : world.manager.wal_writer = some { good := true }) :
    (rotateWalLocked config).wp Prog.Quiet
      (fun _ u => SameTables world.disk u.disk ∧
        (walBytes u.disk = walBytes world.disk ∨ walBytes u.disk = []))
      (fun ok u => ok = true ∧ u.manager = world.manager ∧ SameTables world.disk u.disk ∧
        u.disk.files .wal = some {}) world := by
  have hflush := SameContents.modifyFile world.disk (f := File.flush) File.contents_flush
  have hempty : ∀ file : Option File, file = none ∨ file = some {} →
      walBytes (world.disk.setFile .wal file) = [] := by
    rintro file (rfl | rfl) <;> simp [walBytes, File.contents]
  rw [rotateWalLocked, if_pos hwal, Prog.wp_bind, Prog.wp_look]
  simp only [hwriter, Prog.wp_bind, wp_onDisk, wp_walClose, wp_assign, Prog.wp_pure, if_true,
    removeFile, Prog.wp_attempt_quiet, wp_walNew, wp_walSync]
  rw [Disk.modifyFile]
  simp only [setFile_setFile, modifyFile_setFile]
  have hold : SameTables world.disk (world.disk.modifyFile .wal File.flush) ∧
      (walBytes (world.disk.modifyFile .wal File.flush) = walBytes world.disk ∨
        walBytes (world.disk.modifyFile .wal File.flush) = []) :=
    ⟨hflush.toSameTables, .inl hflush.bytes⟩
  have hnew : ∀ file : Option File, file = none ∨ file = some {} →
      SameTables world.disk (world.disk.setFile .wal file) ∧
        (walBytes (world.disk.setFile .wal file) = walBytes world.disk ∨
          walBytes (world.disk.setFile .wal file) = []) :=
    fun file hfile => ⟨.setFile _ _, .inr (hempty file hfile)⟩
  refine ⟨hold, hold, hold, hnew _ (.inl rfl), hnew _ (.inr rfl), hnew _ (.inr rfl),
    hnew _ (.inr rfl), trivial, ?_, .setFile _ _, setFile_files_self _ _ _⟩
  rw [← hwriter]

/-- The manifest after the table `sstable_id` was added to it. -/
def manifestWith (manifest : ManifestData) : ManifestData :=
  { manifest with
    sstables := manifest.sstables ++
      [⟨manifest.next_sstable_id, 0, basePath manifest.next_sstable_id⟩]
    next_sstable_id := manifest.next_sstable_id + 1
    wal_checkpoint := 0 }

theorem loadable_saved {data : ManifestData} (hseq : data.next_sequence_id < 2 ^ 63)
    (hseq' : 0 < data.next_sequence_id) (hid : data.next_sstable_id < 2 ^ 63)
    (hid' : 0 < data.next_sstable_id) (hcheckpoint : data.wal_checkpoint < 2 ^ 63) :
    Manifest.loadable (Manifest.saved data) = true :=
  Manifest.loadable_iff.mpr ⟨rfl, hseq, hid, hcheckpoint, hseq', hid'⟩

/-- Saving a manifest replaces the tables of a directory in one step. -/
theorem Directory.of_save {disk disk' : Disk} {data : ManifestData} {tables' : List LiveTable}
    (hload : Manifest.loadable (Manifest.saved data) = true)
    (hmanifest : disk'.manifest = some (Manifest.saved data))
    (hfiles : disk'.files = disk.files) (hmetas : disk'.metas = disk.metas)
    (hentries : tables'.map LiveTable.entry = data.sstables)
    (hholds : ∀ table ∈ tables', table.Holds disk)
    (hfresh : ∀ table ∈ tables', table.entry.id < data.next_sstable_id) :
    Directory disk' (Manifest.saved data) tables' where
  stored := by rw [Manifest.stored, hmanifest]; exact if_pos hload
  entries := hentries
  holds table htable := (hholds table htable).congr (by rw [hfiles]) (by rw [hfiles])
    (by rw [hmetas])
  fresh := hfresh

/-- The table a flush writes. -/
def flushedTable (manager : Manager) : LiveTable :=
  newTable manager.manifest.next_sstable_id 0 (deduplicateNewest manager.memtable.snapshot)

/-- A flush passes from the old directory to the new one while the log is kept; then the log is
replaced by an empty one. -/
def FlushPasses (disk : Disk) (manifest : ManifestData) (tables : List LiveTable)
    (manifest' : ManifestData) (tables' : List LiveTable) (d : Disk) : Prop :=
  (Directory d manifest tables ∧ walBytes d = walBytes disk) ∨
    (Directory d manifest' tables' ∧ (walBytes d = walBytes disk ∨ walBytes d = []))

theorem flushedTable_covers (hs : Session world manifest tables live) :
    Covers (flushedTable world.manager).records live :=
  (deduplicateNewest_covers _).trans hs.memtable.snapshot_covers

theorem walBytes_congr {disk disk' : Disk} (h : disk'.files .wal = disk.files .wal) :
    walBytes disk' = walBytes disk := by
  rw [walBytes, walBytes, h]

theorem wp_flushLocked (hwal : config.options.enable_wal = true)
    (hs : Session world manifest tables live) (hlive : live ≠ [])
    (hid : world.manager.manifest.next_sstable_id + 1 < 2 ^ 63)
    (hseq : world.manager.manifest.next_sequence_id < 2 ^ 63) :
    (flushLocked config).wp Prog.Quiet
      (fun _ u => FlushPasses world.disk manifest tables
        (Manifest.saved (manifestWith world.manager.manifest))
        (tables ++ [flushedTable world.manager]) u.disk)
      (fun ok u => ok = true ∧
        Session u (Manifest.saved (manifestWith world.manager.manifest))
          (tables ++ [flushedTable world.manager]) [] ∧
        u.disk.files .wal = some {} ∧
        u.manager = { world.manager with
          manifest := manifestWith world.manager.manifest
          sstables := world.manager.sstables ++ [(flushedTable world.manager).reader]
          memtable := world.manager.memtable.clear }) world := by
  set table := flushedTable world.manager
  have hcovers : Covers table.records live := flushedTable_covers hs
  have hvalid : ∀ record ∈ table.records, record.Valid := fun r hr => hs.valid r (hcovers.1 r hr)
  have hsorted : table.records.Pairwise fun a b => a.node_id < b.node_id :=
    deduplicateNewest_sorted _
  have hload := @metaLoadable_tableMeta world.manager.manifest.next_sstable_id 0 table.records (by omega)
    (by decide) hsorted fun r hr =>
      lt_trans (hs.below r (List.mem_append_right _ (hcovers.1 r hr))) hseq
  have hsnapshot : world.manager.memtable.snapshot.isEmpty = false := by
    obtain ⟨r, hr⟩ := List.exists_mem_of_ne_nil live hlive
    obtain ⟨a, ha, _⟩ := hs.memtable.snapshot_covers.2 r hr
    rw [List.isEmpty_eq_false_iff_exists_mem]
    exact ⟨a, ha⟩
  have hfresh : ∀ t ∈ tables, t.entry.id < world.manager.manifest.next_sstable_id := fun t ht => by
    rw [hs.next_sstable_id]
    exact hs.directory.fresh t ht
  have hfresh' : ∀ t ∈ tables ++ [table],
      t.entry.id < (manifestWith world.manager.manifest).next_sstable_id := by
    intro t ht
    rcases List.mem_append.mp ht with ht | ht
    · exact lt_trans (hfresh t ht) (Nat.lt_succ_self _)
    · rw [List.mem_singleton.mp ht]
      exact Nat.lt_succ_self _
  have hentries : (tables ++ [table]).map LiveTable.entry =
      (manifestWith world.manager.manifest).sstables := by
    rw [List.map_append, hs.directory.entries, ← hs.sstables]
    rfl
  have hloadable : Manifest.loadable (Manifest.saved (manifestWith world.manager.manifest)) = true :=
    loadable_saved hseq hs.sequence_positive hid (Nat.succ_pos _) (Nat.two_pow_pos 63)
  rw [flushLocked, Prog.wp_bind, Prog.wp_look]
  simp only [hsnapshot, Bool.false_eq_true, if_false, Prog.wp_bind, wp_onDisk]
  -- the table is written beside the old directory
  refine Prog.wp_mono (wp_sstableWrite world.manager.manifest.next_sstable_id 0
    world.manager.memtable.snapshot world.disk fun r hr => writable_of_valid (hvalid r hr)) ?_
    fun _ d hframe => .inl ⟨hs.directory.of_tableFrame hframe fun t ht => (hfresh t ht).ne,
      walBytes_congr (hframe.files .wal (by simp) (by simp))⟩
  rintro _ d₁ ⟨rfl, hframe, hfiles⟩
  have hdir₁ := hs.directory.of_tableFrame hframe fun t ht => (hfresh t ht).ne
  have hbytes₁ := walBytes_congr (hframe.files .wal (by simp) (by simp))
  have hholds : ∀ t ∈ tables ++ [table], t.Holds d₁ := by
    intro t ht
    rcases List.mem_append.mp ht with ht | ht
    · exact hdir₁.holds t ht
    · rw [List.mem_singleton.mp ht]
      exact newTable_holds hfiles hload hvalid hsorted
  simp only [if_true, Prog.wp_bind, wp_onDisk]
  -- the rename of the manifest adopts it
  refine Prog.wp_mono (Manifest.wp_save _ d₁) ?_ fun _ d hd => ?_
  · rintro _ d₂ ⟨rfl, hfiles₂, hmetas₂, hmanifest₂⟩
    have hdir₂ : Directory d₂ (Manifest.saved (manifestWith world.manager.manifest))
        (tables ++ [table]) :=
      .of_save hloadable hmanifest₂ hfiles₂ hmetas₂ hentries hholds hfresh'
    have hbytes₂ : walBytes d₂ = walBytes world.disk :=
      (walBytes_congr (by rw [hfiles₂])).trans hbytes₁
    have hopens : SSTableReader.openFiles d₂ (basePath world.manager.manifest.next_sstable_id) = some table.reader :=
      (hdir₂.holds table (by simp)).opens
    simp only [if_true, Prog.wp_bind, wp_onDisk]
    refine wp_open (.inr ⟨hdir₂, .inl hbytes₂⟩) ?_
    simp only [hopens, Prog.wp_bind, wp_assign]
    refine ⟨.inr ⟨hdir₂, .inl hbytes₂⟩, ?_⟩
    refine Prog.wp_mono (wp_rotateWalLocked hwal hs.writer) ?_ fun _ u hu => ?_
    · rintro _ ⟨d₃, manager₃⟩ ⟨rfl, rfl, hsame, hlog⟩
      refine ⟨rfl, ?_, hlog, rfl⟩
      exact
        { opened := hs.opened, directory := hsame.directory hdir₂, sstables := rfl
          next_sstable_id := rfl, sstable_positive := Nat.succ_pos _
          sequence_positive := hs.sequence_positive, checkpoint := Nat.two_pow_pos 63
          readers := by rw [hs.readers, List.map_append]; rfl
          writer := hs.writer, created := by rw [hlog]; rfl
          memtable := MemTable.Holds.clear _, valid := by simp
          below := by
            intro r hr
            rw [List.append_nil, tableRecords, List.flatMap_append] at hr
            refine hs.below r ?_
            rcases List.mem_append.mp hr with hr | hr
            · exact List.mem_append_left _ hr
            · exact List.mem_append_right _ (hcovers.1 r (by simpa using hr)) }
    · refine .inr ⟨hu.1.directory hdir₂, hu.2.imp (fun h => ?_) id⟩
      exact h.trans hbytes₂
  · obtain ⟨hfiles₂, hmetas₂, hmanifest₂⟩ := hd
    have hbytes₂ : walBytes d = walBytes world.disk :=
      (walBytes_congr (by rw [hfiles₂])).trans hbytes₁
    rcases hmanifest₂ with hmanifest₂ | hmanifest₂
    · have hsame : SameTables d₁ d := ⟨fun _ _ => by rw [hfiles₂], hmetas₂, hmanifest₂⟩
      exact .inl ⟨hsame.directory hdir₁, hbytes₂⟩
    · exact .inr ⟨.of_save hloadable hmanifest₂ hfiles₂ hmetas₂ hentries hholds hfresh',
        .inl hbytes₂⟩

/-- The records a compaction keeps. -/
def compactedRecords (world : World) : List DynamicRecord :=
  deduplicateNewest (scanTables world.disk world.manager.sstables)

/-- The table a compaction writes. -/
def compactedTable (world : World) : LiveTable :=
  newTable world.manager.manifest.next_sstable_id 1 (compactedRecords world)

/-- The meta file of that table. -/
def compactedMeta (world : World) : SSTableMeta :=
  tableMeta world.manager.manifest.next_sstable_id 1 (compactedRecords world)

/-- The manifest that names that table only. -/
def manifestOnly (manifest : ManifestData) : ManifestData :=
  { manifest with
    sstables := [⟨manifest.next_sstable_id, 1, basePath manifest.next_sstable_id⟩]
    next_sstable_id := manifest.next_sstable_id + 1 }

/-- The directory once a compaction adopted its output: the manifest names the new table, whose
files stay while those of the old tables are removed. -/
structure Compacted (world : World) (d : Disk) : Prop where
  manifest : d.manifest = some (Manifest.saved (manifestOnly world.manager.manifest))
  files : TableFiles d (basePath world.manager.manifest.next_sstable_id) (compactedRecords world)
    (compactedMeta world)
  log : d.files .wal = world.disk.files .wal

theorem compactedRecords_valid (world : World) :
    ∀ record ∈ compactedRecords world, record.Valid := fun r hr =>
  valid_of_mem_scanTables ((deduplicateNewest_covers _).1 r hr)

/-- Removing the files of other tables keeps the new one. -/
theorem wp_removeTables {R : World → World → Prop} {Q : Unit → World → Prop} {start world : World}
    {output_sstable_id : ℕ} (sstables : List SSTableReader)
    (hid : output_sstable_id = start.manager.manifest.next_sstable_id)
    (hd : Compacted start world.disk)
    (hR : ∀ d d', Compacted start d' → R ⟨d, world.manager⟩ ⟨d', world.manager⟩)
    (hQ : ∀ d, Compacted start d → Q () ⟨d, world.manager⟩) :
    (removeTables output_sstable_id sstables).wp Prog.Quiet R Q world := by
  subst hid
  induction sstables generalizing world with
  | nil => exact hQ _ hd
  | cons table sstables ih =>
    rw [removeTables]
    refine Prog.wp_ite (fun hne => ?_) fun _ => ih hd hR hQ
    have hbase : basePath start.manager.manifest.next_sstable_id ≠ basePath table.id :=
      fun heq => hne (basePath_injective heq.symm)
    have hfile : ∀ (d : Disk) (path : Path), path = .data (basePath table.id) ∨
        path = .index (basePath table.id) → Compacted start d →
        Compacted start (d.setFile path none) := by
      rintro d path (rfl | rfl) h
      · exact ⟨h.manifest,
          ⟨(setFile_files_of_ne _ (by simpa using hbase) _).trans h.files.data,
            (setFile_files_of_ne _ (by simp) _).trans h.files.index, h.files.value⟩,
          (setFile_files_of_ne _ (by simp) _).trans h.log⟩
      · exact ⟨h.manifest,
          ⟨(setFile_files_of_ne _ (by simp) _).trans h.files.data,
            (setFile_files_of_ne _ (by simpa using hbase) _).trans h.files.index, h.files.value⟩,
          (setFile_files_of_ne _ (by simp) _).trans h.log⟩
    have hmeta : ∀ d : Disk, Compacted start d →
        Compacted start (d.setMeta (basePath table.id) none) := fun d h =>
      ⟨h.manifest, ⟨h.files.data, h.files.index,
        (setMeta_metas_of_ne _ hbase _).trans h.files.value⟩, h.log⟩
    simp only [Prog.wp_bind, wp_onDisk, removeFile, Prog.wp_attempt_quiet]
    have h₁ := hfile _ _ (.inl rfl) hd
    have h₂ := hfile _ _ (.inr rfl) h₁
    have h₃ := hmeta _ h₂
    exact ⟨hR _ _ h₁, hR _ _ h₂, hR _ _ h₃, ih h₃ hR hQ⟩

/-- Without I/O errors a compaction of two or more tables succeeds when the meta file of its output
is accepted, and otherwise leaves the directory as it was but for the files of its output. -/
theorem wp_compactOnce (hopened : world.manager.opened = true)
    (htables : 2 ≤ world.manager.sstables.length) :
    compactOnce.wp Prog.Quiet
      (fun _ u => TableFrame (basePath world.manager.manifest.next_sstable_id) world.disk u.disk ∨
        metaLoadable (compactedMeta world) = true ∧ Compacted world u.disk)
      (fun out u =>
        (metaLoadable (compactedMeta world) = true → out.1 = true ∧ Compacted world u.disk ∧
          u.manager = { world.manager with
            manifest := manifestOnly world.manager.manifest
            sstables := [(compactedTable world).reader] }) ∧
        (metaLoadable (compactedMeta world) = false → out.1 = false ∧
          TableFrame (basePath world.manager.manifest.next_sstable_id) world.disk u.disk ∧
          u.manager = world.manager)) world := by
  have hguard : (!world.manager.opened || decide (world.manager.sstables.length < 2)) = false := by
    simp only [hopened, Bool.not_true, Bool.false_or, decide_eq_false_iff_not]
    omega
  have hne : world.manager.sstables ≠ [] := by
    rintro hnil
    rw [hnil] at htables
    simp at htables
  simp only [compactOnce, Prog.wp_bind, Prog.wp_look, hguard, Bool.false_eq_true, if_false,
    wp_onDisk]
  have hjob := @wp_compactionJob world.disk
    ⟨world.manager.sstables, world.manager.manifest.next_sstable_id, 1⟩ hne
  refine Prog.wp_mono hjob ?_ fun _ d hd => .inl hd
  rintro ⟨success, base, count, count'⟩ d₁ ⟨hsuccess, hbase, hframe, hfiles⟩
  dsimp only at hsuccess hbase hframe hfiles
  subst hsuccess hbase
  simp only [if_true, Prog.wp_bind, wp_onDisk]
  refine wp_open (.inl hframe) ?_
  have hopen := openFiles_of_tableFiles hfiles rfl (compactedRecords_valid world)
    (deduplicateNewest_sorted _)
  cases hload : metaLoadable (compactedMeta world) with
  | false =>
    have hload' := hload
    rw [compactedMeta, compactedRecords] at hload'
    rw [hload', if_neg (by simp)] at hopen
    simp only [hopen, Prog.wp_pure]
    exact ⟨by simp, fun _ => ⟨trivial, hframe, trivial⟩⟩
  | true =>
    have hload' := hload
    rw [compactedMeta, compactedRecords] at hload'
    rw [hload', if_pos rfl] at hopen
    simp only [hopen, Prog.wp_bind, wp_onDisk]
    refine Prog.wp_mono (Manifest.wp_save _ d₁) ?_ fun _ d hd => ?_
    · rintro _ d₂ ⟨rfl, hfiles₂, hmetas₂, hmanifest₂⟩
      have hcompacted : Compacted world d₂ :=
        ⟨hmanifest₂, ⟨by rw [hfiles₂]; exact hfiles.data, by rw [hfiles₂]; exact hfiles.index,
          by rw [hmetas₂]; exact hfiles.value⟩,
          by rw [hfiles₂]; exact hframe.files .wal (by simp) (by simp)⟩
      simp only [if_true, Prog.wp_bind, wp_assign]
      refine ⟨.inr ⟨trivial, hcompacted⟩, ?_⟩
      refine wp_removeTables _ rfl hcompacted (fun _ _ h => .inr ⟨trivial, h⟩) fun d h => ?_
      exact ⟨fun _ => ⟨rfl, h, rfl⟩, by simp⟩
    · obtain ⟨hfiles₂, hmetas₂, hmanifest₂ | hmanifest₂⟩ := hd
      · exact .inl (hframe.trans ⟨hmanifest₂, fun _ _ _ => by rw [hfiles₂],
          fun _ _ => by rw [hmetas₂]⟩)
      · exact .inr ⟨trivial, hmanifest₂, ⟨by rw [hfiles₂]; exact hfiles.data,
          by rw [hfiles₂]; exact hfiles.index, by rw [hmetas₂]; exact hfiles.value⟩,
          by rw [hfiles₂]; exact hframe.files .wal (by simp) (by simp)⟩

theorem scanTables_readers {disk : Disk} (h : ∀ table ∈ tables, table.Holds disk) :
    scanTables disk (tables.map LiveTable.reader) = tableRecords tables := by
  induction tables with
  | nil => rfl
  | cons table tables ih =>
    rw [List.map_cons, scanTables, List.flatMap_cons, (h table List.mem_cons_self).scan,
      ← scanTables, ih fun t ht => h t (List.mem_cons_of_mem _ ht)]
    rfl

/-- A compaction loses superseded records only. -/
theorem compactedRecords_covers (hs : Session world manifest tables live) :
    Covers (compactedRecords world) (tableRecords tables) := by
  rw [compactedRecords, hs.readers, scanTables_readers hs.directory.holds]
  exact deduplicateNewest_covers _

/-- A compaction passes from the old directory to the one with a single table. -/
def CompactPasses (disk : Disk) (manifest : ManifestData) (tables : List LiveTable)
    (manifest' : ManifestData) (table : LiveTable) (d : Disk) : Prop :=
  (Directory d manifest tables ∨ Directory d manifest' [table]) ∧
    d.files .wal = disk.files .wal

theorem Compacted.directory {d : Disk} (h : Compacted world d)
    (hload : metaLoadable (compactedMeta world) = true)
    (hloadable : Manifest.loadable (Manifest.saved (manifestOnly world.manager.manifest)) = true) :
    Directory d (Manifest.saved (manifestOnly world.manager.manifest)) [compactedTable world] where
  stored := by rw [Manifest.stored, h.manifest]; exact if_pos hloadable
  entries := rfl
  holds table htable := by
    rw [List.mem_singleton.mp htable]
    exact newTable_holds h.files hload (compactedRecords_valid world) (deduplicateNewest_sorted _)
  fresh table htable := by
    rw [List.mem_singleton.mp htable]
    exact Nat.lt_succ_self _

theorem wp_compactSession (hs : Session world manifest tables live)
    (htables : 2 ≤ world.manager.sstables.length)
    (hid : world.manager.manifest.next_sstable_id + 1 < 2 ^ 63)
    (hseq : world.manager.manifest.next_sequence_id < 2 ^ 63) :
    compactOnce.wp Prog.Quiet
      (fun _ u => CompactPasses world.disk manifest tables
        (Manifest.saved (manifestOnly world.manager.manifest)) (compactedTable world) u.disk)
      (fun out u => out.1 = true ∧ u.disk.files .wal = world.disk.files .wal ∧
        Session u (Manifest.saved (manifestOnly world.manager.manifest)) [compactedTable world]
          live) world := by
  have hcovers := compactedRecords_covers hs
  have hload : metaLoadable (compactedMeta world) = true :=
    metaLoadable_tableMeta (by omega) (by decide) (deduplicateNewest_sorted _) fun r hr =>
      lt_trans (hs.below r (List.mem_append_left _ (hcovers.1 r hr))) hseq
  have hloadable : Manifest.loadable (Manifest.saved (manifestOnly world.manager.manifest)) = true :=
    loadable_saved hseq hs.sequence_positive hid (Nat.succ_pos _) hs.checkpoint
  have hframe : ∀ d, TableFrame (basePath world.manager.manifest.next_sstable_id) world.disk d →
      Directory d manifest tables ∧ d.files .wal = world.disk.files .wal := fun d hd =>
    ⟨hs.directory.of_tableFrame hd fun t ht => by
      rw [hs.next_sstable_id]
      exact (hs.directory.fresh t ht).ne, hd.files .wal (by simp) (by simp)⟩
  refine Prog.wp_mono (wp_compactOnce hs.opened htables) ?_ fun _ u hu => ?_
  · rintro out ⟨d, manager⟩ ⟨hdone, _⟩
    obtain ⟨hout, hcompacted, rfl⟩ := hdone hload
    refine ⟨hout, hcompacted.log, ?_⟩
    exact
      { opened := hs.opened, directory := hcompacted.directory hload hloadable, sstables := rfl
        next_sstable_id := rfl, sstable_positive := Nat.succ_pos _
        sequence_positive := hs.sequence_positive, checkpoint := hs.checkpoint, readers := rfl
        writer := hs.writer, created := by rw [hcompacted.log]; exact hs.created
        memtable := hs.memtable, valid := hs.valid
        below := by
          intro r hr
          rcases List.mem_append.mp hr with hr | hr
          · have hr' : r ∈ compactedRecords world := by
              simpa [tableRecords, compactedTable, newTable] using hr
            exact hs.below r (List.mem_append_left _ (hcovers.1 r hr'))
          · exact hs.below r (List.mem_append_right _ hr) }
  · rcases hu with hu | ⟨_, hu⟩
    · exact ⟨.inl (hframe _ hu).1, (hframe _ hu).2⟩
    · exact ⟨.inr (hu.directory hload hloadable), hu.log⟩

/-- Closing saves the manifest, flushes the log and closes the view. -/
theorem wp_close (hs : Session world manifest tables live)
    (hid : world.manager.manifest.next_sstable_id < 2 ^ 63)
    (hseq : world.manager.manifest.next_sequence_id < 2 ^ 63) :
    close.wp Prog.Quiet
      (fun _ u => ∃ manifest', Directory u.disk manifest' tables ∧
        walBytes u.disk = walBytes world.disk)
      (fun ok u => ok = true ∧
        Directory u.disk (Manifest.saved world.manager.manifest) tables ∧
        walBytes u.disk = walBytes world.disk ∧ LogSettled u.disk ∧
        u.manager.opened = false ∧ u.manager.wal_writer = none ∧
        u.manager.manifest = world.manager.manifest) world := by
  have hloadable : Manifest.loadable (Manifest.saved world.manager.manifest) = true :=
    loadable_saved hseq hs.sequence_positive hid hs.sstable_positive hs.checkpoint
  have hentries : tables.map LiveTable.entry = world.manager.manifest.sstables := by
    rw [hs.directory.entries, hs.sstables]
  have hfresh : ∀ t ∈ tables, t.entry.id < world.manager.manifest.next_sstable_id := fun t ht => by
    rw [hs.next_sstable_id]
    exact hs.directory.fresh t ht
  rw [close, Prog.wp_bind, Prog.wp_look]
  simp only [hs.opened, if_true, Prog.wp_bind, wp_onDisk]
  refine Prog.wp_mono (Manifest.wp_save _ world.disk) ?_ fun _ d hd => ?_
  · rintro _ d ⟨rfl, hfiles, hmetas, hmanifest⟩
    have hdir : Directory d (Manifest.saved world.manager.manifest) tables :=
      .of_save hloadable hmanifest hfiles hmetas hentries hs.directory.holds hfresh
    have hbytes : walBytes d = walBytes world.disk := walBytes_congr (by rw [hfiles])
    have hflush := SameContents.modifyFile d (f := File.flush) File.contents_flush
    have hdir' := hflush.toSameTables.directory hdir
    have hbytes' := hflush.bytes.trans hbytes
    simp only [hs.writer, Prog.wp_bind, wp_onDisk, wp_walClose, wp_assign, Prog.wp_pure,
      wp_publish]
    refine ⟨⟨_, hdir', hbytes'⟩, ⟨_, hdir', hbytes'⟩, ⟨_, hdir', hbytes'⟩, ⟨_, hdir', hbytes'⟩,
      ⟨_, hdir', hbytes'⟩, rfl, hdir', hbytes', ?_, trivial, trivial, trivial⟩
    intro file hfile
    rw [modifyFile_files_self] at hfile
    cases hfile
    rfl
  · obtain ⟨hfiles, hmetas, hmanifest | hmanifest⟩ := hd
    · have hsame : SameTables world.disk d := ⟨fun _ _ => by rw [hfiles], hmetas, hmanifest⟩
      exact ⟨_, hsame.directory hs.directory, walBytes_congr (by rw [hfiles])⟩
    · exact ⟨_, .of_save hloadable hmanifest hfiles hmetas hentries hs.directory.holds hfresh,
        walBytes_congr (by rw [hfiles])⟩

end Dynamic
