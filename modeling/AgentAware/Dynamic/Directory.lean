import AgentAware.Dynamic.Wal
import AgentAware.Dynamic.Manifest
import AgentAware.Dynamic.SSTableInternal

/-!
# A directory that can be recovered

What a crash must leave behind for the next `open` to find every write: a manifest whose tables are
complete, and a log that starts with complete records. `CrashPoint` says this of a directory, and
which writes it holds: all acknowledged ones, and possibly the one in flight.

## Main definitions

- `LiveTable`, `Directory` — the manifest and the tables it names
- `CrashPoint` — a directory from which the acknowledged writes can be recovered

## Main results

- `Directory.of_tableFrame`, `SameTables.directory` — writing elsewhere keeps the directory
- `CrashPoint.covers` — what is recovered is the acknowledged writes, with or without the one in
  flight
-/

namespace Dynamic

/-- A table the manifest names: its entry, the reader of its files, the records read. -/
structure LiveTable where
  entry : ManifestSSTableEntry
  reader : SSTableReader
  records : List DynamicRecord

/-- The files of the table are complete, readable, and named by its id. -/
structure LiveTable.Holds (table : LiveTable) (disk : Disk) : Prop where
  base : table.entry.base_path = basePath table.entry.id
  id : table.reader.id = table.entry.id
  opens : SSTableReader.openFiles disk table.entry.base_path = some table.reader
  scan : table.reader.scan disk = table.records
  data_settled : ∀ file, disk.files (.data table.entry.base_path) = some file → file.buffered = []
  index_settled : ∀ file, disk.files (.index table.entry.base_path) = some file →
    file.buffered = []

/-- The records of all tables, in the order of the manifest. -/
def tableRecords (tables : List LiveTable) : List DynamicRecord := tables.flatMap LiveTable.records

/-- The manifest `open` loads, and the tables it names. Every table has an id below the next. -/
structure Directory (disk : Disk) (manifest : ManifestData) (tables : List LiveTable) : Prop where
  stored : Manifest.stored disk = some manifest
  entries : tables.map LiveTable.entry = manifest.sstables
  holds : ∀ table ∈ tables, table.Holds disk
  fresh : ∀ table ∈ tables, table.entry.id < manifest.next_sstable_id

/-- Everything written to the log. -/
def walBytes (disk : Disk) : Bytes := ((disk.files .wal).map File.contents).getD []

/-- The log holds the records `logged`, followed by bytes at which the reader stops. -/
structure LogHolds (disk : Disk) (logged : List DynamicRecord) (tail : Bytes) : Prop where
  valid : ∀ record ∈ logged, record.Valid
  bytes : walBytes disk = walCodec.encodeAll logged ++ tail
  stops : walCodec.decode tail = none

/-- A directory that holds every acknowledged write, and of `inflight`, the write in progress if
there is one, all or nothing. -/
structure CrashPoint (disk : Disk) (acked inflight : List DynamicRecord) (manifest : ManifestData)
    (tables : List LiveTable) (logged : List DynamicRecord) : Prop where
  directory : Directory disk manifest tables
  log : ∃ tail, LogHolds disk logged tail
  known : ∀ record ∈ tableRecords tables ++ logged, record ∈ acked ++ inflight
  held : ∀ record ∈ acked, ∃ found ∈ tableRecords tables ++ logged,
    found.node_id = record.node_id ∧ record.sequence_id ≤ found.sequence_id ∧
      (found ∈ tableRecords tables ∨ found ∈ acked)
  increasing : logged.Pairwise fun a b => a.sequence_id < b.sequence_id

section Framing

variable {disk disk' : Disk} {manifest : ManifestData} {tables : List LiveTable}

theorem openFiles_congr {base : String} (hdata : disk'.files (.data base) = disk.files (.data base))
    (hindex : disk'.files (.index base) = disk.files (.index base))
    (hmeta : disk'.metas base = disk.metas base) :
    SSTableReader.openFiles disk' base = SSTableReader.openFiles disk base := by
  simp only [SSTableReader.openFiles, Disk.read, hdata, hindex, hmeta]

theorem base_path_of_openFiles {base : String} {reader : SSTableReader}
    (h : SSTableReader.openFiles disk base = some reader) : reader.base_path = base := by
  rw [SSTableReader.openFiles] at h
  split at h
  · cases h
  split at h
  case isFalse => cases h
  split at h
  · cases h
  split at h
  · cases h
  split at h
  case isFalse => cases h
  cases h
  rfl

theorem scan_congr {reader : SSTableReader}
    (hdata : disk'.files (.data reader.base_path) = disk.files (.data reader.base_path)) :
    reader.scan disk' = reader.scan disk := by
  have hfind : reader.find disk' = reader.find disk := by
    funext node_id
    simp only [SSTableReader.find, SSTableReader.readRecordAt, Disk.read, hdata]
  rw [SSTableReader.scan, SSTableReader.scan, hfind]

/-- A table is unchanged where its three files are. -/
theorem LiveTable.Holds.congr {table : LiveTable} (h : table.Holds disk)
    (hdata : disk'.files (.data table.entry.base_path) = disk.files (.data table.entry.base_path))
    (hindex : disk'.files (.index table.entry.base_path) =
      disk.files (.index table.entry.base_path))
    (hmeta : disk'.metas table.entry.base_path = disk.metas table.entry.base_path) :
    table.Holds disk' where
  base := h.base
  id := h.id
  opens := by rw [openFiles_congr hdata hindex hmeta, h.opens]
  scan := by
    have hbase := base_path_of_openFiles h.opens
    have hsame : table.reader.scan disk' = table.reader.scan disk :=
      scan_congr (by rw [hbase, hdata])
    rw [hsame, h.scan]
  data_settled := by rw [hdata]; exact h.data_settled
  index_settled := by rw [hindex]; exact h.index_settled

theorem stored_congr (h : disk'.manifest = disk.manifest) :
    Manifest.stored disk' = Manifest.stored disk := by
  rw [Manifest.stored, Manifest.stored, h]

/-- Writing the files of a new table keeps the directory. -/
theorem Directory.of_tableFrame {sstable_id : ℕ} (h : Directory disk manifest tables)
    (hframe : TableFrame (basePath sstable_id) disk disk')
    (hfresh : ∀ table ∈ tables, table.entry.id ≠ sstable_id) :
    Directory disk' manifest tables where
  stored := by rw [stored_congr hframe.manifest, h.stored]
  entries := h.entries
  holds table htable := by
    have hbase : table.entry.base_path ≠ basePath sstable_id := by
      rw [(h.holds table htable).base]
      exact fun heq => hfresh table htable (basePath_injective heq)
    exact (h.holds table htable).congr
      (hframe.files _ (fun heq => hbase (Path.data.inj heq)) (by simp))
      (hframe.files _ (by simp) fun heq => hbase (Path.index.inj heq)) (hframe.metas _ hbase)
  fresh := h.fresh

/-- A crash keeps the directory: its tables have nothing left in a stream. -/
theorem Directory.of_crash (h : Directory disk manifest tables) (keep : Path → ℕ) :
    Directory (disk.crash keep) manifest tables where
  stored := h.stored
  entries := h.entries
  holds table htable := by
    have htab := h.holds table htable
    have hsame : ∀ path, (∀ file, disk.files path = some file → file.buffered = []) →
        (disk.crash keep).files path = disk.files path := by
      intro path hsettled
      cases hfile : disk.files path with
      | none => simp [Disk.crash, hfile]
      | some file =>
        have hempty := hsettled file hfile
        obtain ⟨synced, buffered⟩ := file
        subst hempty
        simp [Disk.crash, hfile, File.crash]
    exact htab.congr (hsame _ htab.data_settled) (hsame _ htab.index_settled) rfl
  fresh := h.fresh

end Framing

/-- Two directories that differ at most in the log. -/
structure SameTables (disk disk' : Disk) : Prop where
  files : ∀ path, path ≠ .wal → disk'.files path = disk.files path
  metas : disk'.metas = disk.metas
  manifest : disk'.manifest = disk.manifest

/-- Two directories with the same contents: they differ at most in how much of the log is still in
its stream. -/
structure SameContents (disk disk' : Disk) : Prop extends SameTables disk disk' where
  bytes : walBytes disk' = walBytes disk

namespace SameTables

variable {disk disk' disk'' : Disk}

theorem refl (disk : Disk) : SameTables disk disk := ⟨fun _ _ => rfl, rfl, rfl⟩

theorem trans (h : SameTables disk disk') (h' : SameTables disk' disk'') :
    SameTables disk disk'' :=
  ⟨fun path hpath => (h'.files path hpath).trans (h.files path hpath), h'.metas.trans h.metas,
    h'.manifest.trans h.manifest⟩

theorem setFile (disk : Disk) (file : Option File) : SameTables disk (disk.setFile .wal file) :=
  ⟨fun _ hpath => setFile_files_of_ne disk hpath file, rfl, rfl⟩

theorem modifyFile (disk : Disk) (f : File → File) : SameTables disk (disk.modifyFile .wal f) :=
  setFile disk _

theorem directory {manifest : ManifestData} {tables : List LiveTable} (h : SameTables disk disk')
    (hdir : Directory disk manifest tables) : Directory disk' manifest tables where
  stored := by rw [stored_congr h.manifest, hdir.stored]
  entries := hdir.entries
  holds table htable := (hdir.holds table htable).congr (h.files _ (by simp)) (h.files _ (by simp))
    (by rw [h.metas])
  fresh := hdir.fresh

end SameTables

namespace SameContents

variable {disk disk' disk'' : Disk} {logged : List DynamicRecord} {tail : Bytes}

theorem refl (disk : Disk) : SameContents disk disk := ⟨.refl disk, rfl⟩

theorem trans (h : SameContents disk disk') (h' : SameContents disk' disk'') :
    SameContents disk disk'' :=
  ⟨h.toSameTables.trans h'.toSameTables, h'.bytes.trans h.bytes⟩

theorem walBytes_modifyFile (disk : Disk) (f : File → File) :
    walBytes (disk.modifyFile .wal f) = (f ((disk.files .wal).getD {})).contents := by
  simp [walBytes]

/-- Creating the log or flushing it changes no contents. -/
theorem modifyFile (disk : Disk) {f : File → File} (hf : ∀ file, (f file).contents = file.contents) :
    SameContents disk (disk.modifyFile .wal f) := by
  refine ⟨.modifyFile disk f, ?_⟩
  rw [walBytes_modifyFile, hf, walBytes]
  cases disk.files .wal <;> rfl

theorem logHolds (h : SameContents disk disk') (hlog : LogHolds disk logged tail) :
    LogHolds disk' logged tail :=
  ⟨hlog.valid, h.bytes.trans hlog.bytes, hlog.stops⟩

end SameContents

/-- Nothing of the log is left in its stream. -/
def LogSettled (disk : Disk) : Prop := ∀ file, disk.files .wal = some file → file.buffered = []

/-- The next `open` replays the records the log holds. -/
theorem logRecords_of_logHolds {disk : Disk} {logged : List DynamicRecord} {tail : Bytes}
    (h : LogHolds disk logged tail) (hsettled : LogSettled disk) : logRecords disk = logged := by
  have hreplay : replayBytes (walCodec.encodeAll logged ++ tail) = logged := by
    rw [replayBytes, walCodec.decodeAll_encodeAll_append h.valid, walCodec.decodeAll_eq_nil h.stops,
      List.append_nil]
  have hbytes := h.bytes
  cases hfile : disk.files .wal with
  | none =>
    rw [walBytes, hfile] at hbytes
    have hnil : logged = [] := by
      rw [← hreplay, ← hbytes]
      rfl
    rw [logRecords, Disk.read, hfile, hnil]
    rfl
  | some file =>
    have hcontents : file.contents = file.synced := by
      rw [File.contents, hsettled file hfile, List.append_nil]
    rw [walBytes, hfile] at hbytes
    rw [logRecords, Disk.read, hfile]
    change replayBytes file.synced = logged
    rw [← hcontents, ← hreplay]
    exact congrArg replayBytes hbytes

section Recovered

variable {disk : Disk} {acked inflight logged : List DynamicRecord} {manifest : ManifestData}
  {tables : List LiveTable}

/-- The records of tables and log cover the acknowledged writes, or those and the one in
flight. -/
theorem CrashPoint.covers (h : CrashPoint disk acked inflight manifest tables logged)
    (hone : inflight.length ≤ 1) :
    Covers (tableRecords tables ++ logged) acked ∨
      Covers (tableRecords tables ++ logged) (acked ++ inflight) := by
  by_cases hin : ∃ record ∈ inflight, record ∈ tableRecords tables ++ logged
  · right
    obtain ⟨r, hr, hmem⟩ := hin
    refine ⟨h.known, fun b hb => ?_⟩
    rcases List.mem_append.mp hb with hb | hb
    · obtain ⟨a, ha, hnode, hseq, _⟩ := h.held b hb
      exact ⟨a, ha, hnode, hseq⟩
    · have heq : b = r := by
        match inflight, hone with
        | [x], _ => rw [List.mem_singleton.mp hb, List.mem_singleton.mp hr]
      exact ⟨r, hmem, by rw [heq], by rw [heq]⟩
  · left
    refine ⟨fun a ha => ?_, fun b hb => ?_⟩
    · rcases List.mem_append.mp (h.known a ha) with hacked | hinflight
      · exact hacked
      · exact absurd ⟨a, hinflight, ha⟩ hin
    · obtain ⟨a, ha, hnode, hseq, _⟩ := h.held b hb
      exact ⟨a, ha, hnode, hseq⟩

end Recovered

end Dynamic
