import AgentAware.Dynamic.Wal
import AgentAware.Dynamic.MemTable
import AgentAware.Dynamic.Manifest
import AgentAware.Dynamic.Compaction
import AgentAware.Dynamic.ReadView

/-!
# The write manager

`DynamicWriteManager` appends every write to the log and the memtable, publishes a new read view,
and flushes the memtable to a table when it is full. Writers hold a mutex, so their operations run
one after the other; readers only load the two atomics, the published view and the latest
sequence, so they may look in between any two steps.

Every file operation and every store to an atomic is one step of a program over the directory and
the manager.

## Main definitions

- `Manager`, `World` — the manager, and the manager with the directory
- `DynamicWriteManager.open`, `.insert`, `.update`, `.erase`, `.flush`, `.compactOnce`, `.close`
-/

namespace Dynamic

structure DynamicWriteOptions where
  memtable_flush_bytes : ℕ := 64 * 1024 * 1024
  dynamic_graph_degree : ℕ := 16
  enable_wal : Bool := true
  enable_auto_flush : Bool := true
  deriving DecidableEq, Repr

/-- The options and the distance the manager is built with. -/
structure Config (D : Type) where
  options : DynamicWriteOptions := {}
  squared_l2 : List FloatBits → List FloatBits → D

structure DynamicCompactionStats where
  attempted : Bool := false
  success : Bool := false
  input_table_count : ℕ := 0
  input_record_count : ℕ := 0
  output_record_count : ℕ := 0
  output_sstable_id : ℕ := 0
  deriving DecidableEq, Repr

/-- The members of a `DynamicWriteManager`; `read_view` and `latest_sequence` are the atomics. -/
structure Manager where
  manifest : ManifestData := {}
  memtable : MemTable
  wal_writer : Option WalWriter := none
  sstables : List SSTableReader := []
  recent_records : List DynamicRecord := []
  read_view : Option DynamicReadView := none
  latest_sequence : ℕ := 0
  opened : Bool := false

structure World where
  disk : Disk
  manager : Manager

namespace DynamicWriteManager

/-- Run a file operation. -/
def onDisk {α : Type} (m : Prog Disk α) : Prog World α :=
  m.zoom World.disk fun disk world => { world with disk := disk }

/-- Change the members of the manager. -/
def assign (f : Manager → Manager) : Prog World Unit :=
  .step fun world => { world with manager := f world.manager }

/-- `next_sequence_id == 0 ? 0 : next_sequence_id - 1`. -/
def publishedSequence (manifest : ManifestData) : ℕ := manifest.next_sequence_id - 1

/-- The view is stored before the sequence that readers choose from it. -/
def publishReadViewLocked : Prog World Unit := do
  let world ← Prog.look
  let view : DynamicReadView :=
    { opened := world.manager.opened
      latest_sequence := publishedSequence world.manager.manifest
      history_records := uniqueRecordVersions world.manager.recent_records }
  assign fun manager => { manager with read_view := some view }
  assign fun manager => { manager with latest_sequence := view.latest_sequence }

variable {D : Type} [LinearOrder D] (config : Config D)

/-- A manager before `open`. -/
def new : Manager := { memtable := MemTable.new config.options.memtable_flush_bytes }

/-- Open the tables of the manifest and keep their records. Answers the largest sequence id met,
or nothing when a table does not open. -/
def loadTables : List ManifestSSTableEntry → ℕ → Prog World (Option ℕ)
  | [], max_loaded_sequence => pure (some max_loaded_sequence)
  | entry :: entries, max_loaded_sequence => do
    match ← onDisk (SSTableReader.open entry.base_path) with
    | none => return none
    | some reader =>
      let records ← onDisk reader.scanAll
      assign fun manager =>
        { manager with
          recent_records := manager.recent_records ++ records
          sstables := manager.sstables ++ [reader] }
      loadTables entries
        (records.foldl (fun m record => max m record.sequence_id)
          (max max_loaded_sequence reader.max_sequence_id))

/-- The counter after everything found; the addition is that of `std::uint64_t`. -/
def nextSequence (manifest : ManifestData) (max_loaded_sequence : ℕ) : ManifestData :=
  { manifest with
    next_sequence_id := max manifest.next_sequence_id ((max_loaded_sequence + 1) % 2 ^ 64) }

/-- Replay the log into the memtable, and open it for appending. -/
def openWal (max_loaded_sequence : ℕ) : Prog World Bool := do
  let records ← onDisk replay
  assign fun manager =>
    { manager with
      memtable := records.foldl MemTable.insertReplayed manager.memtable
      recent_records := manager.recent_records ++ records
      manifest := nextSequence manager.manifest
        (records.foldl (fun m record => max m record.sequence_id) max_loaded_sequence) }
  let writer ← onDisk WalWriter.new
  let (ok, writer) ← onDisk writer.sync
  assign fun manager => { manager with wal_writer := some writer }
  return ok

/-- The last steps of `open`. -/
def finishOpen : Prog World Unit := do
  assign fun manager =>
    { manager with latest_sequence := publishedSequence manager.manifest }
  assign fun manager => { manager with opened := true }
  publishReadViewLocked

def «open» : Prog World Bool := do
  let world ← Prog.look
  if world.manager.opened then
    return true
  else if ← onDisk Prog.probe then
    if ← onDisk Prog.probe then
      if ← onDisk Prog.probe then
        match ← onDisk Manifest.load with
        | none => return false
        | some manifest =>
          assign fun manager =>
            { manager with manifest := manifest, sstables := [], recent_records := [] }
          match ← loadTables manifest.sstables 0 with
          | none => return false
          | some max_loaded_sequence =>
            assign fun manager =>
              { manager with memtable := MemTable.new config.options.memtable_flush_bytes }
            if config.options.enable_wal then
              if ← openWal max_loaded_sequence then
                finishOpen
                return true
              else return false
            else
              assign fun manager =>
                { manager with manifest := nextSequence manager.manifest max_loaded_sequence }
              finishOpen
              return true
      else return false
    else return false
  else return false

/-- Close the log, remove it and start a new one. The remove's error is ignored. -/
def rotateWalLocked : Prog World Bool := do
  if config.options.enable_wal then
    let world ← Prog.look
    let closed ← match world.manager.wal_writer with
      | none => pure true
      | some writer => do
        let (ok, writer) ← onDisk writer.close
        assign fun manager => { manager with wal_writer := some writer }
        pure ok
    if closed then
      assign fun manager => { manager with wal_writer := none }
      let _ ← onDisk (removeFile .wal)
      let writer ← onDisk WalWriter.new
      let (ok, writer) ← onDisk writer.sync
      assign fun manager => { manager with wal_writer := some writer }
      return ok
    else return false
  else return true

/-- Write the memtable as a table of level 0, name it in the manifest, and start a new log. -/
def flushLocked : Prog World Bool := do
  let world ← Prog.look
  let snapshot := world.manager.memtable.snapshot
  if snapshot.isEmpty then
    return true
  else
    let sstable_id := world.manager.manifest.next_sstable_id
    if ← onDisk (SSTableWriter.write sstable_id 0 snapshot) then
      let next_manifest : ManifestData :=
        { world.manager.manifest with
          sstables := world.manager.manifest.sstables ++ [⟨sstable_id, 0, basePath sstable_id⟩]
          next_sstable_id := sstable_id + 1
          wal_checkpoint := 0 }
      if ← onDisk (Manifest.save next_manifest) then
        match ← onDisk (SSTableReader.open (basePath sstable_id)) with
        | none => return false
        | some reader =>
          assign fun manager =>
            { manager with
              manifest := next_manifest
              sstables := manager.sstables ++ [reader]
              memtable := manager.memtable.clear }
          rotateWalLocked config
      else return false
    else return false

/-- The part of `append_record_locked` before the automatic flush: log, memtable, read view. -/
def recordLocked (record : DynamicRecord) : Prog World Bool := do
  let world ← Prog.look
  let logged ← if config.options.enable_wal then
      match world.manager.wal_writer with
      | none => pure false
      | some writer => do
        let (ok, writer) ← onDisk (writer.append record)
        assign fun manager => { manager with wal_writer := some writer }
        pure ok
    else pure true
  if logged then
    match world.manager.memtable.insert record with
    | none => return false
    | some memtable =>
      assign fun manager =>
        { manager with
          memtable := memtable
          recent_records := manager.recent_records ++ [record]
          manifest := { manager.manifest with
            next_sequence_id := (manager.manifest.next_sequence_id + 1) % 2 ^ 64 } }
      publishReadViewLocked
      return true
  else return false

def appendRecordLocked (record : DynamicRecord) : Prog World Bool := do
  if ← recordLocked config record then
    let world ← Prog.look
    if config.options.enable_auto_flush && world.manager.memtable.shouldFlush then
      flushLocked config
    else return true
  else return false

/-- The records `select_incremental_neighbors_locked` chooses from. -/
def collectAllDeltaRecordsLocked (manager : Manager) : List DynamicRecord :=
  if manager.opened then deduplicateNewest manager.recent_records else []

def selectIncrementalNeighborsLocked (manager : Manager) (node_id : NodeId)
    (vector : List FloatBits) : List NodeId :=
  if config.options.dynamic_graph_degree = 0 then []
  else
    let candidates := scoreRecords config.squared_l2 vector
      ((collectAllDeltaRecordsLocked manager).filter fun record => record.node_id != node_id)
    (TopK.topk ScoredRecord.rank config.options.dynamic_graph_degree candidates).map
      fun candidate => candidate.record.node_id

/-- The record `insert` appends. -/
def insertRecord (manager : Manager) (node_id : NodeId) (vector : List FloatBits) :
    DynamicRecord where
  sequence_id := manager.manifest.next_sequence_id
  node_id := node_id
  dim := vector.length
  vector := vector
  neighbors := selectIncrementalNeighborsLocked config manager node_id vector

/-- The record `erase` appends. -/
def eraseRecord (manager : Manager) (node_id : NodeId) : DynamicRecord where
  sequence_id := manager.manifest.next_sequence_id
  node_id := node_id
  deleted := true

def insert (node_id : NodeId) (vector : List FloatBits) : Prog World Bool := do
  if vector.isEmpty then
    return false
  else
    let world ← Prog.look
    if world.manager.opened then
      appendRecordLocked config (insertRecord config world.manager node_id vector)
    else return false

def update (node_id : NodeId) (vector : List FloatBits) : Prog World Bool :=
  insert config node_id vector

def erase (node_id : NodeId) : Prog World Bool := do
  let world ← Prog.look
  if world.manager.opened then
    appendRecordLocked config (eraseRecord world.manager node_id)
  else return false

def flush : Prog World Bool := do
  let world ← Prog.look
  if world.manager.opened then
    flushLocked config
  else return false

/-- Remove the files of the old tables; errors are ignored. -/
def removeTables (output_sstable_id : ℕ) : List SSTableReader → Prog World Unit
  | [] => pure ()
  | table :: tables => do
    if table.id ≠ output_sstable_id then
      let base := basePath table.id
      let _ ← onDisk (removeFile (.data base))
      let _ ← onDisk (removeFile (.index base))
      let _ ← onDisk (.attempt (fun disk => disk.setMeta base none) fun _ disk => disk)
      removeTables output_sstable_id tables
    else removeTables output_sstable_id tables

def compactOnce : Prog World (Bool × DynamicCompactionStats) := do
  let world ← Prog.look
  let manager := world.manager
  if !manager.opened || manager.sstables.length < 2 then
    return (false, { attempted := true })
  else
    let output_sstable_id := manager.manifest.next_sstable_id
    let result ← onDisk (CompactionJob.run
      { input_tables := manager.sstables, output_sstable_id := output_sstable_id })
    let stats : DynamicCompactionStats :=
      { attempted := true
        success := result.success
        input_table_count := manager.sstables.length
        input_record_count := result.input_record_count
        output_record_count := result.output_record_count
        output_sstable_id := output_sstable_id }
    if result.success then
      match ← onDisk (SSTableReader.open result.output_base_path) with
      | none => return (false, { stats with success := false })
      | some reader =>
        let next_manifest : ManifestData :=
          { manager.manifest with
            sstables := [⟨output_sstable_id, 1, basePath output_sstable_id⟩]
            next_sstable_id := output_sstable_id + 1 }
        if ← onDisk (Manifest.save next_manifest) then
          assign fun manager =>
            { manager with manifest := next_manifest, sstables := [reader] }
          removeTables output_sstable_id manager.sstables
          return (true, stats)
        else return (false, { stats with success := false })
    else return (false, stats)

def close : Prog World Bool := do
  let world ← Prog.look
  let saved ← if world.manager.opened then onDisk (Manifest.save world.manager.manifest)
    else pure true
  let closed ← match world.manager.wal_writer with
    | none => pure true
    | some writer => do
      let (ok, _) ← onDisk writer.close
      assign fun manager => { manager with wal_writer := none }
      pure ok
  assign fun manager => { manager with opened := false }
  publishReadViewLocked
  return saved && closed

section Rules

variable {α : Type} {F : Outcome → Prop} {R : World → World → Prop} {world : World}

/-- A file operation leaves the manager alone. -/
theorem wp_onDisk {m : Prog Disk α} {Q : α → World → Prop} :
    (onDisk m).wp F R Q world ↔
      m.wp F (fun d d' => R ⟨d, world.manager⟩ ⟨d', world.manager⟩)
        (fun a d => Q a ⟨d, world.manager⟩) world.disk :=
  Prog.wp_zoom (fun _ _ => rfl) (fun _ _ _ => rfl) rfl

@[simp] theorem wp_assign {f : Manager → Manager} {Q : Unit → World → Prop} :
    (assign f).wp F R Q world ↔
      R world ⟨world.disk, f world.manager⟩ ∧ Q () ⟨world.disk, f world.manager⟩ := Iff.rfl

/-- The view that `publish_read_view_locked` publishes. -/
def currentView (manager : Manager) : DynamicReadView where
  opened := manager.opened
  latest_sequence := publishedSequence manager.manifest
  history_records := uniqueRecordVersions manager.recent_records

@[simp] theorem wp_publish {Q : Unit → World → Prop} :
    publishReadViewLocked.wp F R Q world ↔
      R world { world with manager :=
        { world.manager with read_view := some (currentView world.manager) } } ∧
      R { world with manager :=
          { world.manager with read_view := some (currentView world.manager) } }
        { world with manager := { world.manager with
          read_view := some (currentView world.manager)
          latest_sequence := publishedSequence world.manager.manifest } } ∧
      Q () { world with manager := { world.manager with
        read_view := some (currentView world.manager)
        latest_sequence := publishedSequence world.manager.manifest } } := Iff.rfl

end Rules

end DynamicWriteManager

end Dynamic
