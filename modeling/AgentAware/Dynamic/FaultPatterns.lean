import AgentAware.Dynamic.Acceptance
import AgentAware.Dynamic.DynamicWriteManager
import AgentAware.Lib.Roles

/-!
# The failures a write and its flush survive

Which operations a write and the flush of the memtable perform, in order, and what the failure of each
means. The roles depend on the record and the memtable alone, so whether a flush succeeds can be told
from the state before it and from the outcomes of its operations.

## Main definitions

- `logRoles`, `tableRoles`, `manifestRoles`, `rotateRoles`, `flushRoles` — the operations in order
- `canLog`, `tableStorable` — what the log and the table can hold

## Main results

- `follows_recordLocked` — the log, the memtable and the read view
- `run_flushLocked` — the flush
-/

namespace Dynamic

open DynamicWriteManager Prog

/-- A record in the log, chunk by chunk. -/
def logRoles (record : DynamicRecord) : List Role :=
  (recordChunks walLayout record).map fun _ => .required

/-- A record in the data file of a table, chunk by chunk, and its index entry. -/
def recordRoles (record : DynamicRecord) : List Role :=
  (recordChunks sstableLayout record).map (fun _ => .required) ++ List.replicate 3 .required

/-- The directory, the two files, the header of the index, the records, both flushes, and the meta
file, which is truncated and written. -/
def tableRoles (records : List DynamicRecord) : List Role :=
  [.required] ++ ([.required] ++ ([.required] ++ (List.replicate 3 .required ++
    ((deduplicateNewest records).flatMap recordRoles ++
      ([.required] ++ ([.required] ++ ([.required] ++ [.required])))))))

/-- The temporary file is opened, truncated and written, and the rename may be tried twice. -/
def manifestRoles : List Role := [.required] ++ ([.required] ++ ([.required] ++ [.retried]))

/-- The old log is flushed and removed, the new one is opened and flushed. -/
def rotateRoles : List Role := [.required] ++ ([.ignored] ++ ([.required] ++ [.required]))

/-- The table and the manifest are written, the table is opened, and the log is replaced. -/
def flushRoles (enable_wal : Bool) (records : List DynamicRecord) : List Role :=
  tableRoles records ++ (manifestRoles ++ ([.required] ++ if enable_wal then rotateRoles else []))

variable {D : Type} (config : Config D)

/-- The log takes a record when no operation fails. -/
def canLog (manager : Manager) (record : DynamicRecord) : Bool :=
  match manager.wal_writer with
  | none => false
  | some writer => !(writer.closed || !writer.good) && writable record

/-- A table of the records can be written, and its meta file is read back. -/
def tableStorable (sstable_id : ℕ) (records : List DynamicRecord) : Bool :=
  (deduplicateNewest records).all writable &&
    metaLoadable (tableMeta sstable_id 0 (deduplicateNewest records))

variable {config} {world : World} {disk : Disk} {path : Path} {base : String}
  {record : DynamicRecord} {records : List DynamicRecord} {sstable_id : ℕ} {level : ℤ}

section Disk

/-- An operation that has to succeed. -/
theorem follows_operation {ok : Disk → Disk} {bad : ℕ → Disk → Disk} :
    Follows [.required] (attempt ok bad) (fun done _ => done = true) (fun done => done = false) disk :=
  follows_attempt.post (fun _ _ h => h.1) fun _ h => h

theorem follows_writes (path : Path) (chunks : List Bytes) :
    Follows (chunks.map fun _ => .required) (forEach (write path) chunks) (fun ok _ => ok = true)
      (fun ok => ok = false) disk := by
  have hroles : (chunks.map fun _ => Role.required) = chunks.flatMap fun _ => [.required] :=
    List.map_eq_flatMap
  rw [hroles]
  exact follows_forEach fun _ _ _ => follows_operation

theorem follows_writeFields (path : Path) (a b c : ℕ × ℕ) :
    Follows (List.replicate 3 .required) (writeFields path [a, b, c]) (fun ok _ => ok = true)
      (fun ok => ok = false) disk := by
  have hfields : Follows ([a, b, c].flatMap fun _ => [.required]) (writeFields path [a, b, c])
      (fun ok _ => ok = true) (fun ok => ok = false) disk :=
    follows_forEach fun _ _ _ => follows_operation
  exact hfields

theorem follows_writeRecordAndEntry (base : String) (hwritable : writable record = true) :
    Follows (recordRoles record) (writeRecordAndEntry base record) (fun ok _ => ok = true)
      (fun ok => ok = false) disk := by
  refine follows_look ?_
  rw [writeRecord, if_pos hwritable]
  exact (follows_writes (.data base) _).succeeds.andThen (fun t _ => follows_writeFields _ _ _ _)
    fun _ => rfl

/-- A table of records that can be written. -/
theorem follows_sstableWrite (sstable_id : ℕ) (level : ℤ)
    (hwritable : ∀ record ∈ deduplicateNewest records, writable record = true) :
    Follows (tableRoles records) (SSTableWriter.write sstable_id level records)
      (fun ok d => ok = true ∧ TableFiles d (basePath sstable_id) (deduplicateNewest records)
        (tableMeta sstable_id level (deduplicateNewest records)))
      (fun ok => ok = false) disk := by
  have hrequired : ∀ role ∈ tableRoles records, role = .required := by
    intro role hrole
    simp only [tableRoles, recordRoles, List.mem_append, List.mem_flatMap, List.mem_map,
      List.mem_replicate, List.mem_cons, List.not_mem_nil, or_false] at hrole
    grind
  have hfollows : Follows (tableRoles records) (SSTableWriter.write sstable_id level records)
      (fun ok _ => ok = true) (fun ok => ok = false) disk := by
    refine follows_operation.succeeds.andThen (fun d _ => ?_) fun _ => rfl
    refine follows_operation.bothThen (fun _ => follows_operation) (fun d => ?_) fun _ => rfl
    refine (follows_writeFields _ _ _ _).succeeds.andThen (fun d _ => ?_) fun _ => rfl
    refine (follows_forEach fun record hrecord _ => follows_writeRecordAndEntry _
      (hwritable record hrecord)).succeeds.andThen (fun d _ => ?_) fun _ => rfl
    refine follows_operation.bothThen (fun _ => follows_operation) (fun d => ?_) fun _ => rfl
    exact follows_operation.succeeds.andThen (fun _ _ => follows_operation) fun _ => rfl
  exact (hfollows.and_quiet hrequired (wp_sstableWrite sstable_id level records disk hwritable)).post
    (fun ok d h => ⟨h.1, h.2.2.2⟩) fun _ h => h

/-- The manifest is saved, and the other files stay. -/
theorem follows_save (data : ManifestData) :
    Follows manifestRoles (Manifest.save data)
      (fun ok d => ok = true ∧ d.files = disk.files ∧ d.metas = disk.metas) (fun ok => ok = false)
      disk := by
  have hfollows : Follows manifestRoles (Manifest.save data) (fun ok _ => ok = true)
      (fun ok => ok = false) disk := by
    refine follows_operation.succeeds.andThen (fun d _ => ?_) fun _ => rfl
    refine follows_operation.succeeds.andThen (fun d _ => ?_) fun _ => rfl
    refine follows_operation.succeeds.andThen (fun d _ => follows_retry) fun _ => rfl
  have hkeeps : (Manifest.save data).wp Faulty (fun _ _ => True)
      (fun _ d => d.files = disk.files ∧ d.metas = disk.metas) disk := by
    simp [Manifest.save, wp_attempt, probe, Manifest.rename]
  exact hfollows.and_faulty hkeeps

theorem follows_open (base : String) :
    Follows [.required] (SSTableReader.open base)
      (fun out d => out = SSTableReader.openFiles disk base ∧ d = disk) (fun out => out = none) disk := by
  refine follows_look ?_
  have hprobe : Follows [.required] (probe : Prog Disk Bool) (fun ok t => ok = true ∧ t = disk)
      (fun ok => ok = false) disk := follows_attempt
  refine hprobe.bindLast (fun ok t hok => ?_) fun ok t hok => ?_
  · rw [if_pos hok.1]
    exact follows_pure ⟨rfl, hok.2⟩
  · rw [if_neg (by simp [hok])]
    rfl

/-- The entries are read whatever their sequence ids and offsets are. -/
theorem readIndexEntries_isSome {offset : ℕ} (index : AList fun _ : NodeId => IndexEntry) :
    (readIndexEntries records.length (entriesBytes offset records) index).isSome = true := by
  induction records generalizing offset index with
  | nil => rfl
  | cons record records ih =>
    have hread := Codec.readFields_putFields_mod (indexEntryFields record offset)
      (entriesBytes (offset + (sstableCodec.encode record).length) records)
    have hnode : record.node_id.toNat % 256 ^ 8 ≤ maxUInt32 := by
      have hlt := record.node_id.toNat_lt
      rw [Nat.mod_eq_of_lt (by omega), maxUInt32]
      omega
    rw [List.length_cons, entriesBytes, readIndexEntries]
    simp only [indexEntryFields, List.map_cons, List.map_nil] at hread ⊢
    rw [hread]
    simp only [hnode, if_true]
    exact ih _

/-- A table opens exactly when its meta file is accepted, whatever its records are. -/
theorem openFiles_isSome
    (h : TableFiles disk base records (tableMeta sstable_id level records)) :
    (SSTableReader.openFiles disk base).isSome =
      metaLoadable (tableMeta sstable_id level records) := by
  have hindex : disk.read (.index base) = some (indexBytes records) := by
    rw [Disk.read, h.index]
    rfl
  rw [SSTableReader.openFiles, h.value]
  cases hload : metaLoadable (tableMeta sstable_id level records) with
  | false => simp [hload]
  | true =>
    have hcount : records.length < 256 ^ 8 :=
      lt_trans (metaLoadable_iff.mp hload).2.2.1 (by decide)
    have hread := Codec.readFields_putFields_mod (indexHeaderFields records.length)
      (entriesBytes 0 records)
    simp only [indexHeaderFields, List.map_cons, List.map_nil, Nat.mod_eq_of_lt hcount] at hread
    have hall : (readIndexEntries records.length (entriesBytes 0 records) ∅).isSome = true :=
      readIndexEntries_isSome ∅
    obtain ⟨index, hentries⟩ := Option.isSome_iff_exists.mp hall
    have hloaded : readIndex records.length (indexBytes records) = some index := by
      rw [readIndex, indexBytes]
      simp only [indexHeaderFields, hread]
      simpa [kSSTableIndexMagic, kSSTableVersion] using hentries
    have hstored : (tableMeta sstable_id level records).record_count = records.length := rfl
    simp [hload, hindex, hstored, hloaded, h.data]

end Disk

section Manager

theorem follows_onDisk {α : Type} {roles : List Role} {m : Prog Disk α} {Q : α → World → Prop}
    {B : α → Prop} (h : Follows roles m (fun a d => Q a ⟨d, world.manager⟩) B world.disk) :
    Follows roles (onDisk m) Q B world :=
  follows_zoom (fun _ _ => rfl) (fun _ _ _ => rfl) (fun _ => rfl) h

theorem follows_assign {α : Type} {roles : List Role} {f : Manager → Manager}
    {next : Unit → Prog World α} {Q : α → World → Prop} {B : α → Prop}
    (h : Follows roles (next ()) Q B ⟨world.disk, f world.manager⟩) :
    Follows roles (assign f >>= next) Q B world :=
  follows_step h

/-- The log takes a record. -/
theorem follows_walAppend {writer : WalWriter} (hgood : (writer.closed || !writer.good) = false)
    (hwritable : writable record = true) :
    Follows (logRoles record) (writer.append record)
      (fun out _ => out = (true, { good := true })) (fun out => out.1 = false) disk := by
  obtain ⟨good, closed⟩ := writer
  obtain ⟨rfl, rfl⟩ : good = true ∧ closed = false := by simpa [and_comm] using hgood
  rw [WalWriter.append, if_neg (by simp), if_pos hwritable]
  refine (follows_writes .wal _).bindLast (fun ok t hok => follows_pure ?_) fun ok t hok => hok
  rw [hok]

theorem follows_publish {α : Type} {roles : List Role} {next : Unit → Prog World α}
    {Q : α → World → Prop} {B : α → Prop}
    (h : Follows roles (next ()) Q B { world with manager := { world.manager with
      read_view := some (currentView world.manager)
      latest_sequence := publishedSequence world.manager.manifest } }) :
    Follows roles (publishReadViewLocked >>= next) Q B world := by
  have hpublish : Follows [] publishReadViewLocked
      (fun _ v => v = { world with manager := { world.manager with
        read_view := some (currentView world.manager)
        latest_sequence := publishedSequence world.manager.manifest } }) (fun _ => False) world :=
    follows_look (follows_assign (follows_lastStep.post (fun _ _ h => h) fun _ h => h))
  show Follows ([] ++ roles) _ _ _ _
  exact hpublish.bind (fun _ v hv => hv ▸ h) fun _ _ hbad => hbad.elim

/-- A record that the log takes and the memtable accepts. -/
theorem follows_recordLocked {memtable : MemTable}
    (hlog : config.options.enable_wal = true → canLog world.manager record = true)
    (hinsert : world.manager.memtable.insert record = some memtable) :
    Follows (if config.options.enable_wal then logRoles record else []) (recordLocked config record)
      (fun ok v => ok = true ∧ v.manager.memtable = memtable ∧
        v.manager.manifest.next_sstable_id = world.manager.manifest.next_sstable_id ∧
        (config.options.enable_wal = true → v.manager.wal_writer = some { good := true }))
      (fun ok => ok = false) world := by
  have hpublish : ∀ (writer : Option WalWriter) (v : World),
      v.manager = { world.manager with wal_writer := writer } →
      (config.options.enable_wal = true → writer = some { good := true }) →
      Follows [] (do
        assign fun manager =>
          { manager with
            memtable := memtable
            recent_records := manager.recent_records ++ [record]
            manifest := { manager.manifest with
              next_sequence_id := (manager.manifest.next_sequence_id + 1) % 2 ^ 64 } }
        publishReadViewLocked
        return true)
      (fun ok v => ok = true ∧ v.manager.memtable = memtable ∧
        v.manager.manifest.next_sstable_id = world.manager.manifest.next_sstable_id ∧
        (config.options.enable_wal = true → v.manager.wal_writer = some { good := true }))
      (fun ok => ok = false) v := by
    intro writer v hmanager hwriter
    refine follows_assign (follows_publish (follows_pure ⟨rfl, ?_⟩))
    rw [hmanager]
    exact ⟨rfl, rfl, hwriter⟩
  rw [recordLocked]
  refine follows_look ?_
  simp only [hinsert]
  cases hwal : config.options.enable_wal with
  | false =>
    rw [hwal] at hpublish
    exact hpublish world.manager.wal_writer world rfl fun h => by cases h
  | true =>
    have hcan := hlog hwal
    rw [canLog] at hcan
    rw [hwal] at hpublish
    cases hwriter : world.manager.wal_writer with
    | none =>
      rw [hwriter] at hcan
      cases hcan
    | some writer =>
      simp only [hwriter, Bool.and_eq_true, Bool.not_eq_true'] at hcan
      have happend : Follows (logRoles record) (onDisk (writer.append record))
          (fun out v => out = (true, { good := true }) ∧ v.manager = world.manager)
          (fun out => out.1 = false) world :=
        follows_onDisk ((follows_walAppend hcan.1 hcan.2).post (fun _ _ h => ⟨h, rfl⟩) fun _ h => h)
      refine happend.bindLast (fun out v hv => ?_) fun out v hv => ?_
      · obtain ⟨rfl, hmanager⟩ := hv
        refine follows_assign (hpublish (some { good := true }) _ ?_ fun _ => rfl)
        rw [hmanager]
      · obtain ⟨ok, writer⟩ := out
        cases hv
        exact ⟨trivial, rfl⟩

/-- A record that the log or the memtable refuses. -/
theorem recordLocked_refused
    (h : (config.options.enable_wal = true ∧ canLog world.manager record = false) ∨
      world.manager.memtable.insert record = none) :
    (recordLocked config record).wp Faulty (fun _ _ => True) (fun ok _ => ok = false) world := by
  rw [recordLocked, Prog.wp_bind, Prog.wp_look]
  dsimp only
  cases hinsert : world.manager.memtable.insert record with
  | none =>
    split
    · cases world.manager.wal_writer with
      | none => rfl
      | some writer =>
        dsimp only
        rw [Prog.wp_bind, wp_onDisk]
        refine Prog.wp_post (Prog.wp_trivial _ fun _ _ => trivial) fun out d _ => ?_
        exact ⟨trivial, Prog.wp_ite (fun _ => rfl) fun _ => rfl⟩
    · rfl
  | some memtable =>
    obtain ⟨hwal, hcan⟩ := h.resolve_right (by simp [hinsert])
    rw [canLog] at hcan
    rw [if_pos hwal]
    cases hwriter : world.manager.wal_writer with
    | none => rfl
    | some writer =>
      rw [hwriter] at hcan
      dsimp only
      rw [Prog.wp_bind, wp_onDisk]
      have happend : (writer.append record).wp Faulty (fun _ _ => True)
          (fun out _ => out.1 = false) world.disk := by
        rw [WalWriter.append]
        split
        · rfl
        · next hgood =>
          rw [if_neg (by simpa [hgood] using hcan)]
          rfl
      refine Prog.wp_post happend fun out d hout => ?_
      -- the memtable is not reached
      exact ⟨trivial, Prog.wp_ite (fun hlogged => by simp [hout] at hlogged) fun _ => rfl⟩

/-- The old log of a manager is replaced. -/
theorem follows_rotateWalLocked
    (hwriter : config.options.enable_wal = true → world.manager.wal_writer = some { good := true }) :
    Follows (if config.options.enable_wal then rotateRoles else []) (rotateWalLocked config)
      (fun ok _ => ok = true) (fun ok => ok = false) world := by
  rw [rotateWalLocked]
  cases hwal : config.options.enable_wal with
  | false => exact follows_pure rfl
  | true =>
    rw [if_pos rfl, if_pos rfl]
    refine follows_look ?_
    rw [hwriter hwal]
    have hsync : ∀ (d : Disk) (writer : WalWriter), (writer.closed || !writer.good) = false →
        Follows [.required] writer.sync (fun out _ => out.1 = true) (fun out => out.1 = false) d := by
      intro d writer hgood
      rw [WalWriter.sync, if_neg (by simp [hgood])]
      exact follows_operation.bindLast (fun ok _ hok => follows_pure hok) fun ok _ hok => hok
    have hclose : ∀ v : World, Follows [.required] (onDisk (WalWriter.close { good := true }))
        (fun out _ => out.1 = true) (fun out => out.1 = false) v := fun v =>
      follows_onDisk ((hsync v.disk { good := true } rfl).bindLast (fun out _ hout => follows_pure hout)
        fun out _ hout => hout)
    have hremove : ∀ v : World, Follows [.ignored] (onDisk (removeFile .wal)) (fun _ _ => True)
        (fun _ => False) v := fun v => follows_onDisk follows_ignored
    have hnew : ∀ v : World, Follows [.required] (onDisk WalWriter.new)
        (fun writer _ => writer = { good := true }) (fun writer => writer = { good := false }) v :=
      fun v => follows_onDisk (follows_operation.bindLast (fun ok _ hok => follows_pure (by rw [hok]))
        fun ok _ hok => by rw [hok]; rfl)
    refine (hclose world).bind (fun out v hout => ?_) fun out v hout => ?_
    · obtain ⟨ok, writer⟩ := out
      cases hout
      refine follows_assign (follows_next (follows_assign ((hremove _).bind (fun _ u _ => ?_)
        fun _ _ h => h.elim)))
      refine (hnew u).bind (fun writer t hwriter => ?_) fun writer t hwriter => ?_
      · rw [hwriter]
        exact (follows_onDisk (hsync t.disk { good := true } rfl)).bindLast
          (fun out _ hout => follows_assign (follows_pure hout)) fun out _ hout => ⟨trivial, hout⟩
      · rw [hwriter, Prog.wp_bind]
        exact ⟨trivial, rfl⟩
    · obtain ⟨ok, writer⟩ := out
      cases hout
      exact ⟨trivial, rfl⟩

/-- The flush of records that can all be written succeeds when the meta file is accepted. -/
theorem follows_flush (hsnapshot : world.manager.memtable.snapshot.isEmpty = false)
    (hwritable : ∀ record ∈ deduplicateNewest world.manager.memtable.snapshot,
      writable record = true)
    (hwriter : config.options.enable_wal = true → world.manager.wal_writer = some { good := true }) :
    let loadable := metaLoadable (tableMeta world.manager.manifest.next_sstable_id 0
      (deduplicateNewest world.manager.memtable.snapshot))
    Follows (tableRoles world.manager.memtable.snapshot ++ (manifestRoles ++ ([.required] ++
        if loadable then if config.options.enable_wal then rotateRoles else [] else [])))
      (flushLocked config) (fun ok _ => ok = loadable) (fun ok => ok = false) world := by
  intro loadable
  rw [flushLocked]
  refine follows_look ?_
  rw [if_neg (c := world.manager.memtable.snapshot.isEmpty = true) (by simp [hsnapshot])]
  -- the table is written
  refine (follows_onDisk (Q := fun ok v => ok = true ∧ (TableFiles v.disk
    (basePath world.manager.manifest.next_sstable_id)
    (deduplicateNewest world.manager.memtable.snapshot)
    (tableMeta world.manager.manifest.next_sstable_id 0
      (deduplicateNewest world.manager.memtable.snapshot)) ∧ v.manager = world.manager))
    ((follows_sstableWrite _ 0 hwritable).post (fun _ _ h => ⟨h.1, h.2, rfl⟩)
      fun _ h => h)).andThen (fun v hv => ?_) fun _ => rfl
  obtain ⟨hfiles, hmanager⟩ := hv
  -- the manifest is saved, which leaves the table's files alone
  refine (follows_onDisk (Q := fun ok u => ok = true ∧ (u.disk.files = v.disk.files ∧
    u.disk.metas = v.disk.metas ∧ u.manager = v.manager))
    ((follows_save _).post (fun _ _ h => ⟨h.1, h.2.1, h.2.2, rfl⟩) fun _ h => h)).andThen
    (fun u hu => ?_) fun _ => rfl
  obtain ⟨hdisk, hmetas, hkeeps⟩ := hu
  have hsaved : TableFiles u.disk (basePath world.manager.manifest.next_sstable_id)
      (deduplicateNewest world.manager.memtable.snapshot)
      (tableMeta world.manager.manifest.next_sstable_id 0
        (deduplicateNewest world.manager.memtable.snapshot)) :=
    ⟨hdisk ▸ hfiles.data, hdisk ▸ hfiles.index, hmetas ▸ hfiles.value⟩
  -- the table is opened; a meta file that the reader refuses ends the flush here
  have hopens := openFiles_isSome hsaved
  refine (follows_onDisk (Q := fun out t => out = SSTableReader.openFiles u.disk
    (basePath world.manager.manifest.next_sstable_id) ∧ t.manager = u.manager)
    ((follows_open _).post (fun _ _ h => ⟨h.1, rfl⟩) fun _ h => h)).bind (fun out t ht => ?_) ?_
  · obtain ⟨rfl, hopened⟩ := ht
    cases hreader : SSTableReader.openFiles u.disk
        (basePath world.manager.manifest.next_sstable_id) with
    | none =>
      rw [hreader] at hopens
      have hrefused : loadable = false := hopens.symm
      rw [hrefused]
      exact follows_pure rfl
    | some reader =>
      rw [hreader] at hopens
      have haccepted : loadable = true := hopens.symm
      rw [haccepted]
      refine follows_assign (follows_rotateWalLocked fun hwal => ?_)
      rw [hopened, hkeeps, hmanager]
      exact hwriter hwal
  · rintro _ t rfl
    rfl

/-- Whether a flush of records succeeds depends on them and on what fails. -/
theorem run_flushLocked {r : Run World} (hsnapshot : r.store.manager.memtable.snapshot.isEmpty = false)
    (hwriter : config.options.enable_wal = true →
      r.store.manager.wal_writer = some { good := true }) :
    ((flushLocked config).run r).1 =
      (tableStorable r.store.manager.manifest.next_sstable_id r.store.manager.memtable.snapshot &&
        (Role.survive (flushRoles config.options.enable_wal r.store.manager.memtable.snapshot)
          r.faults).isSome) := by
  by_cases hwritable : ∀ record ∈ deduplicateNewest r.store.manager.memtable.snapshot,
      writable record = true
  · have hstorable : tableStorable r.store.manager.manifest.next_sstable_id
        r.store.manager.memtable.snapshot =
        metaLoadable (tableMeta r.store.manager.manifest.next_sstable_id 0
          (deduplicateNewest r.store.manager.memtable.snapshot)) := by
      rw [tableStorable, List.all_eq_true.mpr hwritable, Bool.true_and]
    rw [Follows.run_eq (follows_flush hsnapshot hwritable hwriter), hstorable, flushRoles]
    -- the operations behind the opening of the table only matter when it opens
    cases metaLoadable (tableMeta r.store.manager.manifest.next_sstable_id 0
        (deduplicateNewest r.store.manager.memtable.snapshot)) with
    | false => rfl
    | true => rfl
  · have hrefused : ∃ record ∈ deduplicateNewest r.store.manager.memtable.snapshot,
        writable record = false := by simpa using hwritable
    have hall : (deduplicateNewest r.store.manager.memtable.snapshot).all writable = false := by
      simpa using hrefused
    have hwp : (flushLocked config).wp Faulty (fun _ _ => True) (fun ok _ => ok = false) r.store := by
      rw [flushLocked, wp_bind, wp_look, if_neg (by simp [hsnapshot]), wp_bind, wp_onDisk]
      refine wp_post (wp_sstableWrite_refused hrefused) ?_
      rintro _ d rfl
      rfl
    rw [tableStorable, hall, Bool.false_and, Bool.false_and]
    exact follows_refused hwp r rfl

end Manager

end Dynamic
