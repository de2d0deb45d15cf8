import AgentAware.Dynamic.CompactionLoss

/-!
# What the writers accept and the readers reject

Both writers check that a record's dimension is that of its vector and that its counts fit their
fields. The readers also bound the payload, and read the integers of a `.meta` file as
`std::int64_t`. So a log is read back whole exactly when its payloads are within the readers'
bound, and a table exactly when, in addition, its id and sequence ids are below `2 ^ 63`.

## Main definitions

- `writeLog`, `LogRoundTrip` — a log that was written is read back
- `TableRoundTrip` — a table that was written opens and has the newest records

## Main results

- `accepted_readable_iff` — when the claims of both hold
-/

namespace Dynamic

/-- Append records one by one, until the writer refuses one. -/
def appendRecords : WalWriter → List DynamicRecord → Prog Disk (Bool × WalWriter)
  | writer, [] => pure (true, writer)
  | writer, record :: records => do
    let (ok, writer) ← writer.append record
    if ok then appendRecords writer records
    else return (false, writer)

/-- Write a log and close it. -/
def writeLog (records : List DynamicRecord) : Prog Disk Bool := do
  let writer ← WalWriter.new
  let (ok, writer) ← appendRecords writer records
  if ok then
    let (closed, _) ← writer.close
    return closed
  else return false

/-- If every append returns true, the complete log is read back whole. -/
def LogRoundTrip (disk : Disk) (records : List DynamicRecord) : Prop :=
  ((writeLog records).exec disk []).1 = true →
    (replay.exec ((writeLog records).exec disk []).2.store []).1 = records

/-- If the writer returns true, the table opens, and has the newest record of every node. -/
def TableRoundTrip (disk : Disk) (sstable_id : ℕ) (level : ℤ) (records : List DynamicRecord) :
    Prop :=
  let written := (SSTableWriter.write sstable_id level records).exec disk []
  written.1 = true →
    ∃ reader, ((SSTableReader.open (basePath sstable_id)).exec written.2.store []).1 = some reader ∧
      ∀ record ∈ records, ((reader.get record.node_id).exec written.2.store []).1 =
        newestOf records record.node_id

section Log

variable {disk : Disk} {records : List DynamicRecord}

/-- Without I/O errors the writer takes exactly the records it can write. -/
theorem wp_appendRecords {file : File} (hfile : disk.files .wal = some file) :
    (appendRecords { good := true } records).wp Prog.Quiet (fun _ _ => True)
      (fun out d => out = (records.all writable, { good := true }) ∧
        (records.all writable = true →
          d = disk.modifyFile .wal fun file => file.append (walCodec.encodeAll records))) disk := by
  induction records generalizing disk file with
  | nil =>
    refine ⟨rfl, fun _ => ?_⟩
    exact (modifyFile_eq_self hfile (File.append_nil file)).symm
  | cons record records ih =>
    rw [appendRecords, Prog.wp_bind]
    cases hwritable : writable record with
    | false =>
      rw [walAppend_of_not_writable hwritable]
      exact ⟨by simp [hwritable], by simp [hwritable]⟩
    | true =>
      refine Prog.wp_mono (wp_walAppend hwritable hfile) ?_ fun _ _ _ => trivial
      rintro _ d ⟨rfl, rfl⟩
      simp only [if_true]
      refine Prog.wp_post (ih (modifyFile_files_self _ _ _)) ?_
      rintro _ d ⟨rfl, hd⟩
      refine ⟨by simp [hwritable], fun hall => ?_⟩
      rw [hd (by simpa [hwritable] using hall), modifyFile_modifyFile]
      congr 1
      funext file
      simp [File.append_append]

/-- The log holds the encodings of the records, and nothing is left in the stream. -/
theorem wp_writeLog (hempty : walBytes disk = []) :
    (writeLog records).wp Prog.Quiet (fun _ _ => True)
      (fun ok d => ok = records.all writable ∧
        (ok = true → d.read .wal = some (walCodec.encodeAll records))) disk := by
  rw [writeLog, Prog.wp_bind, wp_walNew, Prog.wp_bind]
  refine ⟨trivial, Prog.wp_post (wp_appendRecords (modifyFile_files_self _ _ _)) ?_⟩
  rintro ⟨ok, writer⟩ d ⟨hout, hd⟩
  obtain ⟨rfl, rfl⟩ := Prod.mk.inj hout
  refine Prog.wp_ite (fun hall => ?_) fun hall => ⟨by simpa using hall, by simp⟩
  rw [Prog.wp_bind, wp_walClose]
  refine ⟨trivial, hall.symm, fun _ => ?_⟩
  have hcontents : ((disk.files .wal).getD {}).contents = [] := by
    rw [walBytes] at hempty
    cases hfile : disk.files .wal <;> simp_all [File.contents]
  rw [hd hall, Disk.read, modifyFile_files_self, modifyFile_files_self, modifyFile_files_self]
  simp [File.flush, hcontents]

/-- A log is read back whole unless it holds a record that is too large for the reader. -/
theorem logRoundTrip_iff (hempty : walBytes disk = [])
    (hsequence : ∀ record ∈ records, record.sequence_id < 2 ^ 64) :
    LogRoundTrip disk records ↔
      (∃ record ∈ records, writable record = false) ∨
        ∀ record ∈ records, record.payloadBytes ≤ kMaxPayloadBytes := by
  have hwp : (writeLog records).wp _ _ _ disk := wp_writeLog hempty
  obtain ⟨⟨hok, hread⟩, -⟩ := Prog.wp_exec hwp
  rw [LogRoundTrip]
  generalize (writeLog records).exec disk [] = written at hok hread ⊢
  cases hall : records.all writable with
  | false =>
    refine iff_of_true (fun hwritten => ?_) (.inl (by simpa using hall))
    rw [hok, hall] at hwritten
    cases hwritten
  | true =>
    rw [hall] at hok
    have hnone : ¬∃ record ∈ records, writable record = false := by simpa using hall
    have hreplay : (replay.exec written.2.store []).1 = logRecords written.2.store :=
      (Prog.wp_exec (R := fun _ _ => True) (Q := fun out _ => out = logRecords written.2.store)
        (wp_replay.mpr ⟨trivial, rfl⟩)).1
    simp only [hok, hreplay, logRecords, hread hok, forall_const, hnone, false_or, replayBytes]
    constructor
    · intro hback record hrecord
      rw [← hback] at hrecord
      exact (walCodec.valid_of_mem_decodeAll hrecord).payload
    · intro hpayload
      refine walCodec.decodeAll_encodeAll fun record hrecord => ?_
      have hwritable := List.all_eq_true.mp hall record hrecord
      simp only [writable, Bool.and_eq_true, beq_iff_eq] at hwritable
      exact ⟨hwritable.1.1, hpayload record hrecord, hsequence record hrecord⟩

end Log

section Table

variable {disk : Disk} {records : List DynamicRecord} {sstable_id : ℕ} {level : ℤ}

/-- What the readers of tables require of the newest records. -/
def TableReadable (sstable_id : ℕ) (records : List DynamicRecord) : Prop :=
  sstable_id < 2 ^ 63 ∧ ∀ record ∈ deduplicateNewest records,
    record.sequence_id < 2 ^ 63 ∧ record.payloadBytes ≤ kMaxPayloadBytes

/-- The loop over the records stops at the first one that cannot be written. -/
theorem wp_writeRecordAndEntries_refused {F : Outcome → Prop} {base : String}
    {latest : List DynamicRecord} (h : ∃ record ∈ latest, writable record = false) :
    (Prog.forEach (writeRecordAndEntry base) latest).wp F (fun _ _ => True)
      (fun ok _ => ok = false) disk := by
  induction latest generalizing disk with
  | nil => simp at h
  | cons record latest ih =>
    rw [Prog.forEach, Prog.wp_bind]
    cases hwritable : writable record with
    | false =>
      rw [writeRecordAndEntry, Prog.wp_bind, Prog.wp_look, writeRecord, if_neg (by simp [hwritable])]
      rfl
    | true =>
      refine Prog.wp_post (Prog.wp_trivial _ fun _ _ => trivial) fun ok d _ => ?_
      refine Prog.wp_ite (fun _ => ih ?_) fun _ => rfl
      simpa [hwritable] using h

/-- A table with a record that cannot be written is not written, whatever fails. -/
theorem wp_sstableWrite_refused {F : Outcome → Prop}
    (h : ∃ record ∈ deduplicateNewest records, writable record = false) :
    (SSTableWriter.write sstable_id level records).wp F (fun _ _ => True)
      (fun ok _ => ok = false) disk := by
  rw [SSTableWriter.write, Prog.wp_bind]
  refine Prog.wp_post (Prog.wp_trivial _ fun _ _ => trivial) fun ok d _ => ?_
  refine Prog.wp_ite (fun _ => ?_) fun _ => rfl
  rw [Prog.wp_bind]
  refine Prog.wp_post (Prog.wp_trivial _ fun _ _ => trivial) fun data_output d _ => ?_
  rw [Prog.wp_bind]
  refine Prog.wp_post (Prog.wp_trivial _ fun _ _ => trivial) fun index_output d _ => ?_
  refine Prog.wp_ite (fun _ => ?_) fun _ => rfl
  rw [Prog.wp_bind]
  refine Prog.wp_post (Prog.wp_trivial _ fun _ _ => trivial) fun ok d _ => ?_
  refine Prog.wp_ite (fun _ => ?_) fun _ => rfl
  rw [Prog.wp_bind]
  refine Prog.wp_post (wp_writeRecordAndEntries_refused h) ?_
  rintro _ d' rfl
  rfl

theorem newestOf_eq_some_of_mem {record : DynamicRecord} (h : record ∈ records) :
    ∃ newest ∈ deduplicateNewest records, newest.node_id = record.node_id ∧
      newestOf records record.node_id = some newest := by
  obtain ⟨newest, hnewest⟩ : ∃ newest, newestOf records record.node_id = some newest :=
    Versions.exists_newest h
  have hnode := (Versions.mem_of_newest hnewest).2
  exact ⟨newest, mem_deduplicateNewest.mpr (hnode ▸ hnewest), hnode, hnewest⟩

/-- A table is read back unless it holds a record that is too large for the readers, or a number
that its meta file is not read with. -/
theorem tableRoundTrip_iff (hlevel : -2 ^ 31 ≤ level ∧ level < 2 ^ 31) :
    TableRoundTrip disk sstable_id level records ↔
      (∃ record ∈ deduplicateNewest records, writable record = false) ∨
        TableReadable sstable_id records := by
  by_cases hrefused : ∃ record ∈ deduplicateNewest records, writable record = false
  · have hwp : (SSTableWriter.write sstable_id level records).wp _ _ _ disk :=
      wp_sstableWrite_refused (F := Prog.Quiet) hrefused
    have hok := (Prog.wp_exec hwp).1
    refine iff_of_true (fun hwritten => ?_) (.inl hrefused)
    rw [hok] at hwritten
    cases hwritten
  · have hwritable : ∀ record ∈ deduplicateNewest records, writable record = true := by
      intro record hrecord
      by_contra hnot
      exact hrefused ⟨record, hrecord, by simpa using hnot⟩
    obtain ⟨⟨hok, _, hfiles⟩, -⟩ :=
      Prog.wp_exec (wp_sstableWrite sstable_id level records disk hwritable)
    rw [TableRoundTrip]
    generalize (SSTableWriter.write sstable_id level records).exec disk [] = written at hok hfiles ⊢
    have hopen : ((SSTableReader.open (basePath sstable_id)).exec written.2.store []).1 =
        SSTableReader.openFiles written.2.store (basePath sstable_id) :=
      (Prog.wp_exec (R := fun _ _ => True)
        (Q := fun out _ => out = SSTableReader.openFiles written.2.store (basePath sstable_id))
        (wp_open trivial rfl)).1
    have hget : ∀ (reader : SSTableReader) (node_id : NodeId),
        ((reader.get node_id).exec written.2.store []).1 = reader.find written.2.store node_id :=
      fun _ _ => rfl
    simp only [hok, hopen, hget, forall_const, hrefused, false_or]
    constructor
    · rintro ⟨reader, hreader, hfind⟩
      have hload : metaLoadable (tableMeta sstable_id level (deduplicateNewest records)) = true := by
        by_contra hnot
        rw [SSTableReader.openFiles, hfiles.value] at hreader
        simp [hnot] at hreader
      obtain ⟨_, hid, _, _, hmax, _⟩ := metaLoadable_iff.mp hload
      refine ⟨hid, fun record hrecord => ⟨lt_of_le_of_lt (le_maxSequenceId hrecord) hmax, ?_⟩⟩
      have hnewest := mem_deduplicateNewest.mp hrecord
      have hfound := hfind record ((deduplicateNewest_covers records).1 record hrecord)
      rw [hnewest] at hfound
      exact (valid_of_find hfound).payload
    · rintro ⟨hid, hreadable⟩
      have hvalid : ∀ record ∈ deduplicateNewest records, record.Valid := by
        intro record hrecord
        have hdim := hwritable record hrecord
        simp only [writable, Bool.and_eq_true, beq_iff_eq] at hdim
        obtain ⟨hsequence, hpayload⟩ := hreadable record hrecord
        exact ⟨hdim.1.1, hpayload, lt_trans hsequence (by decide)⟩
      have hsorted := deduplicateNewest_sorted records
      have hload := metaLoadable_tableMeta hid hlevel hsorted fun r hr => (hreadable r hr).1
      refine ⟨_, by rw [openFiles_of_tableFiles hfiles rfl hvalid hsorted, if_pos hload], ?_⟩
      intro record hrecord
      obtain ⟨newest, hmem, hnode, hnewest⟩ := newestOf_eq_some_of_mem hrecord
      rw [hnewest, ← hnode]
      rw [← scan_of_tableFiles hfiles hvalid hsorted] at hmem
      exact mem_scan.mp hmem

end Table

/-- What the writers of logs and tables accept is read back if and only if it is within the bounds
of the readers: the records of the log have payloads up to 512 MiB, and so have the newest records
of the table, whose sequence ids and own id are below `2 ^ 63`. Sequence ids are `std::uint64_t`
and levels `int`. -/
theorem accepted_readable_iff {disk : Disk} {logged records : List DynamicRecord} {sstable_id : ℕ}
    {level : ℤ} (hempty : walBytes disk = [])
    (hsequence : ∀ record ∈ logged, record.sequence_id < 2 ^ 64)
    (hlevel : -2 ^ 31 ≤ level ∧ level < 2 ^ 31) :
    (LogRoundTrip disk logged ↔
      (∃ record ∈ logged, writable record = false) ∨
        ∀ record ∈ logged, record.payloadBytes ≤ kMaxPayloadBytes) ∧
    (TableRoundTrip disk sstable_id level records ↔
      (∃ record ∈ deduplicateNewest records, writable record = false) ∨
        TableReadable sstable_id records) :=
  ⟨logRoundTrip_iff hempty hsequence, tableRoundTrip_iff hlevel⟩

/-- A node that is inserted and erased, and another one. -/
theorem accepted_readable_erase :
    let records : List DynamicRecord :=
      [{ sequence_id := 1, node_id := 7, dim := 2, vector := [3, 4], neighbors := [9] },
       { sequence_id := 2, node_id := 9, dim := 1, vector := [5] },
       { sequence_id := 3, node_id := 7, deleted := true }]
    LogRoundTrip {} records ∧ TableRoundTrip {} 1 0 records := by
  intro records
  have hiff := @accepted_readable_iff {} records records 1 0 rfl (by decide) (by decide)
  exact ⟨hiff.1.mpr (.inr (by decide)), hiff.2.mpr (.inr ⟨by decide, by decide⟩)⟩

/-- A table with the sequence id `2 ^ 63` is written but does not open. -/
theorem accepted_unreadable :
    let record : DynamicRecord := { sequence_id := 2 ^ 63, node_id := 7, deleted := true }
    ((SSTableWriter.write 1 0 [record]).exec {} []).1 = true ∧
      ¬TableRoundTrip {} 1 0 [record] := by
  intro record
  have hwritten : ((SSTableWriter.write 1 0 [record]).exec {} []).1 = true := by decide +kernel
  refine ⟨hwritten, fun hround => ?_⟩
  obtain ⟨reader, hreader, -⟩ := hround hwritten
  have hnone : ((SSTableReader.open (basePath 1)).exec
      ((SSTableWriter.write 1 0 [record]).exec {} []).2.store []).1.isNone = true := by
    decide +kernel
  rw [hreader] at hnone
  cases hnone

end Dynamic
