import AgentAware.Dynamic.Acceptance

/-!
# What a table holds

A table that is written from a list of records, in any order and with repeated nodes, and opened
again: what `scan_all`, `get` and the counts of the reader say.

## Main definitions

- `SSTableReader.Holds` — a reader holds the newest record of every node of a list

## Main results

- `sstableWrite_open` — the writer succeeds, the table opens, and the reader holds the list
-/

namespace Dynamic

/-- The record of its node in a list: the first of those with the largest sequence id. -/
abbrev NewestIn (records : List DynamicRecord) (record : DynamicRecord) : Prop :=
  Versions.Wins DynamicRecord.node_id DynamicRecord.sequence_id records record

/-- A reader holds the newest record of every node of a list, and no other. -/
structure SSTableReader.Holds (disk : Disk) (reader : SSTableReader)
    (records : List DynamicRecord) : Prop where
  mem_scanAll : ∀ record,
    record ∈ (reader.scanAll.exec disk []).1 ↔ NewestIn records record
  scanAll_sorted : ((reader.scanAll.exec disk []).1).Pairwise fun a b => a.node_id < b.node_id
  node_scanAll : ∀ record ∈ records,
    ∃ newest ∈ (reader.scanAll.exec disk []).1, newest.node_id = record.node_id
  get_eq_some : ∀ node_id record, ((reader.get node_id).exec disk []).1 = some record ↔
    record.node_id = node_id ∧ NewestIn records record
  get_eq_none : ∀ node_id, ((reader.get node_id).exec disk []).1 = none ↔
    ∀ record ∈ records, record.node_id ≠ node_id
  record_count : reader.record_count = ((reader.scanAll.exec disk []).1).length
  le_max_sequence_id : ∀ record ∈ records, record.sequence_id ≤ reader.max_sequence_id
  max_sequence_id : records ≠ [] →
    ∃ record ∈ (reader.scanAll.exec disk []).1, record.sequence_id = reader.max_sequence_id

section Contents

variable {disk : Disk} {base : String} {records : List DynamicRecord} {value : SSTableMeta}

theorem exec_scanAll (disk : Disk) (reader : SSTableReader) :
    (reader.scanAll.exec disk []).1 = reader.scan disk :=
  (Prog.wp_exec (R := fun _ _ => True) (Q := fun out _ => out = reader.scan disk)
    (wp_scanAll trivial rfl)).1

theorem exec_get (disk : Disk) (reader : SSTableReader) (node_id : NodeId) :
    ((reader.get node_id).exec disk []).1 = reader.find disk node_id := rfl

/-- The largest sequence id is that of a record. -/
theorem exists_maxSequenceId (h : records ≠ []) :
    ∃ record ∈ records, record.sequence_id = maxSequenceId records := by
  have hfold : ∀ (rest : List DynamicRecord) (first : DynamicRecord),
      ∃ record ∈ first :: rest, record.sequence_id =
        rest.foldl (fun m r => max m r.sequence_id) first.sequence_id := by
    intro rest
    induction rest using List.reverseRecOn with
    | nil => exact fun first => ⟨first, List.mem_cons_self, rfl⟩
    | append_singleton rest last ih =>
      intro first
      obtain ⟨record, hrecord, hmax⟩ := ih first
      rw [List.foldl_append, ← hmax, List.foldl_cons, List.foldl_nil]
      rcases le_total record.sequence_id last.sequence_id with hle | hle
      · exact ⟨last, by simp, (max_eq_right hle).symm⟩
      · refine ⟨record, ?_, (max_eq_left hle).symm⟩
        rw [← List.cons_append]
        exact List.mem_append_left _ hrecord
  cases records with
  | nil => exact absurd rfl h
  | cons first rest => exact hfold rest first

/-- What the reader of a table finds for a node. -/
theorem find_eq_newestOf (h : TableFiles disk base (deduplicateNewest records) value)
    (hvalid : ∀ record ∈ deduplicateNewest records, record.Valid) (node_id : NodeId) :
    (readerOf base (deduplicateNewest records) value).find disk node_id =
      newestOf records node_id := by
  have hscan := scan_of_tableFiles h hvalid (deduplicateNewest_sorted records)
  have hfind : ∀ record,
      (readerOf base (deduplicateNewest records) value).find disk node_id = some record ↔
        newestOf records node_id = some record := by
    intro record
    constructor
    · intro hrecord
      obtain rfl := node_id_of_find hrecord
      rw [← mem_deduplicateNewest, ← hscan]
      exact mem_scan.mpr hrecord
    · intro hnewest
      obtain rfl := (Versions.mem_of_newest hnewest).2
      rw [← mem_scan, hscan]
      exact mem_deduplicateNewest.mpr hnewest
  exact Option.ext hfind

theorem mem_deduplicateNewest_iff {record : DynamicRecord} :
    record ∈ deduplicateNewest records ↔ NewestIn records record := by
  rw [mem_deduplicateNewest, Versions.newest_eq_some_iff_wins]
  exact and_iff_right rfl

/-- The reader of a table that was written from a list. -/
theorem readerOf_holds {sstable_id : ℕ} {level : ℤ}
    (h : TableFiles disk base (deduplicateNewest records)
      (tableMeta sstable_id level (deduplicateNewest records)))
    (hvalid : ∀ record ∈ deduplicateNewest records, record.Valid) :
    (readerOf base (deduplicateNewest records)
      (tableMeta sstable_id level (deduplicateNewest records))).Holds disk records := by
  have hscan := scan_of_tableFiles h hvalid (deduplicateNewest_sorted records)
  have hcovers := deduplicateNewest_covers records
  constructor
  · intro record
    rw [exec_scanAll, hscan, mem_deduplicateNewest_iff]
  · rw [exec_scanAll, hscan]
    exact deduplicateNewest_sorted records
  · intro record hrecord
    obtain ⟨newest, hmem, hnode, -⟩ := newestOf_eq_some_of_mem hrecord
    rw [exec_scanAll, hscan]
    exact ⟨newest, hmem, hnode⟩
  · intro node_id record
    rw [exec_get, find_eq_newestOf h hvalid, Versions.newest_eq_some_iff_wins]
  · intro node_id
    rw [exec_get, find_eq_newestOf h hvalid, Versions.newest_eq_none_iff]
  · rw [exec_scanAll, hscan]
    rfl
  · intro record hrecord
    obtain ⟨newest, hmem, -, hle⟩ := hcovers.2 record hrecord
    exact hle.trans (le_maxSequenceId hmem)
  · intro hne
    rw [exec_scanAll, hscan]
    refine exists_maxSequenceId fun hnil => hne ?_
    refine List.eq_nil_iff_forall_not_mem.mpr fun record hrecord => ?_
    obtain ⟨newest, hmem, -⟩ := hcovers.2 record hrecord
    rw [hnil] at hmem
    cases hmem

end Contents

/-- A record within the limit can be written. -/
theorem writable_of_payload {record : DynamicRecord} (hdim : record.dim = record.vector.length)
    (hpayload : record.payloadBytes ≤ kMaxPayloadBytes) : writable record = true := by
  rw [DynamicRecord.payloadBytes, wordBytes, kMaxPayloadBytes] at hpayload
  have hvector : record.vector.length ≤ maxUInt32 / wordBytes := by
    rw [maxUInt32, wordBytes]
    omega
  have hneighbors : record.neighbors.length ≤ maxUInt32 := by
    rw [maxUInt32]
    omega
  simp [writable, hdim, hvector, hneighbors]

/-- A table written from any list of records, without errors of the disk, opens, and its reader
holds the newest record of every node. Levels are `int`. -/
theorem sstableWrite_open {disk : Disk} {sstable_id : ℕ} {level : ℤ} {records : List DynamicRecord}
    (hdim : ∀ record ∈ records, record.dim = record.vector.length)
    (hpayload : ∀ record ∈ records, record.payloadBytes ≤ kMaxPayloadBytes)
    (hid : sstable_id < 2 ^ 63) (hsequence : ∀ record ∈ records, record.sequence_id < 2 ^ 63)
    (hlevel : -2 ^ 31 ≤ level ∧ level < 2 ^ 31) :
    let written := (SSTableWriter.write sstable_id level records).exec disk []
    written.1 = true ∧ ∃ reader,
      ((SSTableReader.open (basePath sstable_id)).exec written.2.store []).1 = some reader ∧
        reader.Holds written.2.store records := by
  have hsub := (deduplicateNewest_covers records).1
  have hvalid : ∀ record ∈ deduplicateNewest records, record.Valid := fun record hrecord =>
    ⟨hdim record (hsub record hrecord), hpayload record (hsub record hrecord),
      (hsequence record (hsub record hrecord)).trans (by decide)⟩
  have hwritable : ∀ record ∈ deduplicateNewest records, writable record = true :=
    fun record hrecord => writable_of_payload (hvalid record hrecord).dim
      (hvalid record hrecord).payload
  obtain ⟨⟨hok, -, hfiles⟩, -⟩ :=
    Prog.wp_exec (wp_sstableWrite sstable_id level records disk hwritable)
  intro written
  refine ⟨hok, _, ?_, readerOf_holds hfiles hvalid⟩
  have hopen : ((SSTableReader.open (basePath sstable_id)).exec written.2.store []).1 =
      SSTableReader.openFiles written.2.store (basePath sstable_id) :=
    (Prog.wp_exec (R := fun _ _ => True)
      (Q := fun out _ => out = SSTableReader.openFiles written.2.store (basePath sstable_id))
      (wp_open trivial rfl)).1
  rw [hopen, openFiles_of_tableFiles hfiles rfl hvalid (deduplicateNewest_sorted records), if_pos]
  exact metaLoadable_tableMeta hid hlevel (deduplicateNewest_sorted records) fun record hrecord =>
    hsequence record (hsub record hrecord)

/-- Two records of one node with one sequence id, and a tombstone. -/
theorem sstableWrite_open_ties :
    let records : List DynamicRecord := [{ sequence_id := 5, node_id := 9, dim := 1, vector := [1] },
      { sequence_id := 6, node_id := 2, deleted := true },
      { sequence_id := 5, node_id := 9, dim := 1, vector := [3] }]
    let written := (SSTableWriter.write 1 0 records).exec {} []
    written.1 = true ∧ ∃ reader,
      ((SSTableReader.open (basePath 1)).exec written.2.store []).1 = some reader ∧
        reader.Holds written.2.store records :=
  sstableWrite_open (by decide) (by decide) (by decide) (by decide) (by decide)

end Dynamic
