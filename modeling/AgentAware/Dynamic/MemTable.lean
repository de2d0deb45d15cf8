import AgentAware.Dynamic.DynamicRecord

/-!
# The memtable

The newest record of every node written since the last flush, with an estimate of the bytes it
takes, which decides when a flush is due.

## Main definitions

- `MemTable` — the table, its estimate and its threshold
- `MemTable.insert` — rejected unless the record is newer than the one it replaces
- `MemTable.Holds` — the table of the newest records of a log

## Main results

- `MemTable.Holds.insert` — a newer record is accepted, and the table follows the log
- `MemTable.Holds.snapshot_covers` — a snapshot loses superseded records only
-/

namespace Dynamic

/-- `sizeof(DynamicRecord)`. -/
def sizeofDynamicRecord : ℕ := 72

def estimateRecordBytes (record : DynamicRecord) : ℕ :=
  sizeofDynamicRecord + record.vector.length * wordBytes + record.neighbors.length * wordBytes

structure MemTable where
  flush_threshold_bytes : ℕ
  records : AList fun _ : NodeId => DynamicRecord
  current_bytes : ℕ

namespace MemTable

/-- An empty memtable. -/
def new (flush_threshold_bytes : ℕ) : MemTable := ⟨flush_threshold_bytes, ∅, 0⟩

/-- `none` when the record is rejected. -/
def insert (memtable : MemTable) (record : DynamicRecord) : Option MemTable :=
  match memtable.records.lookup record.node_id with
  | some existing =>
    if record.sequence_id ≤ existing.sequence_id then none
    else some
      { memtable with
        records := memtable.records.insert record.node_id record
        current_bytes :=
          memtable.current_bytes - estimateRecordBytes existing + estimateRecordBytes record }
  | none => some
      { memtable with
        records := memtable.records.insert record.node_id record
        current_bytes := memtable.current_bytes + estimateRecordBytes record }

/-- The records, in no particular order. -/
def snapshot (memtable : MemTable) : List DynamicRecord :=
  memtable.records.entries.map Sigma.snd

def clear (memtable : MemTable) : MemTable := { memtable with records := ∅, current_bytes := 0 }

def shouldFlush (memtable : MemTable) : Bool :=
  memtable.current_bytes ≥ memtable.flush_threshold_bytes

/-- `insert` whose result is ignored: the table stays when the record is rejected. -/
def insertReplayed (memtable : MemTable) (record : DynamicRecord) : MemTable :=
  (memtable.insert record).getD memtable

/-- The table holds the newest record of every node in `log`. -/
def Holds (memtable : MemTable) (log : List DynamicRecord) : Prop :=
  ∀ node_id, memtable.records.lookup node_id = newestOf log node_id

section

variable {memtable memtable' : MemTable} {log : List DynamicRecord} {record : DynamicRecord}

theorem Holds.clear (memtable : MemTable) : memtable.clear.Holds [] := fun _ => rfl

theorem records_insertReplayed (memtable : MemTable) (record : DynamicRecord) :
    (memtable.insertReplayed record).records =
      Versions.record DynamicRecord.node_id DynamicRecord.sequence_id memtable.records record := by
  cases hlookup : memtable.records.lookup record.node_id with
  | none => simp [insertReplayed, insert, Versions.record, hlookup]
  | some existing =>
    by_cases hseq : record.sequence_id ≤ existing.sequence_id
    · have hnot : ¬existing.sequence_id < record.sequence_id := by omega
      simp [insertReplayed, insert, Versions.record, hlookup, hseq, hnot]
    · have hlt : existing.sequence_id < record.sequence_id := by omega
      simp [insertReplayed, insert, Versions.record, hlookup, hseq, hlt]

/-- Replaying a log into an empty table. -/
theorem holds_replay (flush_threshold_bytes : ℕ) (log : List DynamicRecord) :
    (log.foldl insertReplayed (new flush_threshold_bytes)).Holds log := by
  have hrecords : ∀ memtable : MemTable, (log.foldl insertReplayed memtable).records =
      log.foldl (Versions.record DynamicRecord.node_id DynamicRecord.sequence_id)
        memtable.records := by
    induction log with
    | nil => intro _; rfl
    | cons record log ih =>
      intro memtable
      rw [List.foldl_cons, List.foldl_cons, ih, records_insertReplayed]
  intro node_id
  rw [hrecords, Versions.lookup_foldl_record]
  cases hnewest : newestOf log node_id <;> simp [new, hnewest, Versions.join, Versions.pick]

/-- A record newer than everything logged is accepted. -/
theorem snapshot_insert (h : memtable.insert record = some memtable') :
    memtable'.snapshot.isEmpty = false := by
  have hlookup : memtable'.records.lookup record.node_id = some record := by
    rw [insert] at h
    split at h
    · split at h
      · cases h
      · cases h
        exact AList.lookup_insert _
    · cases h
      exact AList.lookup_insert _
  have hmem := AList.mem_lookup_iff.mp hlookup
  rw [snapshot, List.isEmpty_eq_false_iff]
  exact List.ne_nil_of_mem (List.mem_map_of_mem hmem)

theorem Holds.insert (h : memtable.Holds log)
    (hlt : ∀ r ∈ log, r.sequence_id < record.sequence_id) :
    ∃ memtable', memtable.insert record = some memtable' ∧ memtable'.Holds (log ++ [record]) := by
  have hsome : memtable.insert record = some (memtable.insertReplayed record) := by
    cases hlookup : memtable.records.lookup record.node_id with
    | none => simp [insertReplayed, MemTable.insert, hlookup]
    | some existing =>
      have hmem := (Versions.mem_of_newest ((h record.node_id).symm.trans hlookup)).1
      have hnot : ¬record.sequence_id ≤ existing.sequence_id := by
        have := hlt existing hmem
        omega
      simp [insertReplayed, MemTable.insert, hlookup, hnot]
  refine ⟨_, hsome, fun node_id => ?_⟩
  rw [records_insertReplayed, Versions.lookup_record, h node_id]
  split
  · next hnode => exact (Versions.newest_concat hnode).symm
  · next hnode => exact (Versions.newest_concat_of_ne hnode).symm

theorem Holds.mem_snapshot (h : memtable.Holds log) :
    record ∈ memtable.snapshot ↔ newestOf log record.node_id = some record := by
  have hkeys : ∀ node_id r, memtable.records.lookup node_id = some r → r.node_id = node_id := by
    intro node_id r hr
    exact (Versions.mem_of_newest ((h node_id).symm.trans hr)).2
  rw [snapshot, Versions.mem_values_iff hkeys, h]

theorem Holds.snapshot_covers (h : memtable.Holds log) : Covers memtable.snapshot log :=
  Versions.covers_of_newest fun _ => h.mem_snapshot

end

end MemTable

end Dynamic
