import AgentAware.Dynamic.RecordCodec
import AgentAware.Dynamic.Disk

/-!
# The write-ahead log

`WalWriter` appends records to `wal/wal.log` through a stream; `replay` reads records from the front
of the file until it meets one that is incomplete or fails a check.

## Main definitions

- `walLayout`, `walCodec` — the record format of the log
- `WalWriter.append`, `WalWriter.sync`, `WalWriter.close` — the writer
- `replayBytes`, `replay` — the reader
-/

namespace Dynamic

def kWalRecordMagic : ℕ := 0x41574c50

def kWalRecordVersion : ℕ := 1

def kWalInsertOp : ℕ := 1

def walLayout : HeaderLayout where
  widths := [4, 2, 2, 8, 8, 4, 4, 4, 1, 4]
  fields header :=
    [(4, kWalRecordMagic), (2, kWalRecordVersion), (2, kWalInsertOp), (8, header.sequence_id),
     (8, header.node_id), (4, header.dim), (4, header.vector_bytes), (4, header.neighbor_count),
     (1, header.deleted), (4, header.payload_checksum)]
  parse
    | [magic, version, op_type, sequence_id, node_id, dim, vector_bytes, neighbor_count, deleted,
       payload_checksum] =>
      if magic = kWalRecordMagic ∧ version = kWalRecordVersion ∧ op_type = kWalInsertOp then
        some ⟨sequence_id, node_id, dim, vector_bytes, neighbor_count, deleted, payload_checksum⟩
      else none
    | _ => none
  fields_fst _ := rfl
  fields_fit header := by
    constructor
    · intro h
      exact ⟨h (8, _) (by simp), h (8, _) (by simp), h (4, _) (by simp), h (4, _) (by simp),
        h (4, _) (by simp), h (1, _) (by simp), h (4, _) (by simp)⟩
    · rintro ⟨_, _, _, _, _, _, _⟩ f hf
      simp only [List.mem_cons, List.not_mem_nil, or_false] at hf
      rcases hf with rfl | rfl | rfl | rfl | rfl | rfl | rfl | rfl | rfl | rfl <;>
        first | assumption | decide
  parse_fields _ := rfl
  fields_of_parse {values header} h := by
    split at h
    · split at h
      · next hconst =>
        obtain ⟨rfl, rfl, rfl⟩ := hconst
        cases h
        rfl
      · cases h
    · cases h

def walCodec : PrefixCodec DynamicRecord := recordCodec walLayout (by decide)

/-- A log writer: whether its stream is good, and whether it was closed. -/
structure WalWriter where
  good : Bool
  closed : Bool := false
  deriving DecidableEq, Repr

namespace WalWriter

/-- The constructor opens the log for appending. -/
def new : Prog Disk WalWriter := do
  let good ← openAppend .wal
  return { good := good }

def append (writer : WalWriter) (record : DynamicRecord) : Prog Disk (Bool × WalWriter) := do
  if writer.closed || !writer.good then
    return (false, writer)
  else if writable record then
    let ok ← Prog.forEach (write .wal) (recordChunks walLayout record)
    return (ok, { writer with good := ok })
  else
    return (false, writer)

def sync (writer : WalWriter) : Prog Disk (Bool × WalWriter) := do
  if writer.closed || !writer.good then
    return (false, writer)
  else
    let ok ← flush .wal
    return (ok, { writer with good := ok })

def close (writer : WalWriter) : Prog Disk (Bool × WalWriter) := do
  if writer.closed then
    return (true, writer)
  else
    let (ok, writer) ← writer.sync
    return (ok, { writer with closed := true })

end WalWriter

/-- The records at the front of a log. -/
def replayBytes (bytes : Bytes) : List DynamicRecord := walCodec.decodeAll bytes

/-- A log that is absent or cannot be opened has no records. -/
def replay : Prog Disk (List DynamicRecord) := do
  let disk ← Prog.look
  if ← Prog.probe then
    match disk.read .wal with
    | some bytes => return replayBytes bytes
    | none => return []
  else return []

/-- The records a directory's log holds. -/
def logRecords (disk : Disk) : List DynamicRecord :=
  match disk.read .wal with
  | some bytes => replayBytes bytes
  | none => []

/-- Appending a record writes its encoding; in between, a prefix of it was written. -/
theorem wp_walAppend {disk : Disk} {file : File} {record : DynamicRecord}
    (hwritable : writable record = true) (hfile : disk.files .wal = some file) :
    (WalWriter.append { good := true } record).wp Prog.Quiet
      (fun _ d => ∃ p q, walCodec.encode record = p ++ q ∧
        d = disk.modifyFile .wal fun file => file.append p)
      (fun out d => out = (true, { good := true }) ∧
        d = disk.modifyFile .wal fun file => file.append (walCodec.encode record)) disk := by
  have hwrite := wp_writeAll id (recordChunks walLayout record) hfile
  rw [List.map_id, recordChunks_flatten] at hwrite
  simp only [WalWriter.append, hwritable, Bool.not_true, Bool.or_self,
    Bool.false_eq_true, if_false, if_true, Prog.wp_bind]
  refine Prog.wp_mono hwrite ?_ fun _ _ => id
  rintro _ d ⟨rfl, rfl⟩
  exact ⟨rfl, rfl⟩

/-- A record that fails the writer's checks is refused before anything is written. -/
theorem walAppend_of_not_writable {writer : WalWriter} {record : DynamicRecord}
    (h : writable record = false) : writer.append record = pure (false, writer) := by
  simp [WalWriter.append, h]

variable {R : Disk → Disk → Prop} {disk : Disk}

@[simp] theorem wp_walNew {Q : WalWriter → Disk → Prop} :
    WalWriter.new.wp Prog.Quiet R Q disk ↔
      R disk (disk.modifyFile .wal id) ∧ Q { good := true } (disk.modifyFile .wal id) := by
  simp [WalWriter.new, openAppend]

@[simp] theorem wp_walSync {Q : Bool × WalWriter → Disk → Prop} :
    (WalWriter.sync { good := true }).wp Prog.Quiet R Q disk ↔
      R disk (disk.modifyFile .wal File.flush) ∧
        Q (true, { good := true }) (disk.modifyFile .wal File.flush) := by
  simp [WalWriter.sync, flush]

@[simp] theorem wp_walClose {Q : Bool × WalWriter → Disk → Prop} :
    (WalWriter.close { good := true }).wp Prog.Quiet R Q disk ↔
      R disk (disk.modifyFile .wal File.flush) ∧
        Q (true, { good := true, closed := true }) (disk.modifyFile .wal File.flush) := by
  simp [WalWriter.close]

@[simp] theorem wp_replay {Q : List DynamicRecord → Disk → Prop} :
    replay.wp Prog.Quiet R Q disk ↔ R disk disk ∧ Q (logRecords disk) disk := by
  simp only [replay, logRecords, Prog.wp_bind, Prog.wp_look, Prog.wp_probe_quiet, if_true]
  cases disk.read .wal <;> simp

end Dynamic
