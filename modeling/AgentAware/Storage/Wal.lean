import AgentAware.Core.Types
import AgentAware.Dynamic.RecordCodec
import AgentAware.Lib.Checked

/-!
# The log of the storage layer

A log starts with a header that holds the dimension; inserts carry a vector, deletes only an id. The
writer counts what it writes, and a writer that is opened again in append mode goes on from the counts
it is given: those of the previous writer, or those of a replay. A replay parses the log from its start
and calls back for every record. The streams of the model do not fail.

## Main definitions

- `WalWriter.create`, `WalWriter.append` — the constructor, and one record
- `replayWalRecords` — the calls of the callbacks, and the statistics
- `runSessions` — a log that is written in several sessions

## Main results

- `readRecord_recordBytes` — a record is read back as it was appended
- `replayWalRecords_ok` — the replay of a log
- `wal_roundtrip` — the replay after any sessions
-/

namespace Storage

/-- `AMFWALV5`. -/
def kWalMagic : Bytes := [0x41, 0x4d, 0x46, 0x57, 0x41, 0x4c, 0x56, 0x35]

def kWalVersion : ℕ := 5

def kWalInsertRecord : ℕ := 1

def kWalDeleteRecord : ℕ := 2

structure WalStats where
  records : ℕ := 0
  bytes : ℕ := 0
  deriving DecidableEq, Repr

structure WalReplayStats where
  records : ℕ := 0
  inserts : ℕ := 0
  deletes : ℕ := 0
  bytes : ℕ := 0
  dim : ℕ := 0
  max_id : NodeId := 0
  has_records : Bool := false
  deriving DecidableEq, Repr

structure WalWriter where
  path : String
  dim : ℕ
  stats : WalStats := {}
  deriving DecidableEq, Repr

/-- A call of the writer: `append_insert` reads as many floats as the dimension says. -/
inductive WalAppend (dim : ℕ) where
  | insert (id : NodeId) (vector : Vector FloatBits dim)
  | delete (id : NodeId)
  deriving DecidableEq

/-- A call of a callback. -/
inductive WalCall where
  | onInsert (id : NodeId) (vector : List FloatBits)
  | onDelete (id : NodeId)
  deriving DecidableEq

section Writer

/-- `write_wal_header`. The dimension is written as 32 bits. -/
def writeWalHeader (writer : WalWriter) (file : Bytes) : WalWriter × Bytes :=
  ({ writer with stats := { writer.stats with bytes := writer.stats.bytes + (8 + 4 + 4) } },
    file ++ kWalMagic ++ Codec.putFields [(4, kWalVersion), (4, writer.dim)])

/-- The constructor. Opening truncates the file unless it appends. -/
def WalWriter.create (path : String) (dim : ℕ) (append : Bool) (initial_stats : WalStats)
    (file : Option Bytes) : Except String (WalWriter × Bytes) := do
  throwIf (dim = 0) "WAL dimension must be positive"
  let opened := if append then file.getD [] else []
  if !append || initial_stats.bytes == 0 then
    return writeWalHeader { path := path, dim := dim } opened
  else return ({ path := path, dim := dim, stats := initial_stats }, opened)

/-- `append_insert`. The number of bytes is 32-bit. -/
def WalWriter.appendInsert (writer : WalWriter) (id : NodeId) (vector : List FloatBits)
    (file : Bytes) : WalWriter × Bytes :=
  let bytes := writer.dim * 4 % 2 ^ 32
  let stats := { records := writer.stats.records + 1, bytes := writer.stats.bytes + (4 * 4 + bytes) }
  ({ writer with stats := stats },
    file ++ Codec.putFields [(4, kWalInsertRecord), (4, id.toNat), (4, writer.dim), (4, bytes)] ++
      (Dynamic.wordsBytes vector).take bytes)

def WalWriter.appendDelete (writer : WalWriter) (id : NodeId) (file : Bytes) : WalWriter × Bytes :=
  let stats := { records := writer.stats.records + 1, bytes := writer.stats.bytes + 4 * 4 }
  ({ writer with stats := stats },
    file ++ Codec.putFields [(4, kWalDeleteRecord), (4, id.toNat), (4, writer.dim), (4, 0)])

def WalWriter.append {dim : ℕ} (state : WalWriter × Bytes) : WalAppend dim → WalWriter × Bytes
  | .insert id vector => state.1.appendInsert id vector.toList state.2
  | .delete id => state.1.appendDelete id state.2

end Writer

section Replay

variable (path : String)

/-- What both kinds of records count. -/
def countRecord (stats : WalReplayStats) (id : NodeId) : WalReplayStats :=
  let records := stats.records + 1
  { stats with
    records := records
    has_records := true
    max_id := if records = 1 then id else max stats.max_id id }

/-- The body of the loop of `replay_wal_records`: the call, the statistics and the rest. -/
def readRecord (dim : ℕ) (stats : WalReplayStats) (bytes : Bytes) :
    Except String (WalCall × WalReplayStats × Bytes) :=
  match Codec.readFields [4, 4, 4, 4] bytes with
  | some ([record_type, id, record_dim, size], rest) => do
    let id := UInt32.ofNat id
    let stats := { stats with bytes := stats.bytes + 4 * 4 }
    throwIf (record_type ≠ kWalInsertRecord ∧ record_type ≠ kWalDeleteRecord)
      ("Unsupported WAL record type in " ++ path)
    throwIf (record_dim ≠ dim) ("Invalid WAL record dimension in " ++ path)
    if record_type = kWalDeleteRecord then
      throwIf (size ≠ 0) ("Invalid WAL delete record shape in " ++ path)
      return (.onDelete id, countRecord { stats with deletes := stats.deletes + 1 } id, rest)
    else
      throwIf (size ≠ dim * 4) ("Invalid WAL insert record shape in " ++ path)
      match Dynamic.readWords dim rest with
      | none => .error ("Truncated WAL insert vector in " ++ path)
      | some (vector, rest) =>
        return (.onInsert id vector,
          countRecord { stats with bytes := stats.bytes + size, inserts := stats.inserts + 1 } id,
          rest)
  | _ => .error ("Failed to read WAL: " ++ path)

/-- The loop. Every record takes bytes, so their number bounds the rounds. What has been called back
stays when the replay throws. -/
def replayLoop (dim : ℕ) :
    ℕ → List WalCall → WalReplayStats → Bytes → List WalCall × Except String WalReplayStats
  | 0, calls, stats, _ => (calls, .ok stats)
  | rounds + 1, calls, stats, bytes =>
    if bytes.isEmpty then (calls, .ok stats)
    else
      match readRecord path dim stats bytes with
      | .error e => (calls, .error e)
      | .ok (call, stats, rest) => replayLoop dim rounds (calls ++ [call]) stats rest

/-- The checks in front of the loop, up to the dimension, and what follows the header. -/
def readWalHeader (expected_dim : ℕ) (file : Option Bytes) : Except String (ℕ × Bytes) := do
  throwIf (expected_dim = 0) "WAL replay dimension must be positive"
  match file with
  | none => .error ("Cannot open WAL file for replay: " ++ path)
  | some bytes =>
    throwIf (bytes.take 8 ≠ kWalMagic) ("Invalid WAL magic: " ++ path)
    match Codec.readFields [4] (bytes.drop 8) with
    | some ([version], bytes) =>
      throwIf (version ≠ kWalVersion) ("Unsupported WAL version in " ++ path)
      match Codec.readFields [4] bytes with
      | some ([dim], bytes) =>
        throwIf (dim ≠ expected_dim) "WAL dimension does not match current dataset"
        return (dim, bytes)
      | _ => .error ("Failed to read WAL: " ++ path)
    | _ => .error ("Failed to read WAL: " ++ path)

def replayWalRecords (expected_dim : ℕ) (file : Option Bytes) :
    List WalCall × Except String WalReplayStats :=
  match readWalHeader path expected_dim file with
  | .error e => ([], .error e)
  | .ok (dim, bytes) =>
    replayLoop path dim bytes.length [] { dim := dim, bytes := 8 + 4 + 4 } bytes

end Replay

section Sessions

variable {dim : ℕ}

/-- How a log is started: over whatever a file held, or in append mode without a file. -/
inductive WalStart where
  | truncate (existing : Option Bytes)
  | append

/-- A session after the first one. -/
structure WalSession (dim : ℕ) where
  /-- It goes on from the statistics of a replay, not from those of the previous writer. -/
  from_replay : Bool
  appends : List (WalAppend dim)

def startWal (path : String) (dim : ℕ) : WalStart → Except String (WalWriter × Bytes)
  | .truncate existing => WalWriter.create path dim false {} existing
  | .append => WalWriter.create path dim true {} none

/-- The statistics that a writer is opened again with. -/
def initialStats (path : String) (from_replay : Bool) (state : WalWriter × Bytes) :
    Except String WalStats :=
  if from_replay then
    (replayWalRecords path state.1.dim (some state.2)).2.map fun stats =>
      { records := stats.records, bytes := stats.bytes }
  else .ok state.1.stats

/-- Open the log again and append. -/
def runSession (path : String) (state : WalWriter × Bytes) (session : WalSession dim) :
    Except String (WalWriter × Bytes) := do
  let stats ← initialStats path session.from_replay state
  let opened ← WalWriter.create path dim true stats (some state.2)
  return session.appends.foldl WalWriter.append opened

def runSessions (path : String) (start : WalStart) (first : List (WalAppend dim))
    (sessions : List (WalSession dim)) : Except String (WalWriter × Bytes) := do
  let opened ← startWal path dim start
  sessions.foldlM (runSession path) (first.foldl WalWriter.append opened)

end Sessions

section Records

variable {dim : ℕ} {path : String}

def WalAppend.id : WalAppend dim → NodeId
  | .insert id _ => id
  | .delete id => id

/-- The call of the callback for a record. -/
def WalAppend.call : WalAppend dim → WalCall
  | .insert id vector => .onInsert id vector.toList
  | .delete id => .onDelete id

/-- The bytes of a record. -/
def recordBytes : WalAppend dim → Bytes
  | .insert id vector =>
    Codec.putFields [(4, kWalInsertRecord), (4, id.toNat), (4, dim), (4, dim * 4)] ++
      Dynamic.wordsBytes vector.toList
  | .delete id => Codec.putFields [(4, kWalDeleteRecord), (4, id.toNat), (4, dim), (4, 0)]

def walHeader (dim : ℕ) : Bytes :=
  kWalMagic ++ Codec.putFields [(4, kWalVersion), (4, dim)]

/-- The statistics of a replay after one more record. -/
def afterRecord (stats : WalReplayStats) : WalAppend dim → WalReplayStats
  | .insert id _ =>
    let read := { stats with bytes := stats.bytes + 4 * 4 }
    countRecord { read with bytes := read.bytes + dim * 4, inserts := read.inserts + 1 } id
  | .delete id =>
    countRecord { stats with bytes := stats.bytes + 4 * 4, deletes := stats.deletes + 1 } id

theorem length_walHeader (dim : ℕ) : (walHeader dim).length = 16 := by
  rw [walHeader, List.length_append, Codec.length_putFields]
  rfl

theorem length_vectorBytes (vector : Vector FloatBits dim) :
    (Dynamic.wordsBytes vector.toList).length = dim * 4 := by
  rw [Dynamic.length_wordsBytes, Vector.length_toList, Dynamic.wordBytes, Nat.mul_comm]

theorem length_recordBytes (op : WalAppend dim) :
    (recordBytes op).length = match op with
      | .insert _ _ => 4 * 4 + dim * 4
      | .delete _ => 4 * 4 := by
  cases op with
  | insert id vector =>
    rw [recordBytes, List.length_append, Codec.length_putFields, length_vectorBytes]
    rfl
  | delete id =>
    rw [recordBytes, Codec.length_putFields]
    rfl

theorem length_recordBytes_pos (op : WalAppend dim) : 0 < (recordBytes op).length := by
  cases op with
  | insert id vector => rw [length_recordBytes]; dsimp only; omega
  | delete id => rw [length_recordBytes]; dsimp only; omega

/-- The writer appends the bytes of the record and counts them. -/
theorem append_eq {state : WalWriter × Bytes} (hdim : state.1.dim = dim) (hlimit : dim < 2 ^ 30)
    (op : WalAppend dim) :
    WalWriter.append state op =
      ({ state.1 with
          stats := ⟨state.1.stats.records + 1, state.1.stats.bytes + (recordBytes op).length⟩ },
        state.2 ++ recordBytes op) := by
  cases op with
  | insert id vector =>
    have hbytes : dim * 4 % 2 ^ 32 = dim * 4 := Nat.mod_eq_of_lt (by omega)
    rw [WalWriter.append, WalWriter.appendInsert, length_recordBytes]
    simp only [hdim, hbytes, List.take_of_length_le (length_vectorBytes vector).le, recordBytes,
      List.append_assoc]
  | delete id =>
    rw [WalWriter.append, WalWriter.appendDelete, length_recordBytes]
    simp only [recordBytes, hdim]

theorem fieldsFit_record (record_type size : ℕ) (id : NodeId) (htype : record_type < 2 ^ 32)
    (hdim : dim < 2 ^ 32) (hsize : size < 2 ^ 32) :
    Codec.FieldsFit [(4, record_type), (4, id.toNat), (4, dim), (4, size)] := by
  have hid : id.toNat < 2 ^ 32 := id.toNat_lt
  intro field hfield
  simp only [List.mem_cons, List.not_mem_nil, or_false] at hfield
  rcases hfield with rfl | rfl | rfl | rfl
  · exact htype
  · exact hid
  · exact hdim
  · exact hsize

/-- A record is read back as it was appended. -/
theorem readRecord_recordBytes (hlimit : dim < 2 ^ 30) (stats : WalReplayStats) (op : WalAppend dim)
    (rest : Bytes) :
    readRecord path dim stats (recordBytes op ++ rest) = .ok (op.call, afterRecord stats op, rest) := by
  cases op with
  | insert id vector =>
    have hfields := Codec.readFields_putFields _
      (@fieldsFit_record dim kWalInsertRecord (dim * 4) id (by decide) (by omega) (by omega)) (Dynamic.wordsBytes vector.toList ++ rest)
    have hwords := Dynamic.readWords_wordsBytes vector.toList rest
    rw [Vector.length_toList] at hwords
    rw [recordBytes, List.append_assoc, readRecord]
    simp only [List.map_cons, List.map_nil] at hfields
    rw [hfields]
    simp [throwIf, kWalInsertRecord, kWalDeleteRecord, hwords, WalAppend.call, afterRecord, bind,
      Except.bind, pure, Except.pure]
  | delete id =>
    have hfields := Codec.readFields_putFields _
      (@fieldsFit_record dim kWalDeleteRecord 0 id (by decide) (by omega) (by omega)) rest
    rw [recordBytes, readRecord]
    simp only [List.map_cons, List.map_nil] at hfields
    rw [hfields]
    simp [throwIf, kWalInsertRecord, kWalDeleteRecord, WalAppend.call, afterRecord, bind,
      Except.bind, pure, Except.pure]

/-- The loop reads the records one after the other. -/
theorem replayLoop_ok (hlimit : dim < 2 ^ 30) (ops : List (WalAppend dim)) {rounds : ℕ}
    (calls : List WalCall) (stats : WalReplayStats)
    (hrounds : (ops.flatMap recordBytes).length ≤ rounds) :
    replayLoop path dim rounds calls stats (ops.flatMap recordBytes) =
      (calls ++ ops.map WalAppend.call, .ok (ops.foldl afterRecord stats)) := by
  induction ops generalizing rounds calls stats with
  | nil =>
    rw [List.map_nil, List.append_nil]
    cases rounds with
    | zero => rfl
    | succ rounds => rfl
  | cons op ops ih =>
    have hpositive : 0 < (recordBytes op).length := length_recordBytes_pos op
    rw [List.flatMap_cons, List.length_append] at hrounds
    cases rounds with
    | zero => omega
    | succ rounds =>
      have hnonempty : (recordBytes op ++ ops.flatMap recordBytes).isEmpty = false := by
        rw [← Bool.not_eq_true, List.isEmpty_iff, ← List.length_eq_zero_iff, List.length_append]
        omega
      rw [List.flatMap_cons, replayLoop, hnonempty, readRecord_recordBytes hlimit]
      dsimp only
      rw [if_neg Bool.false_ne_true, ih _ _ (by omega), List.map_cons, List.foldl_cons,
        List.append_assoc, List.singleton_append]

theorem readWalHeader_ok (hdim : 0 < dim) (hlimit : dim < 2 ^ 30) (rest : Bytes) :
    readWalHeader path dim (some (walHeader dim ++ rest)) = .ok (dim, rest) := by
  have hone : ∀ value, value < 2 ^ 32 → Codec.FieldsFit [(4, value)] := by
    intro value hvalue field hfield
    rw [List.mem_singleton] at hfield
    exact hfield ▸ hvalue
  have hversion := Codec.readFields_putFields [(4, kWalVersion)] (hone _ (by decide))
    (Codec.putFields [(4, dim)] ++ rest)
  have hread := Codec.readFields_putFields [(4, dim)] (hone dim (by omega)) rest
  simp only [List.map_cons, List.map_nil] at hversion hread
  have hsplit : walHeader dim ++ rest = kWalMagic ++ (Codec.putFields [(4, kWalVersion)] ++
      (Codec.putFields [(4, dim)] ++ rest)) := by
    simp [walHeader, Codec.putFields, List.append_assoc]
  rw [readWalHeader, hsplit]
  simp only [throwIf, if_neg hdim.ne', bind, Except.bind]
  rw [List.take_left' (by rfl), List.drop_left' (by rfl), hversion]
  simp [hread, pure, Except.pure]

/-- The replay of a log. -/
theorem replayWalRecords_ok (hdim : 0 < dim) (hlimit : dim < 2 ^ 30) (ops : List (WalAppend dim)) :
    replayWalRecords path dim (some (walHeader dim ++ ops.flatMap recordBytes)) =
      (ops.map WalAppend.call, .ok (ops.foldl afterRecord { dim := dim, bytes := 8 + 4 + 4 })) := by
  rw [replayWalRecords, readWalHeader_ok hdim hlimit]
  dsimp only
  rw [replayLoop_ok hlimit ops _ _ (Nat.le_refl _), List.nil_append]

/-- What the statistics of a replay say about the records. -/
structure Counts (ops : List (WalAppend dim)) (stats : WalReplayStats) : Prop where
  records_eq : stats.records = ops.length
  bytes_eq : stats.bytes = 16 + (ops.flatMap recordBytes).length
  kinds_eq : stats.inserts + stats.deletes = ops.length
  has_records_iff : stats.has_records = true ↔ ops ≠ []
  max_id_mem : ops ≠ [] → stats.max_id ∈ ops.map WalAppend.id
  le_max_id : ∀ op ∈ ops, op.id ≤ stats.max_id

theorem afterRecord_records (stats : WalReplayStats) (op : WalAppend dim) :
    (afterRecord stats op).records = stats.records + 1 := by
  cases op with
  | insert id vector => rfl
  | delete id => rfl

theorem afterRecord_max_id (stats : WalReplayStats) (op : WalAppend dim) :
    (afterRecord stats op).max_id =
      if stats.records + 1 = 1 then op.id else max stats.max_id op.id := by
  cases op with
  | insert id vector => rfl
  | delete id => rfl

theorem counts_snoc {ops : List (WalAppend dim)} {stats : WalReplayStats} (h : Counts ops stats)
    (op : WalAppend dim) : Counts (ops ++ [op]) (afterRecord stats op) := by
  have hbytes : (afterRecord stats op).bytes = stats.bytes + (recordBytes op).length := by
    rw [length_recordBytes]
    cases op with
    | insert id vector => exact Nat.add_assoc _ _ _
    | delete id => rfl
  have hkinds : (afterRecord stats op).inserts + (afterRecord stats op).deletes =
      stats.inserts + stats.deletes + 1 := by
    cases op with
    | insert id vector => exact Nat.add_right_comm _ _ _
    | delete id => exact (Nat.add_assoc _ _ _).symm
  have hhas : (afterRecord stats op).has_records = true := by
    cases op with
    | insert id vector => rfl
    | delete id => rfl
  constructor
  · rw [afterRecord_records, h.records_eq, List.length_append, List.length_singleton]
  · rw [hbytes, h.bytes_eq, List.flatMap_append, List.length_append, List.flatMap_singleton,
      Nat.add_assoc]
  · rw [hkinds, h.kinds_eq, List.length_append, List.length_singleton]
  · rw [hhas]
    simp
  · intro _
    rw [afterRecord_max_id, h.records_eq, List.map_append, List.mem_append]
    split
    · exact Or.inr List.mem_cons_self
    · next hmore =>
      have hne : ops ≠ [] := fun hnil => hmore (by rw [hnil, List.length_nil])
      cases max_choice stats.max_id op.id with
      | inl hold =>
        rw [hold]
        exact Or.inl (h.max_id_mem hne)
      | inr hnew =>
        rw [hnew]
        exact Or.inr List.mem_cons_self
  · intro other hother
    rw [afterRecord_max_id, h.records_eq]
    split
    · next hone =>
      have hnil : ops = [] := List.length_eq_zero_iff.mp (by omega)
      rw [hnil, List.nil_append, List.mem_singleton] at hother
      exact hother ▸ le_refl _
    · cases List.mem_append.mp hother with
      | inl hmem => exact (h.le_max_id other hmem).trans (le_max_left _ _)
      | inr hlast =>
        rw [List.mem_singleton] at hlast
        exact hlast ▸ le_max_right _ _

theorem counts_foldl (ops : List (WalAppend dim)) :
    Counts ops (ops.foldl afterRecord { dim := dim, bytes := 8 + 4 + 4 }) := by
  induction ops using List.reverseRecOn with
  | nil =>
    exact ⟨rfl, rfl, rfl, by simp, fun h => absurd rfl h, fun _ h => absurd h List.not_mem_nil⟩
  | append_singleton ops op ih =>
    rw [List.foldl_append, List.foldl_cons, List.foldl_nil]
    exact counts_snoc ih op

/-- The file and the statistics of a writer that has appended `ops` since the log was started. -/
structure Written (path : String) (ops : List (WalAppend dim)) (state : WalWriter × Bytes) :
    Prop where
  path_eq : state.1.path = path
  dim_eq : state.1.dim = dim
  stats_eq : state.1.stats = ⟨ops.length, 16 + (ops.flatMap recordBytes).length⟩
  file_eq : state.2 = walHeader dim ++ ops.flatMap recordBytes

theorem written_append (hlimit : dim < 2 ^ 30) {ops : List (WalAppend dim)}
    {state : WalWriter × Bytes} (h : Written path ops state) (op : WalAppend dim) :
    Written path (ops ++ [op]) (WalWriter.append state op) := by
  rw [append_eq h.dim_eq hlimit]
  refine ⟨h.path_eq, h.dim_eq, ?_, ?_⟩
  · dsimp only
    rw [h.stats_eq, List.length_append, List.length_singleton, List.flatMap_append,
      List.length_append, List.flatMap_singleton, Nat.add_assoc]
  · dsimp only
    rw [h.file_eq, List.flatMap_append, List.flatMap_singleton, List.append_assoc]

theorem written_appends (hlimit : dim < 2 ^ 30) {ops : List (WalAppend dim)}
    {state : WalWriter × Bytes} (h : Written path ops state) (more : List (WalAppend dim)) :
    Written path (ops ++ more) (more.foldl WalWriter.append state) := by
  induction more generalizing ops state with
  | nil => rwa [List.append_nil]
  | cons op more ih =>
    rw [List.foldl_cons, List.append_cons]
    exact ih (written_append hlimit h op)

/-- However the log is started, it holds its header. -/
theorem written_start (hdim : 0 < dim) (path : String) (start : WalStart) :
    ∃ opened, startWal path dim start = .ok opened ∧
      Written path ([] : List (WalAppend dim)) opened := by
  have hcheck : throwIf (dim = 0) "WAL dimension must be positive" = .ok () :=
    throwIf_eq_ok.mpr hdim.ne'
  cases start with
  | truncate existing =>
    refine ⟨_, by rw [startWal, WalWriter.create, hcheck]; rfl, rfl, rfl, rfl, ?_⟩
    simp [writeWalHeader, walHeader]
  | append =>
    refine ⟨_, by rw [startWal, WalWriter.create, hcheck]; rfl, rfl, rfl, rfl, ?_⟩
    simp [writeWalHeader, walHeader]

/-- The statistics of the previous writer and those of a replay are the same. -/
theorem initialStats_ok (hdim : 0 < dim) (hlimit : dim < 2 ^ 30) {ops : List (WalAppend dim)}
    {state : WalWriter × Bytes} (h : Written path ops state) (from_replay : Bool) :
    initialStats path from_replay state = .ok state.1.stats := by
  have hcounts := counts_foldl ops
  cases from_replay with
  | false => rfl
  | true =>
    rw [initialStats, if_pos rfl, h.dim_eq, h.file_eq, replayWalRecords_ok hdim hlimit, h.stats_eq]
    exact congrArg Except.ok (congrArg₂ WalStats.mk hcounts.records_eq hcounts.bytes_eq)

/-- A session goes on where the previous one ended. -/
theorem written_session (hdim : 0 < dim) (hlimit : dim < 2 ^ 30) {ops : List (WalAppend dim)}
    {state : WalWriter × Bytes} (h : Written path ops state) (session : WalSession dim) :
    ∃ next, runSession path state session = .ok next ∧
      Written path (ops ++ session.appends) next := by
  have hcheck : throwIf (dim = 0) "WAL dimension must be positive" = .ok () :=
    throwIf_eq_ok.mpr hdim.ne'
  have hbytes : (state.1.stats.bytes == 0) = false := by
    rw [h.stats_eq, beq_eq_false_iff_ne]
    exact (Nat.add_pos_left (by decide) _).ne'
  have hopened : WalWriter.create path dim true state.1.stats (some state.2) =
      .ok ({ path := path, dim := dim, stats := state.1.stats }, state.2) := by
    rw [WalWriter.create, hcheck]
    simp [hbytes, bind, Except.bind, pure, Except.pure]
  have hreopened : Written path ops
      (({ path := path, dim := dim, stats := state.1.stats }, state.2) : WalWriter × Bytes) :=
    ⟨rfl, rfl, h.stats_eq, h.file_eq⟩
  refine ⟨_, ?_, written_appends hlimit hreopened session.appends⟩
  rw [runSession, initialStats_ok hdim hlimit h]
  simp only [hopened, bind, Except.bind, pure, Except.pure]

theorem written_sessions (hdim : 0 < dim) (hlimit : dim < 2 ^ 30) {ops : List (WalAppend dim)}
    {state : WalWriter × Bytes} (h : Written path ops state) (sessions : List (WalSession dim)) :
    ∃ final, sessions.foldlM (runSession path) state = .ok final ∧
      Written path (ops ++ sessions.flatMap WalSession.appends) final := by
  induction sessions generalizing ops state with
  | nil =>
    rw [List.flatMap_nil, List.append_nil]
    exact ⟨state, rfl, h⟩
  | cons session sessions ih =>
    obtain ⟨next, hnext, hwritten⟩ := written_session hdim hlimit h session
    obtain ⟨final, hfinal, hall⟩ := ih hwritten
    refine ⟨final, ?_, ?_⟩
    · rw [List.foldlM_cons, hnext]
      exact hfinal
    · rwa [List.flatMap_cons, ← List.append_assoc]

/-- However the log is started and in however many sessions it is written, each going on from the
statistics of the previous writer or of a replay: the replay calls back for every record in order, and
its statistics are the writer's. -/
theorem wal_roundtrip (hdim : 0 < dim) (hlimit : dim < 2 ^ 30) (path : String) (start : WalStart)
    (first : List (WalAppend dim)) (sessions : List (WalSession dim)) :
    ∃ writer file, runSessions path start first sessions = .ok (writer, file) ∧
      ∃ stats, replayWalRecords path dim (some file) =
          ((first ++ sessions.flatMap WalSession.appends).map WalAppend.call, .ok stats) ∧
        stats.records = writer.stats.records ∧ stats.bytes = writer.stats.bytes ∧
        stats.records = (first ++ sessions.flatMap WalSession.appends).length ∧
        stats.bytes = file.length ∧
        (first ++ sessions.flatMap WalSession.appends ≠ [] →
          stats.max_id ∈ (first ++ sessions.flatMap WalSession.appends).map WalAppend.id) ∧
        ∀ op ∈ first ++ sessions.flatMap WalSession.appends, op.id ≤ stats.max_id := by
  obtain ⟨opened, hopened, hheader⟩ := @written_start dim hdim path start
  obtain ⟨⟨writer, file⟩, hfinal, hwritten⟩ :=
    written_sessions hdim hlimit (written_appends hlimit hheader first) sessions
  rw [List.nil_append] at hwritten
  have hcounts := counts_foldl (first ++ sessions.flatMap WalSession.appends)
  refine ⟨writer, file, ?_, _, ?_, ?_, ?_, hcounts.records_eq, ?_, hcounts.max_id_mem,
    hcounts.le_max_id⟩
  · rw [runSessions, hopened]
    exact hfinal
  · have hfile : file = _ := hwritten.file_eq
    rw [hfile, replayWalRecords_ok hdim hlimit]
  · have hstats : writer.stats = _ := hwritten.stats_eq
    rw [hcounts.records_eq, hstats]
  · have hstats : writer.stats = _ := hwritten.stats_eq
    rw [hcounts.bytes_eq, hstats]
  · have hfile : file = _ := hwritten.file_eq
    rw [hcounts.bytes_eq, hfile, List.length_append, length_walHeader]

/-- Three sessions, an empty one among them. -/
theorem wal_roundtrip_three :
    0 < 1 ∧ 1 < 2 ^ 30 ∧ ∃ writer file,
      runSessions "wal" (.truncate (some [7])) [WalAppend.insert 3 (#v[5] : Vector FloatBits 1)]
        [⟨true, []⟩, ⟨false, [.delete 9]⟩] = .ok (writer, file) ∧
      ∃ stats, replayWalRecords "wal" 1 (some file) = ([.onInsert 3 [5], .onDelete 9], .ok stats) ∧
        stats.records = writer.stats.records ∧ stats.bytes = writer.stats.bytes := by
  obtain ⟨writer, file, hrun, stats, hreplay, hrecords, hbytes, _⟩ :=
    wal_roundtrip (by decide) (by decide) "wal" (.truncate (some [7]))
      [WalAppend.insert 3 (#v[5] : Vector FloatBits 1)] [⟨true, []⟩, ⟨false, [.delete 9]⟩]
  exact ⟨by decide, by decide, writer, file, hrun, stats, hreplay, hrecords, hbytes⟩

end Records

end Storage
