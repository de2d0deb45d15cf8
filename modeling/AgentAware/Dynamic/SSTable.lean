import AgentAware.Dynamic.RecordCodec
import AgentAware.Dynamic.Disk

/-!
# Sorted tables

A table is three files under one base path: `.data` with the records in the order of their node
ids, `.index` with the sequence id and the offset of each, and `.meta` with the counts. The writer
writes them once; the reader loads the index and reads records by their offset, checking each
against its index entry.

## Main definitions

- `sstableName`, `basePath` — the name of a table
- `SSTableWriter.write` — the writer
- `SSTableReader.openFiles`, `SSTableReader.find`, `SSTableReader.scan` — what the reader finds
- `SSTableReader.open`, `SSTableReader.get`, `SSTableReader.scanAll` — the same, reading the files
-/

namespace Dynamic

def kSSTableDataMagic : ℕ := 0x44535450

def kSSTableIndexMagic : ℕ := 0x49535450

def kSSTableVersion : ℕ := 1

/-- `sst_` and the id, padded with zeros to six digits. -/
def sstableName (sstable_id : ℕ) : String :=
  let digits := Nat.toDigits 10 sstable_id
  "sst_" ++ String.ofList (List.replicate (6 - digits.length) '0' ++ digits)

/-- The base path of the table with a given id. -/
def basePath (sstable_id : ℕ) : String := "sstable/" ++ sstableName sstable_id

def sstableLayout : HeaderLayout where
  widths := [4, 2, 1, 8, 8, 4, 4, 4, 4]
  fields header :=
    [(4, kSSTableDataMagic), (2, kSSTableVersion), (1, header.deleted), (8, header.sequence_id),
     (8, header.node_id), (4, header.dim), (4, header.vector_bytes), (4, header.neighbor_count),
     (4, header.payload_checksum)]
  parse
    | [magic, version, deleted, sequence_id, node_id, dim, vector_bytes, neighbor_count,
       payload_checksum] =>
      if magic = kSSTableDataMagic ∧ version = kSSTableVersion then
        some ⟨sequence_id, node_id, dim, vector_bytes, neighbor_count, deleted, payload_checksum⟩
      else none
    | _ => none
  fields_fst _ := rfl
  fields_fit header := by
    constructor
    · intro h
      exact ⟨h (8, _) (by simp), h (8, _) (by simp), h (4, _) (by simp), h (4, _) (by simp),
        h (4, _) (by simp), h (1, _) (by simp), h (4, _) (by simp)⟩
    · rintro ⟨_, _, _, _, _, _, _⟩ f hf
      simp only [List.mem_cons, List.not_mem_nil, or_false] at hf
      rcases hf with rfl | rfl | rfl | rfl | rfl | rfl | rfl | rfl | rfl <;>
        first | assumption | decide
  parse_fields _ := rfl
  fields_of_parse {values header} h := by
    split at h
    · split at h
      · next hconst =>
        obtain ⟨rfl, rfl⟩ := hconst
        cases h
        rfl
      · cases h
    · cases h

def sstableCodec : PrefixCodec DynamicRecord := recordCodec sstableLayout (by decide)

structure IndexEntry where
  sequence_id : ℕ := 0
  offset : ℕ := 0
  deriving DecidableEq, Repr

def indexHeaderFields (record_count : ℕ) : List (ℕ × ℕ) :=
  [(4, kSSTableIndexMagic), (2, kSSTableVersion), (8, record_count)]

def indexEntryFields (record : DynamicRecord) (offset : ℕ) : List (ℕ × ℕ) :=
  [(8, record.node_id.toNat), (8, record.sequence_id), (8, offset)]

/-- Write the fields one by one. -/
def writeFields (path : Path) (fields : List (ℕ × ℕ)) : Prog Disk Bool :=
  Prog.forEach (fun f => write path (Codec.putLE f.1 f.2)) fields

def writeRecord (base : String) (record : DynamicRecord) : Prog Disk Bool :=
  if writable record then
    Prog.forEach (write (.data base)) (recordChunks sstableLayout record)
  else pure false

/-- A record and its index entry; the offset is the position of the data stream. -/
def writeRecordAndEntry (base : String) (record : DynamicRecord) : Prog Disk Bool := do
  let disk ← Prog.look
  let offset := (((disk.files (.data base)).getD {}).contents).length
  if ← writeRecord base record then
    writeFields (.index base) (indexEntryFields record offset)
  else return false

def minSequenceId : List DynamicRecord → ℕ
  | [] => 0
  | record :: records => records.foldl (fun m r => min m r.sequence_id) record.sequence_id

def maxSequenceId : List DynamicRecord → ℕ
  | [] => 0
  | record :: records => records.foldl (fun m r => max m r.sequence_id) record.sequence_id

/-- The three files of the table `sstable_id`. -/
def SSTableWriter.write (sstable_id : ℕ) (level : ℤ) (records : List DynamicRecord) :
    Prog Disk Bool := do
  let base := basePath sstable_id
  let latest_records := deduplicateNewest records
  if ← Prog.probe then
    let data_output ← create (.data base)
    let index_output ← create (.index base)
    if data_output && index_output then
      if ← writeFields (.index base) (indexHeaderFields latest_records.length) then
        if ← Prog.forEach (writeRecordAndEntry base) latest_records then
          let data_output ← flush (.data base)
          let index_output ← flush (.index base)
          if data_output && index_output then
            if ← writeMetaFile base none then
              writeMetaFile base (some
                { version := kSSTableVersion
                  sstable_id := sstable_id
                  level := level
                  record_count := latest_records.length
                  min_sequence_id := minSequenceId latest_records
                  max_sequence_id := maxSequenceId latest_records })
            else return false
          else return false
        else return false
      else return false
    else return false
  else return false

/-- An opened table. -/
structure SSTableReader where
  base_path : String
  index : AList fun _ : NodeId => IndexEntry
  id : ℕ
  level : ℤ
  record_count : ℕ
  min_sequence_id : ℕ
  max_sequence_id : ℕ

/-- Integers are parsed as `std::int64_t`; the level must be an `int`. -/
def metaLoadable (value : SSTableMeta) : Bool :=
  value.version == kSSTableVersion && value.sstable_id < 2 ^ 63 && value.record_count < 2 ^ 63 &&
    value.min_sequence_id < 2 ^ 63 && value.max_sequence_id < 2 ^ 63 &&
    -2 ^ 31 ≤ value.level && value.level < 2 ^ 31

/-- Read `count` index entries; a later entry of a node replaces an earlier one. -/
def readIndexEntries : ℕ → Bytes → (AList fun _ : NodeId => IndexEntry) →
    Option (AList fun _ : NodeId => IndexEntry)
  | 0, _, index => some index
  | count + 1, bytes, index =>
    match Codec.readFields [8, 8, 8] bytes with
    | some ([node_id, sequence_id, offset], rest) =>
      if node_id ≤ maxUInt32 then
        readIndexEntries count rest (index.insert (UInt32.ofNat node_id) ⟨sequence_id, offset⟩)
      else none
    | _ => none

/-- The index file, whose count must be that of the meta file. -/
def readIndex (record_count : ℕ) (bytes : Bytes) :
    Option (AList fun _ : NodeId => IndexEntry) :=
  match Codec.readFields [4, 2, 8] bytes with
  | some ([magic, version, stored_count], rest) =>
    if magic = kSSTableIndexMagic ∧ version = kSSTableVersion ∧ stored_count = record_count then
      readIndexEntries stored_count rest ∅
    else none
  | _ => none

namespace SSTableReader

/-- The table at a base path, if its three files are there and well formed. -/
def openFiles (disk : Disk) (base : String) : Option SSTableReader :=
  match disk.metas base with
  | none => none
  | some value =>
    if metaLoadable value then
      match disk.read (.index base) with
      | none => none
      | some bytes =>
        match readIndex value.record_count bytes with
        | none => none
        | some index =>
          if (disk.files (.data base)).isSome then
            some { base_path := base
                   index := index
                   id := value.sstable_id
                   level := value.level
                   record_count := value.record_count
                   min_sequence_id := value.min_sequence_id
                   max_sequence_id := value.max_sequence_id }
          else none
    else none

/-- The record at an offset of the data file, if it passes every check. -/
def readRecordAt (disk : Disk) (base : String) (offset : ℕ) : Option DynamicRecord :=
  match disk.read (.data base) with
  | none => none
  | some bytes => (sstableCodec.decode (bytes.drop offset)).map Prod.fst

/-- The record of a node: the one at the indexed offset, if it is the one the index names. -/
def find (disk : Disk) (reader : SSTableReader) (node_id : NodeId) : Option DynamicRecord :=
  match reader.index.lookup node_id with
  | none => none
  | some entry =>
    match readRecordAt disk reader.base_path entry.offset with
    | none => none
    | some record =>
      if record.node_id = node_id ∧ record.sequence_id = entry.sequence_id then some record
      else none

/-- The readable records by node id; a record that cannot be read is left out. -/
def scan (disk : Disk) (reader : SSTableReader) : List DynamicRecord :=
  (reader.index.keys.filterMap (reader.find disk)).insertionSort fun a b => a.node_id ≤ b.node_id

def «open» (base : String) : Prog Disk (Option SSTableReader) := do
  let disk ← Prog.look
  if ← Prog.probe then
    return openFiles disk base
  else return none

def get (reader : SSTableReader) (node_id : NodeId) : Prog Disk (Option DynamicRecord) := do
  let disk ← Prog.look
  if ← Prog.probe then
    return reader.find disk node_id
  else return none

/-- The loop of `scan_all`, which skips every node `get` has no record for. -/
def collect (reader : SSTableReader) : List NodeId → Prog Disk (List DynamicRecord)
  | [] => pure []
  | node_id :: node_ids => do
    match ← reader.get node_id with
    | some record =>
      let records ← collect reader node_ids
      return record :: records
    | none => collect reader node_ids

def scanAll (reader : SSTableReader) : Prog Disk (List DynamicRecord) := do
  let records ← reader.collect reader.index.keys
  return records.insertionSort fun a b => a.node_id ≤ b.node_id

end SSTableReader

end Dynamic
