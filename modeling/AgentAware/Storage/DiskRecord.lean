import AgentAware.Dynamic.RecordCodec
import AgentAware.Lib.Checked
import AgentAware.Lib.PageFile

/-!
# Node records of a disk index

A disk index is a file of 4096-byte pages: one for the header of the file, then one for every node.
A node's page holds a small header with the offsets of its payload and a checksum, the vector, the
neighbours and their PQ codes; the rest of the page is zero.

The reserved bytes of the file header are written as zeros and never looked at, so
`IndexFileHeader` leaves them out.

## Main definitions

- `IndexFileHeader`, `DiskNodeRecordHeader` — both headers, as bytes and back
- `encodeNodeRecord`, `decodeNodeRecord` — the page of a node, written and read

## Main results

- `encodeNodeRecord_eq_ok` — which records are accepted, and what their pages look like
- `decodeNodeRecord_recordPage` — a page that was written decodes to its record
- `decodeNodeRecord_zeros` — a page of zeros is not a record
-/

namespace Storage

open Dynamic (wordsBytes)

def kDiskIndexPageSize : ℕ := 4096

def kDiskIndexFileMagic : UInt32 := 0x58444941

def kDiskNodeRecordMagic : UInt32 := 0x52444941

def kDiskIndexVersion : UInt32 := 1

/-- `sizeof(DiskNodeRecordHeader)`. -/
def sizeofDiskNodeRecordHeader : ℕ := 32

structure IndexFileHeader where
  magic : UInt32 := kDiskIndexFileMagic
  version : UInt32 := kDiskIndexVersion
  dim : UInt32 := 0
  max_degree : UInt32 := 0
  num_nodes : UInt64 := 0
  record_size : UInt64 := UInt64.ofNat kDiskIndexPageSize
  header_size : UInt64 := UInt64.ofNat kDiskIndexPageSize
  entry_node : UInt64 := 0
  deriving DecidableEq, Repr

structure DiskNodeRecordHeader where
  magic : UInt32 := kDiskNodeRecordMagic
  node_id : UInt32 := 0
  degree : UInt16 := 0
  dim : UInt16 := 0
  neighbor_pq_code_bytes : UInt16 := 0
  flags : UInt16 := 0
  checksum : UInt32 := 0
  vector_offset : UInt32 := 0
  neighbors_offset : UInt32 := 0
  payload_bytes : UInt32 := 0
  deriving DecidableEq, Repr

structure NodeRecord where
  node_id : UInt32 := 0
  degree : UInt16 := 0
  dim : UInt16 := 0
  neighbor_pq_code_bytes : UInt16 := 0
  vector : List FloatBits := []
  neighbors : List NodeId := []
  neighbor_pq_codes : Bytes := []
  deriving DecidableEq, Repr

def IndexFileHeader.fields (header : IndexFileHeader) : List (ℕ × ℕ) :=
  [(4, header.magic.toNat), (4, header.version.toNat), (4, header.dim.toNat),
    (4, header.max_degree.toNat), (8, header.num_nodes.toNat), (8, header.record_size.toNat),
    (8, header.header_size.toNat), (8, header.entry_node.toNat)]

/-- The header page: the fields, then the reserved zeros. -/
def IndexFileHeader.toPage (header : IndexFileHeader) : Bytes :=
  Codec.putFields header.fields ++ List.replicate (kDiskIndexPageSize - 48) 0

def IndexFileHeader.ofPage (page : Bytes) : IndexFileHeader where
  magic := UInt32.ofNat (fieldAt page 0 4)
  version := UInt32.ofNat (fieldAt page 4 4)
  dim := UInt32.ofNat (fieldAt page 8 4)
  max_degree := UInt32.ofNat (fieldAt page 12 4)
  num_nodes := UInt64.ofNat (fieldAt page 16 8)
  record_size := UInt64.ofNat (fieldAt page 24 8)
  header_size := UInt64.ofNat (fieldAt page 32 8)
  entry_node := UInt64.ofNat (fieldAt page 40 8)

def DiskNodeRecordHeader.fields (header : DiskNodeRecordHeader) : List (ℕ × ℕ) :=
  [(4, header.magic.toNat), (4, header.node_id.toNat), (2, header.degree.toNat),
    (2, header.dim.toNat), (2, header.neighbor_pq_code_bytes.toNat), (2, header.flags.toNat),
    (4, header.checksum.toNat), (4, header.vector_offset.toNat),
    (4, header.neighbors_offset.toNat), (4, header.payload_bytes.toNat)]

def DiskNodeRecordHeader.toBytes (header : DiskNodeRecordHeader) : Bytes :=
  Codec.putFields header.fields

def DiskNodeRecordHeader.ofBytes (page : Bytes) : DiskNodeRecordHeader where
  magic := UInt32.ofNat (fieldAt page 0 4)
  node_id := UInt32.ofNat (fieldAt page 4 4)
  degree := UInt16.ofNat (fieldAt page 8 2)
  dim := UInt16.ofNat (fieldAt page 10 2)
  neighbor_pq_code_bytes := UInt16.ofNat (fieldAt page 12 2)
  flags := UInt16.ofNat (fieldAt page 14 2)
  checksum := UInt32.ofNat (fieldAt page 16 4)
  vector_offset := UInt32.ofNat (fieldAt page 20 4)
  neighbors_offset := UInt32.ofNat (fieldAt page 24 4)
  payload_bytes := UInt32.ofNat (fieldAt page 28 4)

/-- `count` 32-bit words from an offset on. -/
def wordsAt (page : Bytes) (offset count : ℕ) : List UInt32 :=
  (arrayAt page offset 4 count).map UInt32.ofNat

def fnv1aBytes (data : Bytes) (seed : UInt32) : UInt32 :=
  data.foldl (fun hash byte => (hash ^^^ byte.toUInt32) * 16777619) seed

def payloadChecksum (vector : List FloatBits) (neighbors : List NodeId)
    (neighbor_pq_codes : Bytes) : UInt32 :=
  let hash : UInt32 := 2166136261
  let hash := if 0 < vector.length then fnv1aBytes (wordsBytes vector) hash else hash
  let hash := if 0 < neighbors.length then fnv1aBytes (wordsBytes neighbors) hash else hash
  if 0 < neighbor_pq_codes.length then fnv1aBytes neighbor_pq_codes hash else hash

def requireExactPage (buffer_bytes : ℕ) : Except String Unit :=
  throwIf (buffer_bytes ≠ kDiskIndexPageSize) "Disk record buffer must be exactly 4096 bytes"

/-- The size of a record. The sum is below `2 ^ 64`, so its overflow check never fires. -/
def diskRecordBytes (dim degree : UInt32) (neighbor_pq_code_bytes : UInt16) : ℕ :=
  sizeofDiskNodeRecordHeader + dim.toNat * 4 + degree.toNat * 4 +
    degree.toNat * neighbor_pq_code_bytes.toNat

def validateDiskRecordShape (dim degree : UInt32) (neighbor_pq_code_bytes : UInt16) :
    Except String Unit := do
  throwIf (dim = 0) "Disk record dimension must be positive"
  throwIf (65535 < dim) "Disk record dimension exceeds header limit"
  throwIf (65535 < degree) "Disk record degree exceeds header limit"
  throwIf (kDiskIndexPageSize < diskRecordBytes dim degree neighbor_pq_code_bytes)
    "Disk record payload exceeds 4096 bytes"

def makeIndexFileHeader (dim max_degree : UInt32) (num_nodes entry_node : UInt64) :
    Except String IndexFileHeader := do
  validateDiskRecordShape dim max_degree 0
  throwIf (0 < num_nodes ∧ num_nodes ≤ entry_node) "Disk index entry node is out of range"
  return { dim, max_degree, num_nodes, entry_node }

def validateIndexFileHeader (header : IndexFileHeader) : Except String Unit := do
  throwIf (header.magic ≠ kDiskIndexFileMagic) "Invalid disk index magic"
  throwIf (header.version ≠ kDiskIndexVersion) "Unsupported disk index version"
  throwIf (header.record_size ≠ UInt64.ofNat kDiskIndexPageSize ∨
    header.header_size ≠ UInt64.ofNat kDiskIndexPageSize)
    "Disk index uses an unsupported page size"
  validateDiskRecordShape header.dim header.max_degree 0
  throwIf (0 < header.num_nodes ∧ header.num_nodes ≤ header.entry_node)
    "Disk index entry node is out of range"

def diskRecordOffset (node_id : NodeId) (header : IndexFileHeader) : Except String UInt64 := do
  validateIndexFileHeader header
  throwIf (header.num_nodes ≤ node_id.toUInt64) "Disk index node id is out of range"
  let max_node_offset := 0xffffffffffffffff - header.header_size
  throwIf (header.record_size ≠ 0 ∧ max_node_offset / header.record_size < node_id.toUInt64)
    "Disk index record offset overflows uint64_t"
  return header.header_size + node_id.toUInt64 * header.record_size

/-- The header of a node's page. -/
def nodeHeader (node_id : NodeId) (vector : List FloatBits) (dim : UInt32)
    (neighbors : List NodeId) (neighbor_pq_codes : Bytes) (neighbor_pq_code_bytes : UInt16) :
    DiskNodeRecordHeader :=
  let degree := UInt16.ofNat neighbors.length
  let vector_offset := UInt32.ofNat sizeofDiskNodeRecordHeader
  { node_id := node_id
    degree := degree
    dim := UInt16.ofNat dim.toNat
    neighbor_pq_code_bytes := neighbor_pq_code_bytes
    vector_offset := vector_offset
    neighbors_offset := vector_offset + UInt32.ofNat (dim.toNat * 4)
    payload_bytes :=
      UInt32.ofNat (diskRecordBytes dim degree.toUInt32 neighbor_pq_code_bytes)
    checksum := payloadChecksum vector neighbors neighbor_pq_codes }

/-- The copies into the zeroed page; a `memcpy` is a write at an offset. -/
def copyNodeRecord (header : DiskNodeRecordHeader) (vector : List FloatBits)
    (neighbors : List NodeId) (neighbor_pq_codes : Bytes) (buffer_bytes : ℕ) : Bytes :=
  let codes_offset := header.neighbors_offset + UInt32.ofNat (neighbors.length * 4)
  let page := List.replicate buffer_bytes 0
  let page := pwrite page 0 header.toBytes
  let page := pwrite page header.vector_offset.toNat (wordsBytes vector)
  let page :=
    if neighbors.isEmpty then page
    else pwrite page header.neighbors_offset.toNat (wordsBytes neighbors)
  if neighbor_pq_codes.isEmpty then page
  else pwrite page codes_offset.toNat neighbor_pq_codes

/-- `vector` is the `dim` floats the source's pointer points to. -/
def encodeNodeRecord (node_id : NodeId) (vector : List FloatBits) (dim : UInt32)
    (neighbors : List NodeId) (buffer_bytes : ℕ) (neighbor_pq_codes : Bytes)
    (neighbor_pq_code_bytes : UInt16) : Except String Bytes := do
  requireExactPage buffer_bytes
  let degree := UInt32.ofNat neighbors.length
  validateDiskRecordShape dim degree neighbor_pq_code_bytes
  throwIf (neighbor_pq_codes.length ≠ degree.toNat * neighbor_pq_code_bytes.toNat)
    "Disk record neighbor PQ code payload has wrong size"
  return copyNodeRecord
    (nodeHeader node_id vector dim neighbors neighbor_pq_codes neighbor_pq_code_bytes)
    vector neighbors neighbor_pq_codes buffer_bytes

def decodeNodeRecord (page : Bytes) : Except String NodeRecord := do
  requireExactPage page.length
  let header := DiskNodeRecordHeader.ofBytes page
  throwIf (header.magic ≠ kDiskNodeRecordMagic) "Invalid disk node record magic"
  validateDiskRecordShape header.dim.toUInt32 header.degree.toUInt32 header.neighbor_pq_code_bytes
  let expected_vector_offset := UInt32.ofNat sizeofDiskNodeRecordHeader
  let expected_neighbors_offset :=
    expected_vector_offset + UInt32.ofNat (header.dim.toNat * 4)
  let expected_codes_offset :=
    expected_neighbors_offset + UInt32.ofNat (header.degree.toNat * 4)
  let expected_payload_bytes := UInt32.ofNat (diskRecordBytes header.dim.toUInt32
    header.degree.toUInt32 header.neighbor_pq_code_bytes)
  throwIf (header.vector_offset ≠ expected_vector_offset ∨
    header.neighbors_offset ≠ expected_neighbors_offset ∨
    header.payload_bytes ≠ expected_payload_bytes) "Disk node record layout is inconsistent"
  let vector := wordsAt page header.vector_offset.toNat header.dim.toNat
  let neighbors := wordsAt page header.neighbors_offset.toNat header.degree.toNat
  let neighbor_pq_codes := (page.drop expected_codes_offset.toNat).take
    (header.degree.toNat * header.neighbor_pq_code_bytes.toNat)
  throwIf (payloadChecksum vector neighbors neighbor_pq_codes ≠ header.checksum)
    "Disk node record checksum mismatch"
  return {
    node_id := header.node_id
    degree := header.degree
    dim := header.dim
    neighbor_pq_code_bytes := header.neighbor_pq_code_bytes
    vector := vector
    neighbors := neighbors
    neighbor_pq_codes := neighbor_pq_codes }

/-! ### Both headers, read back -/

section Headers

variable {fields : List (ℕ × ℕ)} {offset : ℕ} {rest : Bytes}

/-- A field of a header that was written, found at its offset. -/
theorem fieldAt_of_getElem? (i : ℕ) {width value : ℕ} (hfield : fields[i]? = some (width, value))
    (hoffset : ((fields.take i).map Prod.fst).sum = offset) (hvalue : value < 256 ^ width) :
    fieldAt (Codec.putFields fields ++ rest) offset width = value := by
  obtain ⟨hi, hget⟩ := List.getElem?_eq_some_iff.mp hfield
  have hsplit : fields = fields.take i ++ (width, value) :: fields.drop (i + 1) := by
    rw [← hget, ← List.drop_eq_getElem_cons, List.take_append_drop]
  have hat := fieldAt_putFields (fields.take i) (fields.drop (i + 1)) rest hvalue
  rwa [← hsplit, hoffset] at hat

theorem fieldAt_uint16 (i : ℕ) {value : UInt16} (hfield : fields[i]? = some (2, value.toNat))
    (hoffset : ((fields.take i).map Prod.fst).sum = offset) :
    UInt16.ofNat (fieldAt (Codec.putFields fields ++ rest) offset 2) = value := by
  rw [fieldAt_of_getElem? i hfield hoffset value.toNat_lt, UInt16.ofNat_toNat]

theorem fieldAt_uint32 (i : ℕ) {value : UInt32} (hfield : fields[i]? = some (4, value.toNat))
    (hoffset : ((fields.take i).map Prod.fst).sum = offset) :
    UInt32.ofNat (fieldAt (Codec.putFields fields ++ rest) offset 4) = value := by
  rw [fieldAt_of_getElem? i hfield hoffset value.toNat_lt, UInt32.ofNat_toNat]

theorem fieldAt_uint64 (i : ℕ) {value : UInt64} (hfield : fields[i]? = some (8, value.toNat))
    (hoffset : ((fields.take i).map Prod.fst).sum = offset) :
    UInt64.ofNat (fieldAt (Codec.putFields fields ++ rest) offset 8) = value := by
  rw [fieldAt_of_getElem? i hfield hoffset value.toNat_lt, UInt64.ofNat_toNat]

end Headers

theorem IndexFileHeader.ofPage_toPage (header : IndexFileHeader) :
    IndexFileHeader.ofPage header.toPage = header := by
  obtain ⟨magic, version, dim, max_degree, num_nodes, record_size, header_size, entry_node⟩ := header
  rw [IndexFileHeader.ofPage, IndexFileHeader.toPage, IndexFileHeader.mk.injEq]
  exact ⟨fieldAt_uint32 0 rfl rfl, fieldAt_uint32 1 rfl rfl, fieldAt_uint32 2 rfl rfl,
    fieldAt_uint32 3 rfl rfl, fieldAt_uint64 4 rfl rfl, fieldAt_uint64 5 rfl rfl,
    fieldAt_uint64 6 rfl rfl, fieldAt_uint64 7 rfl rfl⟩

theorem DiskNodeRecordHeader.ofBytes_toBytes (header : DiskNodeRecordHeader) (rest : Bytes) :
    DiskNodeRecordHeader.ofBytes (header.toBytes ++ rest) = header := by
  obtain ⟨magic, node_id, degree, dim, neighbor_pq_code_bytes, flags, checksum, vector_offset,
    neighbors_offset, payload_bytes⟩ := header
  rw [DiskNodeRecordHeader.ofBytes, DiskNodeRecordHeader.toBytes, DiskNodeRecordHeader.mk.injEq]
  exact ⟨fieldAt_uint32 0 rfl rfl, fieldAt_uint32 1 rfl rfl, fieldAt_uint16 2 rfl rfl,
    fieldAt_uint16 3 rfl rfl, fieldAt_uint16 4 rfl rfl, fieldAt_uint16 5 rfl rfl,
    fieldAt_uint32 6 rfl rfl, fieldAt_uint32 7 rfl rfl, fieldAt_uint32 8 rfl rfl,
    fieldAt_uint32 9 rfl rfl⟩

@[simp] theorem IndexFileHeader.length_toPage (header : IndexFileHeader) :
    header.toPage.length = kDiskIndexPageSize := by
  rw [IndexFileHeader.toPage, List.length_append, Codec.length_putFields, List.length_replicate]
  rfl

@[simp] theorem DiskNodeRecordHeader.length_toBytes (header : DiskNodeRecordHeader) :
    header.toBytes.length = sizeofDiskNodeRecordHeader :=
  Codec.length_putFields header.fields

theorem wordsAt_wordsBytes (before : Bytes) (words : List UInt32) (rest : Bytes) :
    wordsAt (before ++ (wordsBytes words ++ rest)) before.length words.length = words := by
  have hfit : ∀ v ∈ words.map UInt32.toNat, v < 256 ^ 4 := by
    intro v hv
    obtain ⟨word, -, rfl⟩ := List.mem_map.mp hv
    exact word.toNat_lt
  have harray := arrayAt_putFields before hfit rest
  rw [List.length_map] at harray
  rw [wordsAt, wordsBytes, Dynamic.wordBytes, harray, List.map_map]
  exact (List.map_congr_left fun word _ => UInt32.ofNat_toNat).trans (List.map_id words)

/-! ### The page of a record -/

/-- A record fits the header and the page. -/
structure FitsPage (dim degree : ℕ) (neighbor_pq_code_bytes : UInt16) : Prop where
  dim_pos : 0 < dim
  dim_le : dim ≤ 65535
  degree_le : degree ≤ 65535
  bytes_le : sizeofDiskNodeRecordHeader + dim * 4 + degree * 4 +
    degree * neighbor_pq_code_bytes.toNat ≤ kDiskIndexPageSize

theorem validateDiskRecordShape_eq_ok {dim degree : UInt32} {neighbor_pq_code_bytes : UInt16} :
    validateDiskRecordShape dim degree neighbor_pq_code_bytes = .ok () ↔
      FitsPage dim.toNat degree.toNat neighbor_pq_code_bytes := by
  have hzero : dim = 0 ↔ dim.toNat = 0 := UInt32.toNat_inj.symm
  have hdim : 65535 < dim ↔ 65535 < dim.toNat := UInt32.lt_iff_toNat_lt
  have hdegree : 65535 < degree ↔ 65535 < degree.toNat := UInt32.lt_iff_toNat_lt
  rw [validateDiskRecordShape, throwIf_bind_eq_ok, throwIf_bind_eq_ok, throwIf_bind_eq_ok,
    throwIf_eq_ok, hzero, hdim, hdegree, not_lt, not_lt, not_lt]
  exact ⟨fun ⟨h1, h2, h3, h4⟩ => ⟨Nat.pos_of_ne_zero h1, h2, h3, h4⟩,
    fun h => ⟨h.dim_pos.ne', h.dim_le, h.degree_le, h.bytes_le⟩⟩

section Page

variable {node_id : NodeId} {vector : List FloatBits} {dim : UInt32} {neighbors : List NodeId}
  {codes : Bytes} {code_bytes : UInt16} {buffer_bytes : ℕ} {page : Bytes}

/-- The page of a record: its four parts one behind the other, then zeros. -/
def recordPage (node_id : NodeId) (vector : List FloatBits) (dim : UInt32)
    (neighbors : List NodeId) (codes : Bytes) (code_bytes : UInt16) : Bytes :=
  (nodeHeader node_id vector dim neighbors codes code_bytes).toBytes ++ wordsBytes vector ++
    wordsBytes neighbors ++ codes ++ List.replicate (kDiskIndexPageSize -
      (sizeofDiskNodeRecordHeader + 4 * vector.length + 4 * neighbors.length + codes.length)) 0

/-- A copy that is skipped when there is nothing to copy. -/
theorem pwrite_unless_nil (front data : Bytes) (room : ℕ) {empty : Bool}
    (hempty : empty = true → data = []) :
    (if empty then front ++ List.replicate room 0
      else pwrite (front ++ List.replicate room 0) front.length data) =
      (front ++ data) ++ List.replicate (room - data.length) 0 := by
  cases empty with
  | true => simp [hempty rfl]
  | false => exact pwrite_append_replicate front data room

/-- The offsets of a header that fits its page: each part starts where the one before it ends. -/
theorem nodeHeader_offsets (hvector : vector.length = dim.toNat)
    (hfits : FitsPage vector.length neighbors.length code_bytes) {header : DiskNodeRecordHeader}
    (hheader : header = nodeHeader node_id vector dim neighbors codes code_bytes) :
    header.vector_offset.toNat = header.toBytes.length ∧
      header.neighbors_offset.toNat = (header.toBytes ++ wordsBytes vector).length ∧
      (header.neighbors_offset + UInt32.ofNat (neighbors.length * 4)).toNat =
        (header.toBytes ++ wordsBytes vector ++ wordsBytes neighbors).length := by
  have hbytes := hfits.bytes_le
  rw [hvector, sizeofDiskNodeRecordHeader, kDiskIndexPageSize] at hbytes
  have hfront : header.toBytes.length = 32 := header.length_toBytes
  have hneighborsAt : header.neighbors_offset.toNat =
      (header.toBytes ++ wordsBytes vector).length := by
    have hsum : header.neighbors_offset = UInt32.ofNat (32 + dim.toNat * 4) := by
      rw [hheader]
      exact (UInt32.ofNat_add ..).symm
    rw [hsum, UInt32.toNat_ofNat_of_lt' (by rw [UInt32.size]; omega), List.length_append, hfront,
      Dynamic.length_wordsBytes, hvector, Dynamic.wordBytes, mul_comm]
  refine ⟨?_, hneighborsAt, ?_⟩
  · rw [hfront, hheader]
    rfl
  · rw [UInt32.toNat_add, hneighborsAt, UInt32.toNat_ofNat_of_lt' (by rw [UInt32.size]; omega)]
    simp only [List.length_append, hfront, Dynamic.length_wordsBytes, hvector, Dynamic.wordBytes]
    omega

theorem copyNodeRecord_eq_recordPage (hvector : vector.length = dim.toNat)
    (hfits : FitsPage vector.length neighbors.length code_bytes) :
    copyNodeRecord (nodeHeader node_id vector dim neighbors codes code_bytes) vector neighbors codes
      kDiskIndexPageSize = recordPage node_id vector dim neighbors codes code_bytes := by
  obtain ⟨header, hheader⟩ :
      ∃ header, header = nodeHeader node_id vector dim neighbors codes code_bytes := ⟨_, rfl⟩
  obtain ⟨hvectorAt, hneighborsAt, hcodesAt⟩ := nodeHeader_offsets hvector hfits hheader
  have hfront : header.toBytes.length = 32 := header.length_toBytes
  have hnil : neighbors.isEmpty = true → wordsBytes neighbors = [] := by
    intro hempty
    rw [List.isEmpty_iff.mp hempty]
    rfl
  have hstart := pwrite_append_replicate [] header.toBytes kDiskIndexPageSize
  rw [List.nil_append, List.nil_append, List.length_nil] at hstart
  -- Each copy starts where the one before it ended.
  rw [copyNodeRecord, ← hheader, hstart, hvectorAt, pwrite_append_replicate, hneighborsAt,
    hcodesAt, pwrite_unless_nil _ _ _ hnil, pwrite_unless_nil _ _ _ List.isEmpty_iff.mp,
    recordPage, ← hheader, hfront, Dynamic.length_wordsBytes, Dynamic.length_wordsBytes,
    sizeofDiskNodeRecordHeader, Dynamic.wordBytes, Nat.sub_sub, Nat.sub_sub, Nat.sub_sub,
    Nat.add_assoc, Nat.add_assoc]

theorem length_recordPage (hfits : FitsPage vector.length neighbors.length code_bytes)
    (hcodes : codes.length = neighbors.length * code_bytes.toNat) :
    (recordPage node_id vector dim neighbors codes code_bytes).length = kDiskIndexPageSize := by
  have hbytes := hfits.bytes_le
  simp only [recordPage, List.length_append, DiskNodeRecordHeader.length_toBytes,
    Dynamic.length_wordsBytes, List.length_replicate, Dynamic.wordBytes, hcodes]
  omega

theorem encodeNodeRecord_eq_ok (hvector : vector.length = dim.toNat)
    (hneighbors : neighbors.length < 2 ^ 32) :
    encodeNodeRecord node_id vector dim neighbors buffer_bytes codes code_bytes = .ok page ↔
      buffer_bytes = kDiskIndexPageSize ∧ FitsPage vector.length neighbors.length code_bytes ∧
        codes.length = neighbors.length * code_bytes.toNat ∧
        page = recordPage node_id vector dim neighbors codes code_bytes := by
  have hdegree : (UInt32.ofNat neighbors.length).toNat = neighbors.length :=
    UInt32.toNat_ofNat_of_lt' hneighbors
  have hshape : validateDiskRecordShape dim (UInt32.ofNat neighbors.length) code_bytes = .ok () ↔
      FitsPage dim.toNat (UInt32.ofNat neighbors.length).toNat code_bytes :=
    validateDiskRecordShape_eq_ok
  rw [hdegree, ← hvector] at hshape
  rw [encodeNodeRecord, unit_bind_eq_ok, requireExactPage, throwIf_eq_ok, not_not]
  refine and_congr_right fun hbuffer => ?_
  rw [unit_bind_eq_ok, hshape]
  refine and_congr_right fun hfits => ?_
  rw [throwIf_bind_eq_ok, not_not, hdegree, hbuffer, copyNodeRecord_eq_recordPage hvector hfits]
  exact and_congr_right fun _ => ⟨fun h => (Except.ok.inj h).symm, fun h => congrArg _ h.symm⟩

/-- The record on a page. -/
def recordOf (node_id : NodeId) (vector : List FloatBits) (neighbors : List NodeId) (codes : Bytes)
    (code_bytes : UInt16) : NodeRecord where
  node_id := node_id
  degree := UInt16.ofNat neighbors.length
  dim := UInt16.ofNat vector.length
  neighbor_pq_code_bytes := code_bytes
  vector := vector
  neighbors := neighbors
  neighbor_pq_codes := codes

theorem decodeNodeRecord_recordPage (hvector : vector.length = dim.toNat)
    (hfits : FitsPage vector.length neighbors.length code_bytes)
    (hcodes : codes.length = neighbors.length * code_bytes.toNat) :
    decodeNodeRecord (recordPage node_id vector dim neighbors codes code_bytes) =
      .ok (recordOf node_id vector neighbors codes code_bytes) := by
  obtain ⟨page, hpage⟩ :
      ∃ page, page = recordPage node_id vector dim neighbors codes code_bytes := ⟨_, rfl⟩
  obtain ⟨header, hheader⟩ :
      ∃ header, header = nodeHeader node_id vector dim neighbors codes code_bytes := ⟨_, rfl⟩
  have hread : DiskNodeRecordHeader.ofBytes page = header := by
    rw [hpage, hheader, recordPage, List.append_assoc, List.append_assoc, List.append_assoc,
      DiskNodeRecordHeader.ofBytes_toBytes]
  have hdegree : header.degree.toNat = neighbors.length := by
    rw [hheader]
    exact UInt16.toNat_ofNat_of_lt' (by rw [UInt16.size]; have := hfits.degree_le; omega)
  have hdim : header.dim.toNat = vector.length := by
    rw [hheader, hvector]
    exact UInt16.toNat_ofNat_of_lt' (by rw [UInt16.size, ← hvector]; have := hfits.dim_le; omega)
  have hdim32 : header.dim.toUInt32 = dim := by
    rw [← UInt32.toNat_inj, UInt16.toNat_toUInt32, hdim, hvector]
  have hcode_bytes : header.neighbor_pq_code_bytes = code_bytes := by rw [hheader]; rfl
  have hshape : validateDiskRecordShape header.dim.toUInt32 header.degree.toUInt32
      header.neighbor_pq_code_bytes = .ok () := by
    rw [validateDiskRecordShape_eq_ok, UInt16.toNat_toUInt32, UInt16.toNat_toUInt32, hdegree, hdim,
      hcode_bytes]
    exact hfits
  have hpayload : header.payload_bytes = UInt32.ofNat (diskRecordBytes header.dim.toUInt32
      header.degree.toUInt32 header.neighbor_pq_code_bytes) := by
    rw [hdim32, hheader]
    rfl
  have hneighborsSum : header.neighbors_offset =
      UInt32.ofNat sizeofDiskNodeRecordHeader + UInt32.ofNat (header.dim.toNat * 4) := by
    rw [hdim, hvector, hheader]
    rfl
  obtain ⟨hvectorAt, hneighborsAt, hcodesAt⟩ := nodeHeader_offsets hvector hfits hheader
  have hwords : wordsAt page header.vector_offset.toNat header.dim.toNat = vector := by
    rw [hvectorAt, hdim, hpage, recordPage, ← hheader]
    simp only [List.append_assoc]
    exact wordsAt_wordsBytes _ _ _
  have hneighbors : wordsAt page header.neighbors_offset.toNat header.degree.toNat = neighbors := by
    rw [hneighborsAt, hdegree, hpage, recordPage, ← hheader, List.append_assoc _ codes,
      List.append_assoc _ (wordsBytes neighbors)]
    exact wordsAt_wordsBytes _ _ _
  have htake : (page.drop (UInt32.ofNat sizeofDiskNodeRecordHeader +
      UInt32.ofNat (header.dim.toNat * 4) + UInt32.ofNat (header.degree.toNat * 4)).toNat).take
      (header.degree.toNat * header.neighbor_pq_code_bytes.toNat) = codes := by
    rw [← hneighborsSum, hdegree, hcodesAt, hcode_bytes, ← hcodes, hpage, recordPage, ← hheader,
      List.append_assoc _ codes, List.drop_left, List.take_left]
  have hchecksum : payloadChecksum vector neighbors codes = header.checksum := by
    rw [hheader]
    rfl
  rw [← hpage, decodeNodeRecord, unit_bind_eq_ok, requireExactPage, throwIf_eq_ok, not_not, hread]
  refine ⟨hpage ▸ length_recordPage hfits hcodes, ?_⟩
  dsimp only
  rw [throwIf_bind_eq_ok, not_not, unit_bind_eq_ok]
  refine ⟨by rw [hheader]; rfl, hshape, ?_⟩
  rw [throwIf_bind_eq_ok, not_or, not_or, not_not, not_not, not_not]
  refine ⟨⟨by rw [hheader]; rfl, hneighborsSum, hpayload⟩, ?_⟩
  rw [hwords, hneighbors, htake, throwIf_bind_eq_ok, not_not]
  refine ⟨hchecksum, ?_⟩
  rw [hheader, recordOf, hvector]
  rfl

/-- A page of zeros is not a record. -/
theorem decodeNodeRecord_zeros :
    decodeNodeRecord (List.replicate kDiskIndexPageSize 0) =
      .error "Invalid disk node record magic" := by
  have hmagic : (DiskNodeRecordHeader.ofBytes (List.replicate kDiskIndexPageSize 0)).magic = 0 := by
    decide
  have hpage : requireExactPage (List.replicate kDiskIndexPageSize (0 : UInt8)).length = .ok () := by
    rw [List.length_replicate]
    rfl
  have hcheck : throwIf ((DiskNodeRecordHeader.ofBytes
      (List.replicate kDiskIndexPageSize 0)).magic ≠ kDiskNodeRecordMagic)
      "Invalid disk node record magic" = .error "Invalid disk node record magic" := by
    rw [throwIf, hmagic]
    rfl
  rw [decodeNodeRecord, hpage]
  simp only [hcheck, bind, Except.bind]

end Page

end Storage
