import AgentAware.Graph.PackedPageEncoder
import AgentAware.Lib.PageFile

/-!
# The file of a packed index

The builder checks its configuration, orders the nodes, and writes a header, the directory that names
the page of every node, and the pages; the sections start at multiples of their alignment. Opening a
file reads the header and the directory, and pages are read at their offsets. Sizes that the source
computes in 64 bits wrap around, and the header holds 32 bits of most numbers.

## Main definitions

- `PackedDiskGraphBuilder.build` — the builder, for a graph that is given
- `PackedDiskGraphIndex.openIndex`, `PackedDiskGraphIndex.readPage` — opening a file, reading a page
-/

open Graph DiskPageCodec

/-- `AMFPV2`. -/
def kPackedMagic : Bytes := [0x41, 0x4d, 0x46, 0x50, 0x56, 0x32, 0, 0]

def kPackedVersion : ℕ := 2

def kRecordsOffset : ℕ := 4096

def alignUp (value alignment : ℕ) : ℕ :=
  if alignment = 0 then value
  else if value % alignment = 0 then value else value + alignment - value % alignment

/-- `graph_record_bytes`, in 64 bits. -/
def recordBytes (dim degree neighbor_pq_code_bytes : ℕ) : ℕ :=
  graphRecordBytes dim degree neighbor_pq_code_bytes % 2 ^ 64

def packedNodesPerPage (dim degree page_size neighbor_pq_code_bytes : ℕ) : Except Fault ℕ :=
  if page_size ≤ 4 * 2 then .ok 0
  else if recordBytes dim degree neighbor_pq_code_bytes = 0 then .error .outOfRange
  else .ok ((page_size - 4 * 2) / recordBytes dim degree neighbor_pq_code_bytes)

namespace PackedDiskGraphBuilder

section Building

variable {F D : Type} (ops : FloatOps F) (double : DoubleOps D) (random : Random) (base : VectorSet)
  (graph : Adjacency) (config : PackedBuildConfig F)

/-- The checks in front of the graph, which return the number of nodes of a page. -/
def acceptConfig : Except Fault ℕ := do
  throwFault (base.size = 0) "Cannot build packed graph index for empty base vectors"
  throwFault (2 ^ 32 - 1 < base.size) "V2 packed graph index supports at most uint32_t ids"
  throwFault (config.degree = 0) "Graph degree must be positive"
  throwFault (config.page_size < kRecordsOffset) "Page size must be at least 4096 bytes in V2"
  throwFault (0 < pqCodeBytes config.pq_model ∧
      (config.pq_model.map PQEncoder.vectorCount).getD 0 < base.size)
    "PQ model does not cover packed graph base vectors"
  let nodes_per_page ← packedNodesPerPage base.dim config.degree config.page_size
    (pqCodeBytes config.pq_model)
  throwFault (nodes_per_page = 0) "Packed page cannot hold even one node"
  return nodes_per_page

/-- `node_to_page`. -/
def directory (order : List NodeId) (nodes_per_page : ℕ) : Except Fault (List UInt32) :=
  (List.range order.length).foldlM (fun node_to_page position => do
    let id ← load order position
    store node_to_page id.toNat (UInt32.ofNat (position / nodes_per_page)))
    (List.replicate base.size 0)

def pageCount (nodes_per_page : ℕ) : ℕ := (base.size + nodes_per_page - 1) / nodes_per_page

def recordsOffset : ℕ := alignUp (kRecordsOffset + base.size * 4) config.page_size

/-- `static_cast<std::uint32_t>`, as it is written. -/
def word (value : ℕ) : ℕ × ℕ := (4, value % 2 ^ 32)

def headerFields (nodes_per_page : ℕ) : List (ℕ × ℕ) :=
  [(8, base.size), word base.dim, word config.degree, word config.page_size,
    (8, recordsOffset base config % 2 ^ 64), (8, kRecordsOffset),
    (8, pageCount base nodes_per_page % 2 ^ 64), word nodes_per_page,
    word (pqCodeBytes config.pq_model)]

def header (nodes_per_page : ℕ) : Bytes :=
  kPackedMagic ++ (Codec.putFields [(4, kPackedVersion)] ++
    Codec.putFields (headerFields base config nodes_per_page))

def writePages (order : List NodeId) (nodes_per_page : ℕ) (file : Bytes) : Except Fault Bytes :=
  (List.range (pageCount base nodes_per_page)).foldlM (fun file page_id => do
    let page ← encodePackedPage base graph order config.pq_model config.degree nodes_per_page
      config.page_size (UInt32.ofNat page_id)
    return file ++ page) file

/-- The builder behind `build_graph`. -/
def build : Except Fault Bytes := do
  let nodes_per_page ← acceptConfig base config
  let order ← (packedOrder ops double random base graph config nodes_per_page).mapError Fault.thrown
  throwFault (order.length ≠ base.size) "Packed order does not cover all nodes"
  throwFault (2 ^ 32 - 1 < pageCount base nodes_per_page) "Too many packed pages for V2 directory"
  let node_to_page ← directory base order nodes_per_page
  let header := header base config nodes_per_page
  throwFault (kRecordsOffset < header.length) "Packed graph header exceeds reserved header page"
  let file := header ++ List.replicate (kRecordsOffset - header.length) 0 ++
    node_to_page.flatMap wordBytes
  throwFault (recordsOffset base config < file.length)
    "Packed graph directory exceeds records offset"
  writePages base graph config order nodes_per_page
    (file ++ List.replicate (recordsOffset base config - file.length) 0)

end Building

end PackedDiskGraphBuilder

/-- `DiskGraphMetadata` with the fields that the decoder does not use. -/
structure PackedIndexMetadata extends DiskGraphMetadata where
  vector_count : ℕ
  page_size : ℕ
  records_offset : ℕ
  directory_offset : ℕ
  page_count : ℕ

structure PackedDiskGraphIndex where
  metadata : PackedIndexMetadata
  node_to_page : List UInt32
  /-- The bytes of the file behind the page reader. -/
  file : Bytes

namespace PackedDiskGraphIndex

/-- `read_value` for all fields behind the version. -/
def readMetadata (bytes : Bytes) : Except Fault PackedIndexMetadata :=
  match Codec.readFields [8, 4, 4, 4, 8, 8, 8, 4, 4] bytes with
  | some ([vector_count, dim, degree, page_size, records_offset, directory_offset, page_count,
      nodes_per_page, neighbor_pq_code_bytes], _) =>
    .ok
      { dim := UInt32.ofNat dim
        degree := UInt32.ofNat degree
        nodes_per_page := UInt32.ofNat nodes_per_page
        neighbor_pq_code_bytes := UInt32.ofNat neighbor_pq_code_bytes
        vector_count := vector_count
        page_size := page_size
        records_offset := records_offset
        directory_offset := directory_offset
        page_count := page_count }
  | _ => .error (.thrown "Failed to read graph index header")

def readVersion (bytes : Bytes) : Except Fault (ℕ × Bytes) :=
  match Codec.readFields [4] bytes with
  | some ([version], rest) => .ok (version, rest)
  | _ => .error (.thrown "Failed to read graph index header")

def readDirectory (file : Bytes) (metadata : PackedIndexMetadata) : Except Fault (List UInt32) :=
  match readAt file metadata.directory_offset (metadata.vector_count * 4) with
  | none => .error (.thrown "Failed to read packed graph directory")
  | some bytes => .ok ((List.range metadata.vector_count).map fun i => wordAt bytes (i * 4))

def checkMetadata (metadata : PackedIndexMetadata) : Except Fault Unit := do
  throwFault (metadata.vector_count = 0 ∨ metadata.dim = 0 ∨ metadata.degree = 0 ∨
      metadata.page_size = 0 ∨ metadata.page_count = 0 ∨ metadata.nodes_per_page = 0)
    "Packed graph index metadata is invalid"
  throwFault (metadata.page_size < recordBytes metadata.dim.toNat metadata.degree.toNat
      metadata.neighbor_pq_code_bytes.toNat)
    "Packed graph node payload exceeds page size"

/-- The constructor. -/
def openIndex (path : String) (file : Bytes) : Except Fault PackedDiskGraphIndex := do
  throwFault (file.take 8 ≠ kPackedMagic) ("Invalid packed graph index magic: " ++ path)
  let (version, rest) ← readVersion (file.drop 8)
  throwFault (version ≠ kPackedVersion) "Unsupported packed graph index version"
  let metadata ← readMetadata rest
  checkMetadata metadata
  throwFault (2 ^ 61 - 1 < metadata.vector_count) "vector::_M_default_append"
  let node_to_page ← readDirectory file metadata
  return ⟨metadata, node_to_page, file⟩

variable (index : PackedDiskGraphIndex)

/-- `page_offset`, in 64 bits. -/
def pageOffset (page_id : UInt32) : ℕ :=
  (index.metadata.records_offset + page_id.toNat * index.metadata.page_size) % 2 ^ 64

/-- The bytes of a page, as any reader finds them; a reader reads a page in one call. -/
def readPage (page_id : UInt32) : Option Bytes :=
  pread index.file (index.pageOffset page_id) index.metadata.page_size

/-- A page is read and decoded. -/
def loadPage (page_id : UInt32) : Option (Except Fault DecodedPage) :=
  (index.readPage page_id).map (decodePackedPage index.metadata.toDiskGraphMetadata page_id)

end PackedDiskGraphIndex
