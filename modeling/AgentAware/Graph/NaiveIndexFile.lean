import AgentAware.Graph.NaiveNodePage
import AgentAware.Graph.PackedIndexRoundTrip

/-!
# The file of a naive index

The naive builder writes a header that fills `kRecordsOffset` bytes and the pages of the nodes in the
order of their ids; there is no directory, since the id of a node is the number of its page. Opening a
file reads the header and checks that a record fits a page, in 64 bits; nothing is checked against the
length of the file. A file may hold anything, so what a read of a node does is decided by its checks.

## Main definitions

- `NaiveDiskGraphBuilder.build` — the builder, for a graph that is given
- `NaiveDiskGraphIndex.openIndex`, `NaiveDiskGraphIndex.readNode` — opening a file, reading a node

## Main results

- `NaiveDiskGraphIndex.decides_readNode` — reading a node of any file
-/

open Graph DiskPageCodec NaiveNodePage

/-- `AMFGV1`. -/
def kNaiveMagic : Bytes := [0x41, 0x4d, 0x46, 0x47, 0x56, 0x31, 0, 0]

def kNaiveVersion : ℕ := 1

namespace NaiveDiskGraphBuilder

section Building

variable {F : Type} (base : VectorSet) (graph : Adjacency) (config : PackedBuildConfig F)

/-- The checks in front of the graph. -/
def acceptConfig : Except Fault Unit := do
  throwFault (base.size = 0) "Cannot build graph index for empty base vectors"
  throwFault (2 ^ 32 - 1 < base.size) "V1 graph index supports at most uint32_t ids"
  throwFault (config.degree = 0) "Graph degree must be positive"
  throwFault (config.page_size < kRecordsOffset) "Page size must be at least 4096 bytes in V1"
  throwFault (0 < pqCodeBytes config.pq_model ∧
      (config.pq_model.map PQEncoder.vectorCount).getD 0 < base.size)
    "PQ model does not cover graph base vectors"
  throwFault (config.page_size < recordBytes base.dim config.degree (pqCodeBytes config.pq_model))
    "Node record does not fit in configured page size"

def headerFields : List (ℕ × ℕ) :=
  [(8, base.size), PackedDiskGraphBuilder.word base.dim, PackedDiskGraphBuilder.word config.degree,
    PackedDiskGraphBuilder.word config.page_size, (8, kRecordsOffset),
    PackedDiskGraphBuilder.word (pqCodeBytes config.pq_model)]

def header : Bytes :=
  kNaiveMagic ++ (Codec.putFields [(4, kNaiveVersion)] ++ Codec.putFields (headerFields base config))

def writePages (file : Bytes) : Except Fault Bytes :=
  (List.range base.size).foldlM (fun file i => do
    let page ← encodeNode base graph config.pq_model config.degree config.page_size i
    return file ++ page) file

/-- The builder behind `build_graph`. -/
def build : Except Fault Bytes := do
  acceptConfig base config
  let header := header base config
  throwFault (kRecordsOffset < header.length) "Graph header exceeds reserved header page"
  writePages base graph config (header ++ List.replicate (kRecordsOffset - header.length) 0)

end Building

end NaiveDiskGraphBuilder

structure NaiveDiskGraphIndex where
  metadata : PackedIndexMetadata
  /-- The bytes of the file behind the page reader. -/
  file : Bytes

namespace NaiveDiskGraphIndex

/-- `read_value` for all fields behind the version; there are as many pages as nodes. -/
def readMetadata (bytes : Bytes) : Except Fault PackedIndexMetadata :=
  match Codec.readFields [8, 4, 4, 4, 8, 4] bytes with
  | some ([vector_count, dim, degree, page_size, records_offset, neighbor_pq_code_bytes], _) =>
    .ok
      { dim := UInt32.ofNat dim
        degree := UInt32.ofNat degree
        nodes_per_page := 1
        neighbor_pq_code_bytes := UInt32.ofNat neighbor_pq_code_bytes
        vector_count := vector_count
        page_size := page_size
        records_offset := records_offset
        directory_offset := 0
        page_count := vector_count }
  | _ => .error (.thrown "Failed to read graph index header")

def checkMetadata (metadata : PackedIndexMetadata) : Except Fault Unit := do
  throwFault (metadata.vector_count = 0 ∨ metadata.dim = 0 ∨ metadata.degree = 0 ∨
      metadata.page_size = 0)
    "Graph index metadata is invalid"
  throwFault (metadata.page_size < recordBytes metadata.dim.toNat metadata.degree.toNat
      metadata.neighbor_pq_code_bytes.toNat)
    "Graph index record is larger than page size"

/-- The constructor. -/
def openIndex (path : String) (file : Bytes) : Except Fault NaiveDiskGraphIndex := do
  throwFault (file.take 8 ≠ kNaiveMagic) ("Invalid graph index magic: " ++ path)
  let (version, rest) ← PackedDiskGraphIndex.readVersion (file.drop 8)
  throwFault (version ≠ kNaiveVersion) "Unsupported graph index version"
  let metadata ← readMetadata rest
  checkMetadata metadata
  return ⟨metadata, file⟩

variable (index : NaiveDiskGraphIndex)

/-- Where the page of a node starts, in 64 bits. -/
def nodeOffset (id : NodeId) : ℕ :=
  (index.metadata.records_offset + id.toNat * index.metadata.page_size) % 2 ^ 64

/-- `AsyncPageReader::read`, with the prefix of what it throws. -/
def readPage (id : NodeId) : Except Fault Bytes :=
  match pread index.file (index.nodeOffset id) index.metadata.page_size with
  | none => .error (.thrown "Graph page read failed: ")
  | some page => .ok page

def readNode (id : NodeId) : Except Fault DiskPageCodec.DiskNode := do
  throwFault (index.metadata.vector_count ≤ id.toNat) "Graph node id out of range"
  let page ← index.readPage id
  decodeNode index.metadata.toDiskGraphMetadata page id

/-- What a read of a node returns at: the id is one of the index, the file has its page and one read
transfers it, the page is that of the node, and the degree is one that the index has. The ids of the
neighbours are not checked. -/
def Stores (id : NodeId) : Prop :=
  id.toNat < index.metadata.vector_count ∧
    (index.metadata.page_size ≤ maxTransfer ∧
      index.nodeOffset id + index.metadata.page_size ≤ index.file.length) ∧
    wordAt index.file (index.nodeOffset id) = id ∧
    wordAt index.file (index.nodeOffset id + 4) ≤ index.metadata.degree

instance Stores.decidable (id : NodeId) : Decidable (index.Stores id) :=
  inferInstanceAs (Decidable (_ ∧ (_ ∧ _) ∧ _ ∧ _))

section Opening

variable {index : NaiveDiskGraphIndex} {path : String} {file : Bytes}

theorem openIndex_ok (h : openIndex path file = .ok index) :
    index.file = file ∧ index.metadata.page_size < 2 ^ 32 ∧
      recordBytes index.metadata.dim.toNat index.metadata.degree.toNat
        index.metadata.neighbor_pq_code_bytes.toNat ≤ index.metadata.page_size := by
  rw [openIndex, throwFault_bind_eq_ok] at h
  obtain ⟨_, h⟩ := h
  rw [except_bind_eq_ok] at h
  obtain ⟨⟨version, rest⟩, _, h⟩ := h
  rw [throwFault_bind_eq_ok] at h
  obtain ⟨_, h⟩ := h
  rw [except_bind_eq_ok] at h
  obtain ⟨metadata, hmetadata, h⟩ := h
  rw [except_bind_eq_ok] at h
  obtain ⟨_, hcheck, h⟩ := h
  cases h
  rw [checkMetadata, throwFault_bind_eq_ok] at hcheck
  have hrecord : ¬metadata.page_size < recordBytes metadata.dim.toNat metadata.degree.toNat
      metadata.neighbor_pq_code_bytes.toNat := by
    intro hlarge
    rw [throwFault, if_pos hlarge] at hcheck
    cases hcheck.2
  refine ⟨rfl, ?_, not_lt.mp hrecord⟩
  rw [readMetadata] at hmetadata
  split at hmetadata
  · next hread =>
    cases hmetadata
    exact (Codec.putFields_of_readFields hread).2.1 (4, _)
      (List.mem_cons_of_mem _ (List.mem_cons_of_mem _ (List.mem_cons_of_mem _ List.mem_cons_self)))
  · cases hmetadata

theorem wordAt_slice {offset count place : ℕ} (h : place + 4 ≤ count) :
    wordAt (slice file offset count) place = wordAt file (offset + place) := by
  rw [wordAt, wordAt, slice, List.drop_take, List.take_take, List.drop_drop, Nat.min_eq_left (by omega)]

/-- Whatever a file holds, reading a node of an index that opened returns exactly when the file stores
the node, otherwise it throws; what it returns is well formed. A record size that wraps around in 64
bits would pass the check of the constructor. -/
theorem decides_readNode (hopen : openIndex path file = .ok index)
    (hrecord : nodeBytes index.metadata.toDiskGraphMetadata < 2 ^ 64) (id : NodeId) :
    Decides Thrown (index.Stores id) (index.readNode id)
      (WellFormedNode index.metadata.toDiskGraphMetadata id) := by
  obtain ⟨_, hsize, hfits⟩ := openIndex_ok hopen
  have hbytes : nodeBytes index.metadata.toDiskGraphMetadata ≤ index.metadata.page_size := by
    rw [nodeBytes] at hrecord ⊢
    rwa [recordBytes, Nat.mod_eq_of_lt hrecord] at hfits
  have hheader : 8 ≤ index.metadata.page_size := by
    rw [nodeBytes_eq, codesStart, neighborsStart] at hbytes
    omega
  refine Decides.iff (c := ¬index.metadata.vector_count ≤ id.toNat ∧
    (index.metadata.page_size ≤ maxTransfer ∧
      index.nodeOffset id + index.metadata.page_size ≤ index.file.length) ∧
    wordAt (slice index.file (index.nodeOffset id) index.metadata.page_size) 0 = id ∧
    nodeDegree (slice index.file (index.nodeOffset id) index.metadata.page_size) ≤
      index.metadata.degree) ?_ ?_
  · refine (decides_throwFault _ _).bind fun _ _ => ?_
    have hread : Decides Thrown (index.metadata.page_size ≤ maxTransfer ∧
          index.nodeOffset id + index.metadata.page_size ≤ index.file.length) (index.readPage id)
        fun page => page = slice index.file (index.nodeOffset id) index.metadata.page_size ∧
          page.length = index.metadata.page_size := by
      rw [readPage]
      constructor
      · rintro ⟨hpage, hin⟩
        rw [pread_eq_readAt hpage (by omega), readAt, if_pos hin]
        exact Returns.pure ⟨rfl, length_slice hin⟩
      · intro hout
        have hnone : pread index.file (index.nodeOffset id) index.metadata.page_size = none := by
          by_cases hpage : index.metadata.page_size ≤ maxTransfer
          · exact pread_eq_none (not_le.mp fun hin => hout ⟨hpage, hin⟩) (by omega)
          · exact pread_eq_none_of_large (not_le.mp hpage)
        rw [hnone]
        exact ⟨_, rfl, _, rfl⟩
    refine hread.bind fun page hpage => ?_
    obtain ⟨hslice, hlength⟩ := hpage
    rw [← hslice]
    have hroom : nodeBytes index.metadata.toDiskGraphMetadata ≤ page.length := by
      rwa [hlength]
    have hdecodes := decides_decodeNode hroom (by omega) id
    constructor
    · intro haccepted
      refine (hdecodes.returns haccepted).mono ?_
      rintro _ rfl
      have hformed := wellFormed_nodeOf hroom haccepted.2
      rwa [haccepted.1] at hformed
    · exact hdecodes.fails
  · rw [Stores, not_le, nodeDegree, wordAt_slice (by omega), wordAt_slice (by omega), Nat.add_zero]

end Opening

/-- An index of two nodes, the second of which was damaged: its page says another id. -/
theorem decides_readNode_two :
    let file : Bytes := kNaiveMagic ++ Codec.putFields [(4, 1), (8, 2), (4, 1), (4, 1), (4, 16),
      (8, 44), (4, 0)] ++ Codec.putFields [(4, 0), (4, 1), (4, 7), (4, 1)] ++
      Codec.putFields [(4, 5), (4, 1), (4, 9), (4, 0)]
    let index : NaiveDiskGraphIndex :=
      { metadata :=
          { dim := 1
            degree := 1
            nodes_per_page := 1
            neighbor_pq_code_bytes := 0
            vector_count := 2
            page_size := 16
            records_offset := 44
            directory_offset := 0
            page_count := 2 }
        file := file }
    openIndex "index" file = .ok index ∧
      (∃ node, index.readNode 0 = .ok node ∧
        WellFormedNode index.metadata.toDiskGraphMetadata 0 node) ∧
      ∃ fault, index.readNode 1 = .error fault ∧ Thrown fault := by
  intro file index
  have hopen : openIndex "index" file = .ok index := rfl
  have hrecord : nodeBytes index.metadata.toDiskGraphMetadata < 2 ^ 64 := by decide
  refine ⟨hopen, ?_, ?_⟩
  · exact (decides_readNode hopen hrecord 0).returns (by decide +kernel)
  · exact (decides_readNode hopen hrecord 1).fails (by decide +kernel)

end NaiveDiskGraphIndex
