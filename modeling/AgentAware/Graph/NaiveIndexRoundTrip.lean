import AgentAware.Graph.NaiveIndexFile

/-!
# Building and opening a naive index

A configuration that the builder accepts gives a file that opens, and reading a node of the file gives
the vector, the neighbours and the codes of the node, in the order of the graph. As for the packed
index this needs a page size that one read transfers and a record size that does not wrap around in 64
bits.

## Main definitions

- `nodeSource`, `fileOf` — the page of a node, and the file
- `storedNode` — a node as it was given

## Main results

- `returns_build`, `openIndex_fileOf`, `readNode_fileOf` — the steps
- `naiveBuild_roundTrip` — the round trip
-/

open Graph DiskPageCodec NaiveNodePage

namespace NaiveDiskGraphBuilder

variable {F : Type}

/-- The builder accepts a configuration, and the sizes that it computes do not wrap around. -/
structure Accepted (base : VectorSet) (config : PackedBuildConfig F) : Prop where
  size_pos : 0 < base.size
  size_le : base.size ≤ 2 ^ 32 - 1
  degree_pos : 0 < config.degree
  page_size_le : kRecordsOffset ≤ config.page_size
  covered : ¬(0 < pqCodeBytes config.pq_model ∧
    (config.pq_model.map PQEncoder.vectorCount).getD 0 < base.size)
  fits : graphRecordBytes base.dim config.degree (pqCodeBytes config.pq_model) ≤ config.page_size

theorem acceptConfig_ok {base : VectorSet} {config : PackedBuildConfig F}
    (h : acceptConfig base config = .ok ())
    (hrecord : graphRecordBytes base.dim config.degree (pqCodeBytes config.pq_model) < 2 ^ 64) :
    Accepted base config := by
  simp only [acceptConfig, throwFault_bind_eq_ok] at h
  obtain ⟨hsize, hids, hdegree, hpage, hmodel, h⟩ := h
  have hfits : ¬config.page_size < recordBytes base.dim config.degree
      (pqCodeBytes config.pq_model) := by
    intro hlarge
    rw [throwFault, if_pos hlarge] at h
    cases h
  rw [recordBytes, Nat.mod_eq_of_lt hrecord, not_lt] at hfits
  exact ⟨Nat.pos_of_ne_zero hsize, not_lt.mp hids, Nat.pos_of_ne_zero hdegree, not_lt.mp hpage,
    hmodel, hfits⟩

/-- With eight more bytes for its header, a page of one node fits the packed layout. -/
theorem Accepted.packed {base : VectorSet} {config : PackedBuildConfig F}
    (h : Accepted base config) :
    PackedDiskGraphBuilder.Accepted base { config with page_size := config.page_size + 8 } 1 where
  size_pos := h.size_pos
  size_le := h.size_le
  degree_pos := h.degree_pos
  page_size_le := h.page_size_le.trans (Nat.le_add_right _ 8)
  covered := h.covered
  nodes_pos := Nat.one_pos
  fits := by
    rw [Nat.one_mul, Nat.add_comm]
    exact Nat.add_le_add_right h.fits 8

section Pages

variable (base : VectorSet) (graph : Adjacency) (config : PackedBuildConfig F)

/-- The page of a node in the packed layout. -/
def nodeSource (i : ℕ) : PageSource :=
  { page_id := 0
    node_count := 1
    id := fun _ => nodeId i
    row := fun _ => base.row i
    neighbors := fun _ => neighborsOf graph i
    codes := PackedDiskGraphBuilder.modelCode config }

/-- A page of the file. -/
def pageBytesOf (i : ℕ) : Bytes :=
  nodePage (nodeSource base graph config i) base.dim config.degree (pqCodeBytes config.pq_model) ++
    List.replicate (config.page_size -
      graphRecordBytes base.dim config.degree (pqCodeBytes config.pq_model)) 0

/-- What stands in front of the pages. -/
def head : Bytes :=
  header base config ++ List.replicate (kRecordsOffset - (header base config).length) 0

/-- The file that is built. -/
def fileOf : Bytes := head base config ++ table (pageBytesOf base graph config) base.size

/-- The metadata that is read back from the header. -/
def metadataOf : PackedIndexMetadata :=
  { dim := UInt32.ofNat (base.dim % 2 ^ 32)
    degree := UInt32.ofNat (config.degree % 2 ^ 32)
    nodes_per_page := 1
    neighbor_pq_code_bytes := UInt32.ofNat (pqCodeBytes config.pq_model % 2 ^ 32)
    vector_count := base.size
    page_size := config.page_size % 2 ^ 32
    records_offset := kRecordsOffset
    directory_offset := 0
    page_count := base.size }

/-- A node as it was given to the builder. -/
def storedNode (i : ℕ) : DiskPageCodec.DiskNode :=
  { id := nodeId i
    neighbors := neighborsOf graph i
    neighbor_pq_codes :=
      (neighborsOf graph i).flatMap (PackedDiskGraphBuilder.neighborCodes config)
    vector := base.row i }

end Pages

variable {base : VectorSet} {graph : Adjacency} {config : PackedBuildConfig F} {i : ℕ}

section Source

variable (haccepted : Accepted base config)
  (hgraph : PackedDiskGraphBuilder.GraphOver base graph config.degree) (hi : i < base.size)
include haccepted hgraph hi

theorem isNode_nodeSource :
    IsNode (nodeSource base graph config i) base graph config.pq_model i := by
  have hsize := haccepted.size_le
  have hid : (nodeId i).toNat = i := toNat_nodeId (by omega)
  obtain ⟨hneighbors, hmem⟩ := PackedDiskGraphBuilder.neighborsOf_mem hgraph hi
  refine ⟨⟨fun slot hslot => ?_, fun slot hslot => ?_, fun slot hslot => ?_, fun slot hslot => ?_,
    fun slot hslot => ?_, fun model hmodel slot hslot neighbor hneighbor b hb => ?_⟩, rfl, hid⟩
  · rw [Nat.lt_one_iff.mp hslot]
    rfl
  · show graph[(nodeId i).toNat]? = _
    rw [hid]
    exact hneighbors
  · show (nodeId i).toNat < base.size
    rwa [hid]
  · show base.row i = base.row (nodeId i).toNat
    rw [hid]
  · exact PackedDiskGraphBuilder.row_length hi
  · exact PackedDiskGraphBuilder.modelCode_eq haccepted.packed hmodel
      (hgraph.id_lt _ hmem neighbor hneighbor) hb

theorem sound_nodeSource : (nodeSource base graph config i).Sound base.dim config.degree 1 := by
  obtain ⟨_, hmem⟩ := PackedDiskGraphBuilder.neighborsOf_mem hgraph hi
  refine ⟨le_rfl, fun slot _ => PackedDiskGraphBuilder.row_length hi,
    fun slot _ => hgraph.degree_le _ hmem, fun slot _ neighbor hneighbor hnone => ?_⟩
  have hlt := hgraph.id_lt _ hmem neighbor hneighbor
  have hsize := haccepted.size_le
  rw [hnone] at hlt
  have hlast : kNoNeighbor.toNat = 2 ^ 32 - 1 := rfl
  omega

theorem length_pageBytesOf : (pageBytesOf base graph config i).length = config.page_size := by
  rw [pageBytesOf, List.length_append, List.length_replicate,
    length_nodePage (isNode_nodeSource haccepted hgraph hi)]
  exact Nat.add_sub_cancel' haccepted.fits

end Source

theorem length_header (base : VectorSet) (config : PackedBuildConfig F) :
    (header base config).length = 44 := by
  rw [header, List.length_append, List.length_append, Codec.length_putFields,
    Codec.length_putFields]
  rfl

theorem length_head (base : VectorSet) (config : PackedBuildConfig F) :
    (head base config).length = kRecordsOffset := by
  rw [head, List.length_append, List.length_replicate, length_header]
  rfl

/-- An accepted configuration gives a file. -/
theorem returns_build (haccept : acceptConfig base config = .ok ())
    (haccepted : Accepted base config)
    (hgraph : PackedDiskGraphBuilder.GraphOver base graph config.degree) :
    build base graph config = .ok (fileOf base graph config) := by
  have hpages : Returns (writePages base graph config (head base config))
      (· = fileOf base graph config) := by
    refine Returns.foldlM_range (S := fun done written =>
      written = head base config ++ table (pageBytesOf base graph config) done) ?_ ?_
    · rintro i hi _ rfl
      refine Returns.bind (returns_encodeNode (isNode_nodeSource haccepted hgraph hi)
        haccepted.fits) ?_
      rintro _ rfl
      refine Returns.pure ?_
      simp only [table_succ, pageBytesOf.eq_def base graph config i, List.append_assoc]
    · exact (List.append_nil _).symm
  obtain ⟨_, hwritten, rfl⟩ := hpages
  rw [build, except_bind_eq_ok]
  refine ⟨(), haccept, ?_⟩
  rw [throwFault_bind_eq_ok]
  refine ⟨?_, hwritten⟩
  rw [length_header]
  exact of_decide_eq_true rfl

theorem readMetadata_headerFields (hsize : base.size ≤ 2 ^ 32 - 1) (rest : Bytes) :
    NaiveDiskGraphIndex.readMetadata (Codec.putFields (headerFields base config) ++ rest) =
      .ok (metadataOf base config) := by
  have hfit : Codec.FieldsFit (headerFields base config) := by
    have hword : ∀ value : ℕ, (PackedDiskGraphBuilder.word value).2 <
        256 ^ (PackedDiskGraphBuilder.word value).1 := fun value => Nat.mod_lt value (by decide)
    have hcount : base.size < 256 ^ 8 := lt_of_le_of_lt hsize (by decide)
    intro field hfield
    simp only [headerFields, List.mem_cons, List.not_mem_nil, or_false] at hfield
    obtain rfl | rfl | rfl | rfl | rfl | rfl := hfield
    · exact hcount
    · exact hword _
    · exact hword _
    · exact hword _
    · decide
    · exact hword _
  have hread := Codec.readFields_putFields (headerFields base config) hfit rest
  have hwidths : (headerFields base config).map Prod.fst = [8, 4, 4, 4, 8, 4] := rfl
  rw [hwidths] at hread
  rw [NaiveDiskGraphIndex.readMetadata, hread]
  rfl

theorem readVersion_putFields (rest : Bytes) :
    PackedDiskGraphIndex.readVersion (Codec.putFields [(4, kNaiveVersion)] ++ rest) =
      .ok (kNaiveVersion, rest) := by
  have hfit : Codec.FieldsFit [(4, kNaiveVersion)] := by
    intro field hfield
    rw [List.mem_singleton] at hfield
    rw [hfield]
    decide
  have hread := Codec.readFields_putFields [(4, kNaiveVersion)] hfit rest
  have hwidths : [(4, kNaiveVersion)].map Prod.fst = [4] := rfl
  rw [hwidths] at hread
  rw [PackedDiskGraphIndex.readVersion, hread]
  rfl

section Opened

variable (haccepted : Accepted base config) (hpage : config.page_size ≤ maxTransfer)
include haccepted hpage

omit haccepted in
theorem page_size_eq : (metadataOf base config).page_size = config.page_size :=
  Nat.mod_eq_of_lt ((lt_of_le_maxTransfer hpage).trans (by decide))

theorem fits_metadataOf :
    Fits (metadataOf base config).toDiskGraphMetadata base.dim config.degree
      (pqCodeBytes config.pq_model) 1 := by
  have hfits := haccepted.fits
  have hsmall := lt_of_le_maxTransfer hpage
  have hcodes : pqCodeBytes config.pq_model ≤ config.degree * pqCodeBytes config.pq_model :=
    Nat.le_mul_of_pos_left _ haccepted.degree_pos
  have hsum : graphRecordBytes base.dim config.degree (pqCodeBytes config.pq_model) =
      4 * 2 + base.dim * 4 + config.degree * 4 + config.degree * pqCodeBytes config.pq_model := rfl
  have hword : ∀ value : ℕ, value < 2 ^ 32 → (UInt32.ofNat (value % 2 ^ 32)).toNat = value := by
    intro value hvalue
    rw [UInt32.toNat_ofNat']
    omega
  exact ⟨hword _ (by omega), hword _ (by omega), rfl, hword _ (by omega)⟩

theorem checkMetadata_ok :
    NaiveDiskGraphIndex.checkMetadata (metadataOf base config) = .ok () := by
  have hfit := fits_metadataOf haccepted hpage
  have hsize : (metadataOf base config).page_size = config.page_size := page_size_eq hpage
  have hle := haccepted.page_size_le
  have hoffset : kRecordsOffset = 4096 := rfl
  have hdim : base.dim ≠ 0 := by
    intro hzero
    have hcount := haccepted.size_pos
    rw [VectorSet.size, if_pos hzero] at hcount
    exact lt_irrefl 0 hcount
  have hne : ∀ {word : UInt32} {value : ℕ}, word.toNat = value → value ≠ 0 → word ≠ 0 := by
    rintro word value hword hvalue rfl
    exact hvalue (hword.symm.trans rfl)
  rw [NaiveDiskGraphIndex.checkMetadata, throwFault_bind_eq_ok]
  constructor
  · simp only [not_or]
    refine ⟨Nat.ne_of_gt haccepted.size_pos, hne hfit.dim_eq hdim,
      hne hfit.degree_eq (Nat.ne_of_gt haccepted.degree_pos), ?_⟩
    rw [hsize]
    omega
  · refine throwFault_ok (not_lt.mpr ?_)
    rw [hsize, recordBytes, hfit.dim_eq, hfit.degree_eq, hfit.codes_eq]
    exact (Nat.mod_le _ _).trans haccepted.fits

theorem openIndex_fileOf (path : String) :
    NaiveDiskGraphIndex.openIndex path (fileOf base graph config) =
      .ok ⟨metadataOf base config, fileOf base graph config⟩ := by
  obtain ⟨rest, hfile⟩ : ∃ rest, fileOf base graph config =
      kNaiveMagic ++ (Codec.putFields [(4, kNaiveVersion)] ++
        (Codec.putFields (headerFields base config) ++ rest)) := by
    refine ⟨List.replicate (kRecordsOffset - (header base config).length) 0 ++
      table (pageBytesOf base graph config) base.size, ?_⟩
    rw [fileOf, head]
    generalize kRecordsOffset - (header base config).length = padding
    rw [header]
    simp only [List.append_assoc]
  generalize fileOf base graph config = file at hfile ⊢
  have htake : file.take 8 = kNaiveMagic := by
    rw [hfile]
    exact List.take_left' rfl
  have hdrop : file.drop 8 = Codec.putFields [(4, kNaiveVersion)] ++
      (Codec.putFields (headerFields base config) ++ rest) := by
    rw [hfile]
    exact List.drop_left' rfl
  have hversion := readVersion_putFields (Codec.putFields (headerFields base config) ++ rest)
  have hmetadata := @readMetadata_headerFields F base config haccepted.size_le rest
  rw [NaiveDiskGraphIndex.openIndex, throwFault_ok (not_not.mpr htake), hdrop, hversion]
  simp only [bind, Except.bind, hmetadata]
  rw [throwFault_ok (not_not.mpr rfl)]
  simp only [checkMetadata_ok haccepted hpage]
  rfl

/-- Reading a node of the file gives the node. -/
theorem readNode_fileOf (hgraph : PackedDiskGraphBuilder.GraphOver base graph config.degree)
    (hi : i < base.size) :
    NaiveDiskGraphIndex.readNode ⟨metadataOf base config, fileOf base graph config⟩ (nodeId i) =
      .ok (storedNode base graph config i) := by
  have hcount := haccepted.size_le
  have hid : (nodeId i).toNat = i := toNat_nodeId (by omega)
  have hsize : (metadataOf base config).page_size = config.page_size := page_size_eq hpage
  have hrows : ∀ i < base.size, (pageBytesOf base graph config i).length = config.page_size :=
    fun i hi => length_pageBytesOf haccepted hgraph hi
  have hsmall := lt_of_le_maxTransfer hpage
  have hpositive : 0 < config.page_size := by
    have hle := haccepted.page_size_le
    have hstart : kRecordsOffset = 4096 := rfl
    omega
  have hoffset : NaiveDiskGraphIndex.nodeOffset ⟨metadataOf base config, fileOf base graph config⟩
      (nodeId i) = kRecordsOffset + i * config.page_size := by
    have hmul : i * config.page_size ≤ (2 ^ 32 - 2) * (2 ^ 32 - 1) :=
      Nat.mul_le_mul (by omega) (by omega)
    have hstart : kRecordsOffset = 4096 := rfl
    rw [NaiveDiskGraphIndex.nodeOffset, hsize, hid]
    change (kRecordsOffset + i * config.page_size) % 2 ^ 64 = _
    exact Nat.mod_eq_of_lt (by omega)
  have hfile : (fileOf base graph config).length =
      kRecordsOffset + base.size * config.page_size := by
    rw [fileOf, List.length_append, length_head, length_table hrows]
  have hend : (i + 1) * config.page_size ≤ base.size * config.page_size :=
    Nat.mul_le_mul_right _ hi
  rw [Nat.succ_mul] at hend
  have hread : NaiveDiskGraphIndex.readPage ⟨metadataOf base config, fileOf base graph config⟩
      (nodeId i) = .ok (pageBytesOf base graph config i) := by
    have hslice := @slice_table _ (pageBytesOf base graph config) config.page_size base.size i 0
      config.page_size hrows hi (Nat.zero_add _).le
    have hall := slice_zero_length (pageBytesOf base graph config i)
    rw [hrows i hi] at hall
    have hin : kRecordsOffset + i * config.page_size + config.page_size ≤
        (fileOf base graph config).length := by omega
    rw [NaiveDiskGraphIndex.readPage, hoffset, hsize, pread_eq_readAt hpage hpositive, readAt,
      if_pos hin]
    refine congrArg Except.ok ?_
    show slice _ (kRecordsOffset + (i * config.page_size + 0)) config.page_size = _
    rw [fileOf, slice_skip (length_head base config), hslice, hall]
  have hfits := fits_metadataOf haccepted hpage
  have hsound := sound_nodeSource haccepted hgraph hi
  obtain ⟨hdegree, hnode⟩ := @nodeOf_nodePage _ _ _ _ _ (List.replicate (config.page_size -
    graphRecordBytes base.dim config.degree (pqCodeBytes config.pq_model)) 0) hfits hsound
    Nat.zero_lt_one
  have hbytes : nodeBytes (metadataOf base config).toDiskGraphMetadata ≤
      (pageBytesOf base graph config i).length := by
    rw [hrows i hi, nodeBytes, hfits.dim_eq, hfits.degree_eq, hfits.codes_eq]
    exact haccepted.fits
  have hdecides := decides_decodeNode hbytes (by rw [hrows i hi]; omega) (nodeId i)
  have hstored : nodeOf (metadataOf base config).toDiskGraphMetadata (pageBytesOf base graph config i) =
      storedNode base graph config i := by
    rw [pageBytesOf, hnode, storedNode]
    congr 1
    refine List.flatMap_congr fun neighbor hneighbor => List.map_congr_left fun b _ => ?_
    exact if_pos (hsound.neighbor_ne 0 Nat.zero_lt_one neighbor hneighbor)
  have hpage_id : wordAt (pageBytesOf base graph config i) 0 = nodeId i :=
    congrArg DiskPageCodec.DiskNode.id hstored
  obtain ⟨node, hdecoded, rfl⟩ := hdecides.returns ⟨hpage_id, hdegree⟩
  rw [NaiveDiskGraphIndex.readNode, throwFault_ok (by rw [hid]; exact not_le.mpr hi)]
  simp only [bind, Except.bind, hread]
  rw [hdecoded, hstored]

end Opened

/-- A graph that is built and opened again is the graph that was given, and holds nothing else. -/
structure RoundTrip (base : VectorSet) (graph : Adjacency) (config : PackedBuildConfig F)
    (index : NaiveDiskGraphIndex) : Prop where
  vector_count_eq : index.metadata.vector_count = base.size
  stored : ∀ i < base.size, index.readNode (nodeId i) = .ok (storedNode base graph config i)
  refused : ∀ id : NodeId, base.size ≤ id.toNat →
    index.readNode id = .error (.thrown "Graph node id out of range")

theorem roundTrip_fileOf (haccepted : Accepted base config) (hpage : config.page_size ≤ maxTransfer)
    (hgraph : PackedDiskGraphBuilder.GraphOver base graph config.degree) :
    RoundTrip base graph config ⟨metadataOf base config, fileOf base graph config⟩ := by
  refine ⟨rfl, fun i hi => readNode_fileOf haccepted hpage hgraph hi, fun id hid => ?_⟩
  have hfault : throwFault (base.size ≤ id.toNat) "Graph node id out of range" =
      .error (.thrown "Graph node id out of range") := if_pos hid
  show (throwFault (base.size ≤ id.toNat) _ >>= _) = _
  rw [hfault]
  rfl

/-- A configuration that is accepted, and whose page and record sizes do not exceed their types, gives
a file that opens and holds every node as it was given. -/
theorem naiveBuild_roundTrip (hgraph : PackedDiskGraphBuilder.GraphOver base graph config.degree)
    (haccept : acceptConfig base config = .ok ()) (hpage : config.page_size ≤ maxTransfer)
    (hrecord : graphRecordBytes base.dim config.degree (pqCodeBytes config.pq_model) < 2 ^ 64)
    (path : String) :
    ∃ file index, build base graph config = .ok file ∧
      NaiveDiskGraphIndex.openIndex path file = .ok index ∧ RoundTrip base graph config index := by
  have haccepted := acceptConfig_ok haccept hrecord
  exact ⟨_, _, returns_build haccept haccepted hgraph, openIndex_fileOf haccepted hpage path,
    roundTrip_fileOf haccepted hpage hgraph⟩

/-- A graph in which one node has no neighbours. -/
theorem graphOver_pair :
    PackedDiskGraphBuilder.GraphOver { dim := 1, values := [4, 9] } [[1], []] 2 := by
  refine ⟨by decide, fun neighbors hneighbors id hid => ?_, fun neighbors hneighbors => ?_⟩
  · simp only [List.mem_cons, List.not_mem_nil, or_false] at hneighbors
    obtain rfl | rfl := hneighbors
    · rw [List.mem_singleton.mp hid]
      decide
    · exact absurd hid List.not_mem_nil
  · simp only [List.mem_cons, List.not_mem_nil, or_false] at hneighbors
    obtain rfl | rfl := hneighbors
    · decide
    · decide

/-- Two nodes whose vectors are coded by a byte each. -/
theorem naiveBuild_roundTrip_pair :
    let base : VectorSet := { dim := 1, values := [4, 9] }
    let config : PackedBuildConfig ℕ :=
      { degree := 2
        pq_model := some { subspaces := 1, centroids := 2, dim := 1, offsets := [0, 1],
                           codebooks := [4, 9], codes := [0, 1] } }
    ∃ file index, build base [[1], []] config = .ok file ∧
      NaiveDiskGraphIndex.openIndex "index" file = .ok index ∧
      index.readNode 0 = .ok { id := 0, neighbors := [1], neighbor_pq_codes := [1], vector := [4] } := by
  intro base config
  obtain ⟨file, index, hbuild, hopen, hround⟩ := @naiveBuild_roundTrip _ base [[1], []] config
    graphOver_pair (by decide +kernel) (by decide) (by decide +kernel) "index"
  refine ⟨file, index, hbuild, hopen, (hround.stored 0 (by decide)).trans ?_⟩
  decide +kernel

end NaiveDiskGraphBuilder
