import AgentAware.Storage.DiskRecord

/-!
# Writing and reading a disk index

The writer truncates its file, writes the header page, and then writes the page of a node to the
slot of its id. The reader checks the header when it opens the file, and checks what it decodes
against the id it was asked for and against the header.

A page is written and read whole, and input and output do not fail; with `O_DIRECT` the bytes are the
same ones.

## Main definitions

- `DiskIndexWriter`, `DiskIndexReader` — the state of each, with the bytes of the file
- `DiskIndexWriter.writeNodes` — a sequence of calls of `write_node`, accepted or not

## Main results

- `readNode_reopened` — a reader that opens what was written
-/

namespace Storage

structure DiskIndexWriter where
  path : String
  dim : UInt32
  max_degree : UInt32
  header_written : Bool := false
  closed : Bool := false
  header : IndexFileHeader := {}
  /-- The bytes of the file. -/
  file : Bytes := []

/-- The arguments of `write_node`; `vector` points to `dim` floats. -/
structure NodeWrite where
  node_id : NodeId
  dim : UInt32
  vector : List FloatBits
  neighbors : List NodeId
  neighbor_pq_codes : Bytes := []
  neighbor_pq_code_bytes : UInt16 := 0
  length_vector : vector.length = dim.toNat
  deriving DecidableEq

/-- The constructor: the file is created or truncated. -/
def DiskIndexWriter.create (path : String) (dim max_degree : UInt32) :
    Except String DiskIndexWriter := do
  validateDiskRecordShape dim max_degree 0
  return { path, dim, max_degree }

def DiskIndexWriter.writePageAt (writer : DiskIndexWriter) (buffer : Bytes) (offset : UInt64) :
    DiskIndexWriter :=
  { writer with file := pwrite writer.file offset.toNat buffer }

def DiskIndexWriter.writeHeader (writer : DiskIndexWriter) (num_nodes entry_node : UInt64) :
    Except String DiskIndexWriter := do
  throwIf (writer.closed = true) "Cannot write to closed disk index writer"
  let header ← makeIndexFileHeader writer.dim writer.max_degree num_nodes entry_node
  let writer := { writer with header }
  let writer := writer.writePageAt header.toPage 0
  return { writer with header_written := true }

def DiskIndexWriter.writeNode (writer : DiskIndexWriter) (call : NodeWrite) :
    Except String DiskIndexWriter := do
  throwIf (writer.closed = true) "Cannot write to closed disk index writer"
  throwIf (writer.header_written = false) "Disk index header must be written before records"
  throwIf (call.dim ≠ writer.dim) "Disk node dimension does not match index header"
  throwIf (writer.max_degree.toNat < call.neighbors.length)
    "Disk node degree exceeds index max_degree"
  let page ← encodeNodeRecord call.node_id call.vector call.dim call.neighbors kDiskIndexPageSize
    call.neighbor_pq_codes call.neighbor_pq_code_bytes
  let offset ← diskRecordOffset call.node_id writer.header
  return writer.writePageAt page offset

def DiskIndexWriter.close (writer : DiskIndexWriter) : DiskIndexWriter :=
  { writer with closed := true }

/-- Calls of `write_node`, one after the other: the writer in the end, and the calls that were
accepted. A call that throws changes nothing. -/
def DiskIndexWriter.writeNodes (writer : DiskIndexWriter) :
    List NodeWrite → DiskIndexWriter × List NodeWrite
  | [] => (writer, [])
  | call :: calls =>
    match writer.writeNode call with
    | .error _ => writer.writeNodes calls
    | .ok next =>
      let (last, accepted) := next.writeNodes calls
      (last, call :: accepted)

structure DiskIndexReader where
  path : String
  closed : Bool := false
  header : IndexFileHeader
  /-- The bytes of the file. -/
  file : Bytes

def readPageAt (path : String) (file : Bytes) (offset : UInt64) : Except String Bytes :=
  match readAt file offset.toNat kDiskIndexPageSize with
  | some page => .ok page
  | none => .error ("Short read while reading disk index: " ++ path)

/-- The constructor. -/
def DiskIndexReader.create (path : String) (file : Bytes) : Except String DiskIndexReader := do
  let page ← readPageAt path file 0
  let header := IndexFileHeader.ofPage page
  validateIndexFileHeader header
  return { path, header, file }

def DiskIndexReader.readNodeInto (reader : DiskIndexReader) (node_id : NodeId) :
    Except String Bytes := do
  throwIf (reader.closed = true) "Cannot read from closed disk index reader"
  let offset ← diskRecordOffset node_id reader.header
  readPageAt reader.path reader.file offset

def DiskIndexReader.readNode (reader : DiskIndexReader) (node_id : NodeId) :
    Except String NodeRecord := do
  let page ← reader.readNodeInto node_id
  let record ← decodeNodeRecord page
  throwIf (record.node_id ≠ node_id) "Disk node id does not match requested offset"
  throwIf (record.dim.toUInt32 ≠ reader.header.dim) "Disk node dimension does not match header"
  throwIf (reader.header.max_degree < record.degree.toUInt32)
    "Disk node degree exceeds header max_degree"
  return record

/-- The record a call writes. -/
def NodeWrite.record (call : NodeWrite) : NodeRecord :=
  recordOf call.node_id call.vector call.neighbors call.neighbor_pq_codes
    call.neighbor_pq_code_bytes

/-- The last call for a node. -/
def lastWrite (calls : List NodeWrite) (node_id : NodeId) : Option NodeWrite :=
  (calls.filter fun call => call.node_id = node_id).getLast?

/-! ### The header of an open file -/

/-- A header both sides accept. -/
structure IndexFileHeader.Valid (header : IndexFileHeader) : Prop where
  magic : header.magic = kDiskIndexFileMagic
  version : header.version = kDiskIndexVersion
  record_size : header.record_size = UInt64.ofNat kDiskIndexPageSize
  header_size : header.header_size = UInt64.ofNat kDiskIndexPageSize
  shape : FitsPage header.dim.toNat header.max_degree.toNat 0
  entry : ¬(0 < header.num_nodes ∧ header.num_nodes ≤ header.entry_node)

theorem validateIndexFileHeader_eq_ok {header : IndexFileHeader} :
    validateIndexFileHeader header = .ok () ↔ header.Valid := by
  rw [validateIndexFileHeader, throwIf_bind_eq_ok, throwIf_bind_eq_ok, throwIf_bind_eq_ok,
    unit_bind_eq_ok, validateDiskRecordShape_eq_ok, throwIf_eq_ok, not_not, not_not, not_or,
    not_not, not_not]
  exact ⟨fun ⟨h1, h2, ⟨h3, h4⟩, h5, h6⟩ => ⟨h1, h2, h3, h4, h5, h6⟩,
    fun h => ⟨h.magic, h.version, ⟨h.record_size, h.header_size⟩, h.shape, h.entry⟩⟩

theorem makeIndexFileHeader_eq_ok {dim max_degree : UInt32} {num_nodes entry_node : UInt64}
    {header : IndexFileHeader}
    (h : makeIndexFileHeader dim max_degree num_nodes entry_node = .ok header) :
    header.Valid ∧ header = { dim, max_degree, num_nodes, entry_node } := by
  rw [makeIndexFileHeader, unit_bind_eq_ok, validateDiskRecordShape_eq_ok, throwIf_bind_eq_ok] at h
  obtain ⟨hshape, hentry, hheader⟩ := h
  cases hheader
  exact ⟨⟨rfl, rfl, rfl, rfl, hshape, hentry⟩, rfl⟩

section Offset

variable {header : IndexFileHeader} {node_id : NodeId}

theorem diskRecordOffset_of_lt (hvalid : header.Valid)
    (hin : node_id.toNat < header.num_nodes.toNat) :
    ∃ offset, diskRecordOffset node_id header = .ok offset ∧
      offset.toNat = (node_id.toNat + 1) * kDiskIndexPageSize := by
  have hid := node_id.toNat_lt
  refine ⟨header.header_size + node_id.toUInt64 * header.record_size, ?_, ?_⟩
  · rw [diskRecordOffset, unit_bind_eq_ok, validateIndexFileHeader_eq_ok]
    refine ⟨hvalid, ?_⟩
    rw [throwIf_bind_eq_ok, UInt64.le_iff_toNat_le, UInt32.toNat_toUInt64]
    refine ⟨not_le.mpr hin, ?_⟩
    dsimp only
    rw [throwIf_bind_eq_ok, hvalid.header_size, hvalid.record_size]
    refine ⟨?_, rfl⟩
    rintro ⟨-, hover⟩
    rw [UInt64.lt_iff_toNat_lt, UInt32.toNat_toUInt64] at hover
    have hlimit : ((0xffffffffffffffff - UInt64.ofNat kDiskIndexPageSize) /
        UInt64.ofNat kDiskIndexPageSize).toNat = 4503599627370494 := by decide
    omega
  · have hsize : (UInt64.ofNat kDiskIndexPageSize).toNat = 4096 := by decide
    rw [hvalid.header_size, hvalid.record_size, UInt64.toNat_add, UInt64.toNat_mul,
      UInt32.toNat_toUInt64, hsize, kDiskIndexPageSize]
    omega

theorem diskRecordOffset_of_le (hout : header.num_nodes.toNat ≤ node_id.toNat) (offset : UInt64) :
    diskRecordOffset node_id header ≠ .ok offset := by
  intro h
  rw [diskRecordOffset, unit_bind_eq_ok, throwIf_bind_eq_ok, UInt64.le_iff_toNat_le,
    UInt32.toNat_toUInt64] at h
  exact h.2.1 hout

end Offset

/-! ### The file that is written -/

section Writes

variable {writer next : DiskIndexWriter} {call : NodeWrite}

/-- The page of a call, with its slot: the header is in slot 0. -/
def NodeWrite.page (call : NodeWrite) : ℕ × Bytes :=
  (call.node_id.toNat + 1, recordPage call.node_id call.vector call.dim call.neighbors
    call.neighbor_pq_codes call.neighbor_pq_code_bytes)

/-- The calls a writer with a header accepts. -/
structure NodeWrite.Accepted (header : IndexFileHeader) (call : NodeWrite) : Prop where
  dim : call.dim = header.dim
  degree : call.neighbors.length ≤ header.max_degree.toNat
  fits : FitsPage call.vector.length call.neighbors.length call.neighbor_pq_code_bytes
  codes : call.neighbor_pq_codes.length =
    call.neighbors.length * call.neighbor_pq_code_bytes.toNat
  node_id : call.node_id.toNat < header.num_nodes.toNat

/-- A writer between its header and its `close`. -/
structure DiskIndexWriter.Writing (writer : DiskIndexWriter) : Prop where
  closed : writer.closed = false
  header_written : writer.header_written = true
  valid : writer.header.Valid
  dim : writer.header.dim = writer.dim
  max_degree : writer.header.max_degree = writer.max_degree

/-- One accepted call writes one page. -/
theorem writeNode_eq_ok (hwriter : writer.Writing) (h : writer.writeNode call = .ok next) :
    call.Accepted writer.header ∧
      next = { writer with
        file := pwrite writer.file (call.page.1 * kDiskIndexPageSize) call.page.2 } := by
  rw [DiskIndexWriter.writeNode, throwIf_bind_eq_ok, throwIf_bind_eq_ok, throwIf_bind_eq_ok,
    throwIf_bind_eq_ok, except_bind_eq_ok] at h
  obtain ⟨-, -, hdim, hdegree, page, hpage, h⟩ := h
  obtain ⟨offset, hoffset, hnext⟩ := except_bind_eq_ok.mp h
  have hlt : call.neighbors.length < 2 ^ 32 :=
    (not_lt.mp hdegree).trans_lt writer.max_degree.toNat_lt
  obtain ⟨-, hfits, hcodes, rfl⟩ := (encodeNodeRecord_eq_ok call.length_vector hlt).mp hpage
  have hin : call.node_id.toNat < writer.header.num_nodes.toNat := by
    by_contra hout
    exact diskRecordOffset_of_le (not_lt.mp hout) offset hoffset
  obtain ⟨offset', hoffset', hat⟩ := diskRecordOffset_of_lt hwriter.valid hin
  cases hoffset.symm.trans hoffset'
  refine ⟨⟨by rw [hwriter.dim]; exact not_not.mp hdim,
    by rw [hwriter.max_degree]; exact not_lt.mp hdegree, hfits, hcodes, hin⟩, ?_⟩
  cases hnext
  rw [DiskIndexWriter.writePageAt, hat]
  rfl

/-- The accepted calls of a run, and the file they leave. -/
theorem writeNodes_spec (calls : List NodeWrite) {writer : DiskIndexWriter}
    (hwriter : writer.Writing) :
    (∀ call ∈ (writer.writeNodes calls).2, call.Accepted writer.header) ∧
      (writer.writeNodes calls).1.file = writePages kDiskIndexPageSize writer.file
        ((writer.writeNodes calls).2.map NodeWrite.page) := by
  induction calls generalizing writer with
  | nil => exact ⟨nofun, rfl⟩
  | cons call calls ih =>
    rw [DiskIndexWriter.writeNodes]
    cases hcall : writer.writeNode call with
    | error message => exact ih hwriter
    | ok next =>
      obtain ⟨haccepted, hnext⟩ := writeNode_eq_ok hwriter hcall
      have hwriting : next.Writing := by
        rw [hnext]
        exact ⟨hwriter.closed, hwriter.header_written, hwriter.valid, hwriter.dim,
          hwriter.max_degree⟩
      have hheader : next.header = writer.header := by rw [hnext]
      have hwritten : next.file =
          pwrite writer.file (call.page.1 * kDiskIndexPageSize) call.page.2 := by rw [hnext]
      obtain ⟨hall, hfile⟩ := ih hwriting
      refine ⟨fun other hother => ?_, ?_⟩
      · rcases List.mem_cons.mp hother with rfl | hother
        · exact haccepted
        · exact hheader ▸ hall other hother
      · change (next.writeNodes calls).1.file = _
        rw [hfile, hwritten]
        rfl

/-- The constructor and `write_header` leave a file that holds the header page. -/
theorem writeHeader_eq_ok {path : String} {dim max_degree : UInt32} {num_nodes entry_node : UInt64}
    (hcreate : DiskIndexWriter.create path dim max_degree = .ok writer)
    (hheader : writer.writeHeader num_nodes entry_node = .ok next) :
    next.Writing ∧ next.header.num_nodes = num_nodes ∧
      next.file = pwrite [] 0 next.header.toPage := by
  rw [DiskIndexWriter.create, unit_bind_eq_ok] at hcreate
  cases hcreate.2
  rw [DiskIndexWriter.writeHeader, throwIf_bind_eq_ok, except_bind_eq_ok] at hheader
  obtain ⟨-, header, hmake, hnext⟩ := hheader
  obtain ⟨hvalid, hfields⟩ := makeIndexFileHeader_eq_ok hmake
  cases hnext
  exact ⟨⟨rfl, rfl, hvalid, by rw [hfields]; rfl, by rw [hfields]; rfl⟩,
    congrArg IndexFileHeader.num_nodes hfields, rfl⟩

end Writes

/-! ### The file that is read -/

section Reads

variable {header : IndexFileHeader} {calls : List NodeWrite} {path : String}

/-- The pages of a file: the header, then the calls. -/
def indexPages (header : IndexFileHeader) (calls : List NodeWrite) : List (ℕ × Bytes) :=
  (0, header.toPage) :: calls.map NodeWrite.page

theorem length_indexPages (hcalls : ∀ call ∈ calls, call.Accepted header) :
    ∀ write ∈ indexPages header calls, write.2.length = kDiskIndexPageSize := by
  intro write hwrite
  rcases List.mem_cons.mp hwrite with rfl | hwrite
  · exact header.length_toPage
  · obtain ⟨call, hcall, rfl⟩ := List.mem_map.mp hwrite
    exact length_recordPage (hcalls call hcall).fits (hcalls call hcall).codes

theorem lastPage_header : lastPage (indexPages header calls) 0 = some header.toPage := by
  have hnone : (calls.map NodeWrite.page).filter (fun write => write.1 = 0) = [] := by
    rw [List.filter_eq_nil_iff]
    intro write hwrite
    obtain ⟨call, -, rfl⟩ := List.mem_map.mp hwrite
    simp [NodeWrite.page]
  rw [lastPage, indexPages, List.filter_cons_of_pos (by simp), hnone]
  rfl

theorem lastPage_node (node_id : NodeId) :
    lastPage (indexPages header calls) (node_id.toNat + 1) =
      (lastWrite calls node_id).map fun call => call.page.2 := by
  have hslot : (fun write : ℕ × Bytes => decide (write.1 = node_id.toNat + 1)) ∘ NodeWrite.page =
      fun call => decide (call.node_id = node_id) := by
    funext call
    simp [NodeWrite.page, UInt32.toNat_inj]
  rw [lastPage, indexPages, List.filter_cons_of_neg (by simp), List.filter_map, hslot,
    List.getLast?_map, Option.map_map]
  rfl

variable (path) in
/-- The reader opens the file and finds the header that was written. -/
theorem create_indexPages (hvalid : header.Valid) (hcalls : ∀ call ∈ calls, call.Accepted header) :
    DiskIndexReader.create path (writePages kDiskIndexPageSize [] (indexPages header calls)) =
      .ok { path, header, file := writePages kDiskIndexPageSize [] (indexPages header calls) } := by
  have hread := readAt_writePages (by decide) (length_indexPages hcalls) 0
  rw [lastPage_header, Nat.zero_mul] at hread
  have hpage : readPageAt path (writePages kDiskIndexPageSize [] (indexPages header calls)) 0 =
      .ok header.toPage := by
    rw [readPageAt, UInt64.toNat_zero, hread]
  rw [DiskIndexReader.create, except_bind_eq_ok]
  refine ⟨header.toPage, hpage, ?_⟩
  dsimp only
  rw [header.ofPage_toPage, unit_bind_eq_ok, validateIndexFileHeader_eq_ok]
  exact ⟨hvalid, rfl⟩

variable {reader : DiskIndexReader} {node_id : NodeId}

/-- An open reader of a file with these calls. -/
structure DiskIndexReader.Reads (reader : DiskIndexReader) (calls : List NodeWrite) : Prop where
  closed : reader.closed = false
  valid : reader.header.Valid
  accepted : ∀ call ∈ calls, call.Accepted reader.header
  file : reader.file = writePages kDiskIndexPageSize [] (indexPages reader.header calls)

theorem lastWrite_eq_some {call : NodeWrite} (h : lastWrite calls node_id = some call) :
    call ∈ calls ∧ call.node_id = node_id := by
  have hmem := List.mem_filter.mp (List.mem_of_getLast? h)
  exact ⟨hmem.1, of_decide_eq_true hmem.2⟩

/-- The page of a node that is in range. -/
theorem readNodeInto_eq (hreads : reader.Reads calls)
    (hin : node_id.toNat < reader.header.num_nodes.toNat) :
    reader.readNodeInto node_id =
      match lastPage (indexPages reader.header calls) (node_id.toNat + 1) with
      | some page => .ok page
      | none =>
        if node_id.toNat + 1 < pageCount (indexPages reader.header calls) then
          .ok (List.replicate kDiskIndexPageSize 0)
        else .error ("Short read while reading disk index: " ++ reader.path) := by
  obtain ⟨offset, hoffset, hat⟩ := diskRecordOffset_of_lt hreads.valid hin
  have hread := readAt_writePages (by decide) (length_indexPages hreads.accepted)
    (node_id.toNat + 1)
  have hinto : reader.readNodeInto node_id = readPageAt reader.path reader.file offset := by
    rw [DiskIndexReader.readNodeInto, throwIf, if_neg (by rw [hreads.closed]; simp), hoffset]
    rfl
  rw [hinto, readPageAt, hat, hreads.file, hread]
  cases lastPage (indexPages reader.header calls) (node_id.toNat + 1) with
  | some page => rfl
  | none =>
    by_cases hcount : node_id.toNat + 1 < pageCount (indexPages reader.header calls)
    · rw [if_pos hcount, if_pos hcount]
    · rw [if_neg hcount, if_neg hcount]

theorem readNode_of_lastWrite (hreads : reader.Reads calls) {call : NodeWrite}
    (hlast : lastWrite calls node_id = some call) :
    reader.readNode node_id = .ok call.record := by
  obtain ⟨hmem, hid⟩ := lastWrite_eq_some hlast
  have haccepted := hreads.accepted call hmem
  have hpage : reader.readNodeInto node_id = .ok call.page.2 := by
    rw [readNodeInto_eq hreads (hid ▸ haccepted.node_id), lastPage_node, hlast]
    rfl
  have hdecode : decodeNodeRecord call.page.2 = .ok call.record :=
    decodeNodeRecord_recordPage call.length_vector haccepted.fits haccepted.codes
  have hdim : call.record.dim.toUInt32 = reader.header.dim := by
    have hsize : call.vector.length < UInt16.size := Nat.lt_succ_of_le haccepted.fits.dim_le
    rw [← UInt32.toNat_inj, UInt16.toNat_toUInt32, ← haccepted.dim, ← call.length_vector]
    exact UInt16.toNat_ofNat_of_lt' hsize
  have hdegree : ¬reader.header.max_degree < call.record.degree.toUInt32 := by
    have hsize : call.neighbors.length < UInt16.size := Nat.lt_succ_of_le haccepted.fits.degree_le
    have hcount : call.record.degree.toNat = call.neighbors.length :=
      UInt16.toNat_ofNat_of_lt' hsize
    rw [UInt32.lt_iff_toNat_lt, UInt16.toNat_toUInt32, hcount]
    exact not_lt.mpr haccepted.degree
  rw [DiskIndexReader.readNode, except_bind_eq_ok]
  refine ⟨_, hpage, except_bind_eq_ok.mpr ⟨_, hdecode, ?_⟩⟩
  rw [throwIf_bind_eq_ok, throwIf_bind_eq_ok, throwIf_bind_eq_ok]
  exact ⟨not_not.mpr hid, not_not.mpr hdim, hdegree, rfl⟩

theorem readNode_throws (hreads : reader.Reads calls)
    (hnone : lastWrite calls node_id = none ∨
      reader.header.num_nodes.toNat ≤ node_id.toNat) :
    ∃ message, reader.readNode node_id = .error message := by
  refine exists_error_of_ne_ok fun record hread => ?_
  rw [DiskIndexReader.readNode, except_bind_eq_ok] at hread
  obtain ⟨page, hpage, hread⟩ := hread
  obtain ⟨_, hdecode, -⟩ := except_bind_eq_ok.mp hread
  by_cases hin : node_id.toNat < reader.header.num_nodes.toNat
  · have hlast := hnone.resolve_right (not_le.mpr hin)
    rw [readNodeInto_eq hreads hin, lastPage_node, hlast, Option.map_none] at hpage
    dsimp only at hpage
    split_ifs at hpage with hcount
    · cases hpage
      rw [decodeNodeRecord_zeros] at hdecode
      cases hdecode
  · rw [DiskIndexReader.readNodeInto, throwIf_bind_eq_ok, except_bind_eq_ok] at hpage
    obtain ⟨-, offset, hoffset, -⟩ := hpage
    exact diskRecordOffset_of_le (not_lt.mp hin) offset hoffset

end Reads

/-- A file with its header and any calls of `write_node`, closed and opened again: the reader
returns the last accepted record of a node, and throws for a node without one and for an id that
is out of range. -/
theorem readNode_reopened {path : String} {dim max_degree : UInt32} {num_nodes entry_node : UInt64}
    {created opened : DiskIndexWriter}
    (hcreate : DiskIndexWriter.create path dim max_degree = .ok created)
    (hheader : created.writeHeader num_nodes entry_node = .ok opened) (calls : List NodeWrite) :
    ∃ reader, DiskIndexReader.create path (opened.writeNodes calls).1.close.file = .ok reader ∧
      ∀ node_id : NodeId,
        (∀ call, lastWrite (opened.writeNodes calls).2 node_id = some call →
          reader.readNode node_id = .ok call.record) ∧
        (lastWrite (opened.writeNodes calls).2 node_id = none ∨ num_nodes ≤ node_id.toUInt64 →
          ∃ message, reader.readNode node_id = .error message) := by
  obtain ⟨hwriting, hnum, hfirst⟩ := writeHeader_eq_ok hcreate hheader
  obtain ⟨haccepted, hfile⟩ := writeNodes_spec calls hwriting
  have hpages : (opened.writeNodes calls).1.file = writePages kDiskIndexPageSize []
      (indexPages opened.header (opened.writeNodes calls).2) := by
    rw [hfile, hfirst, indexPages, writePages, writePages, List.foldl_cons, Nat.zero_mul]
  have hreads : DiskIndexReader.Reads
      { path, header := opened.header, file := (opened.writeNodes calls).1.file }
      (opened.writeNodes calls).2 :=
    ⟨rfl, hwriting.valid, haccepted, hpages⟩
  have hopen := create_indexPages path hwriting.valid haccepted
  rw [← hpages] at hopen
  refine ⟨_, hopen, fun node_id =>
    ⟨fun call hlast => readNode_of_lastWrite hreads hlast, fun hnone => ?_⟩⟩
  rw [UInt64.le_iff_toNat_le, UInt32.toNat_toUInt64, ← hnum] at hnone
  exact readNode_throws hreads hnone

/-- Two records for one node, the second shorter, and a slot that is never written. -/
theorem readNode_reopened_two_calls :
    ∃ created opened reader, DiskIndexWriter.create "graph.idx" 1 2 = .ok created ∧
      created.writeHeader 3 1 = .ok opened ∧
      DiskIndexReader.create "graph.idx" (opened.writeNodes
        [⟨2, 1, [7], [0, 1], [], 0, rfl⟩, ⟨2, 1, [9], [], [], 0, rfl⟩]).1.close.file = .ok reader ∧
      reader.readNode 2 = .ok (recordOf 2 [9] [] [] 0) ∧
      ∃ message, reader.readNode 0 = .error message := by
  obtain ⟨created, hcreate⟩ : ∃ created, DiskIndexWriter.create "graph.idx" 1 2 = .ok created :=
    ⟨_, rfl⟩
  obtain ⟨opened, hheader⟩ : ∃ opened, created.writeHeader 3 1 = .ok opened := by
    cases hcreate
    exact ⟨_, rfl⟩
  have hlast : ∀ opened, created.writeHeader 3 1 = .ok opened →
      lastWrite (opened.writeNodes
        [⟨2, 1, [7], [0, 1], [], 0, rfl⟩, ⟨2, 1, [9], [], [], 0, rfl⟩]).2 2 =
        some ⟨2, 1, [9], [], [], 0, rfl⟩ ∧
      lastWrite (opened.writeNodes
        [⟨2, 1, [7], [0, 1], [], 0, rfl⟩, ⟨2, 1, [9], [], [], 0, rfl⟩]).2 0 = none := by
    cases hcreate
    rintro opened hheader
    cases hheader
    decide +kernel
  obtain ⟨reader, hopen, hread⟩ := readNode_reopened hcreate hheader
    [⟨2, 1, [7], [0, 1], [], 0, rfl⟩, ⟨2, 1, [9], [], [], 0, rfl⟩]
  exact ⟨created, opened, reader, hcreate, hheader, hopen,
    (hread 2).1 _ (hlast opened hheader).1, (hread 0).2 (Or.inl (hlast opened hheader).2)⟩

end Storage
