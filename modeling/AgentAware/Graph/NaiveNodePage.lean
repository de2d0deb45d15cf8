import AgentAware.Graph.PackedIndexFile
import AgentAware.Graph.PackedPageRoundTrip

/-!
# A page of one node

The naive index gives every node a page of its own: the id, the degree, the vector, the neighbours and
their codes. The loops over neighbours and codes are those of a packed page with one slot; unlike the
packed decoder, `read_node` refuses a stored degree above the degree of the index. The vector is copied
without a check, so only the length that the constructor has checked keeps the copy inside the page.

## Main definitions

- `encodeNode` — the page that the builder writes for a node
- `decodeNode` — `read_node` behind its read
- `nodeOf` — the node that a page holds

## Main results

- `decides_decodeNode` — when the decoder returns, and what
- `returns_encodeNode`, `nodeOf_nodePage` — the encoder returns a page that holds the node
-/

namespace NaiveNodePage

open DiskPageCodec

section Encoding

variable {F : Type} (base : VectorSet) (graph : Graph.Adjacency) (pq_model : Option (PQEncoder F))
  (degree page_size : ℕ)

def putNeighbor (neighbors : List NodeId) (state : Bytes × ℕ) (n : ℕ) : Except Fault (Bytes × ℕ) :=
  putBytes state (wordBytes (neighbors.getD n kNoNeighbor))

def putNeighborCodes (codes : List UInt8) (pq_code_bytes : ℕ) (neighbors : List NodeId)
    (state : Bytes × ℕ) (n : ℕ) : Except Fault (Bytes × ℕ) :=
  (List.range pq_code_bytes).foldlM (fun state b => do
    let code ← neighborCode codes pq_code_bytes (neighbors.getD n kNoNeighbor) b
    putBytes state [code]) state

def putNodeCodes (neighbors : List NodeId) (state : Bytes × ℕ) : Except Fault (Bytes × ℕ) :=
  match pq_model with
  | none => .ok state
  | some model =>
    if 0 < pqCodeBytes pq_model then
      (List.range degree).foldlM
        (putNeighborCodes model.codes (pqCodeBytes pq_model) neighbors) state
    else .ok state

/-- `std::memcpy` of a row behind the cursor, which nothing checks against the page. -/
def copyRow (state : Bytes × ℕ) (i : ℕ) : Except Fault (Bytes × ℕ) := do
  throwFault (base.size ≤ i) "VectorSet row index out of range"
  if state.1.length < state.2 + base.dim * 4 then .error .outOfRange
  else return (overwrite state.1 state.2 ((base.row i).flatMap wordBytes), state.2 + base.dim * 4)

def encodeNode (i : ℕ) : Except Fault Bytes := do
  let neighbors ← load graph i
  let state ← putBytes (List.replicate page_size 0, 0) (wordBytes (UInt32.ofNat i))
  let state ← putBytes state (wordBytes (UInt32.ofNat neighbors.length))
  let state ← copyRow base state i
  let state ← (List.range degree).foldlM (putNeighbor neighbors) state
  let state ← putNodeCodes pq_model degree neighbors state
  return state.1

end Encoding

section Decoding

variable (metadata : DiskGraphMetadata) (page : Bytes)

/-- `std::memcpy` of the vector, which nothing checks against the page. -/
def copyVector (cursor : ℕ) : Except Fault (List FloatBits) :=
  if page.length < cursor + vectorBytes metadata then .error .outOfRange
  else .ok ((List.range metadata.dim.toNat).map fun d => wordAt page (cursor + d * 4))

/-- The codes of the neighbours behind the cursor, none without a model. -/
def readNodeCodes (degree : UInt32) (cursor : ℕ) : Except Fault (List UInt8) :=
  if 0 < metadata.neighbor_pq_code_bytes.toNat then do
    let codes ← resizeCodes (degree.toNat * metadata.neighbor_pq_code_bytes.toNat)
    let read ← (List.range metadata.degree.toNat).foldlM (fun state n =>
      (List.range metadata.neighbor_pq_code_bytes.toNat).foldlM
        (readCode page 1 0 degree n) state) ⟨codes, 0, cursor⟩
    return read.codes
  else .ok []

/-- `read_node` behind its read; the only slot is in use. -/
def decodeNode (id : NodeId) : Except Fault DiskPageCodec.DiskNode := do
  let (stored_id, cursor) ← getWord page 0
  let (degree, cursor) ← getWord page cursor
  throwFault (stored_id ≠ id ∨ metadata.degree < degree) "Corrupted graph node page"
  let vector ← copyVector metadata page cursor
  let (neighbors, cursor) ← (List.range metadata.degree.toNat).foldlM
    (readNeighbor page 1 0 degree) ([], cursor + vectorBytes metadata)
  let codes ← readNodeCodes metadata page degree cursor
  return { id := stored_id, neighbors := neighbors, neighbor_pq_codes := codes, vector := vector }

end Decoding

section Stored

variable (metadata : DiskGraphMetadata) (page : Bytes)

/-- The degree that a page says. -/
def nodeDegree : UInt32 := wordAt page 4

/-- The offset of the neighbours. -/
def neighborsStart : ℕ := 8 + vectorBytes metadata

def neighborAt (n : ℕ) : NodeId := wordAt page (neighborsStart metadata + n * 4)

/-- The offset of the codes. -/
def codesStart : ℕ := neighborsStart metadata + neighborBytes metadata

/-- The neighbours within the stored degree, but those that stand for none. -/
def keptNeighbors (count : ℕ) : List NodeId :=
  ((List.range count).filter fun n =>
    n < (nodeDegree page).toNat ∧ neighborAt metadata page n ≠ kNoNeighbor).map
    (neighborAt metadata page)

/-- The node that a page holds. -/
def nodeOf : DiskPageCodec.DiskNode :=
  { id := wordAt page 0
    neighbors := keptNeighbors metadata page metadata.degree.toNat
    neighbor_pq_codes := slice page (codesStart metadata)
      ((nodeDegree page).toNat * metadata.neighbor_pq_code_bytes.toNat)
    vector := (List.range metadata.dim.toNat).map fun d => wordAt page (8 + d * 4) }

/-- The bytes of a node. -/
def nodeBytes : ℕ :=
  graphRecordBytes metadata.dim.toNat metadata.degree.toNat metadata.neighbor_pq_code_bytes.toNat

end Stored

section Reading

variable {metadata : DiskGraphMetadata} {page : Bytes}

theorem nodeBytes_eq (metadata : DiskGraphMetadata) :
    nodeBytes metadata = codesStart metadata + codeBytes metadata := by
  rw [nodeBytes, graphRecordBytes, codesStart, neighborsStart, vectorBytes, neighborBytes, codeBytes]

theorem returns_getWord {cursor : ℕ} (h : cursor + 4 ≤ page.length) :
    Returns (getWord page cursor) (· = (wordAt page cursor, cursor + 4)) :=
  ((decides_getWord page cursor).returns h).mono fun _ hread => hread.1

theorem returns_copyVector (h : nodeBytes metadata ≤ page.length) :
    Returns (copyVector metadata page 8)
      (· = (List.range metadata.dim.toNat).map fun d => wordAt page (8 + d * 4)) := by
  rw [nodeBytes_eq, codesStart, neighborsStart] at h
  rw [copyVector, if_neg (by omega)]
  exact Returns.pure rfl

/-- The neighbours are read to the end of their section. -/
theorem returns_readNeighbors (h : nodeBytes metadata ≤ page.length) :
    Returns ((List.range metadata.degree.toNat).foldlM (readNeighbor page 1 0 (nodeDegree page))
      ([], neighborsStart metadata))
      (· = (keptNeighbors metadata page metadata.degree.toNat, codesStart metadata)) := by
  have hround : ∀ n < metadata.degree.toNat, ∀ state : List NodeId × ℕ,
      state = (keptNeighbors metadata page n, neighborsStart metadata + n * 4) →
      Returns (readNeighbor page 1 0 (nodeDegree page) state n)
        (· = (keptNeighbors metadata page (n + 1), neighborsStart metadata + (n + 1) * 4)) := by
    rintro n hn _ rfl
    have hsection : codesStart metadata = neighborsStart metadata + metadata.degree.toNat * 4 := rfl
    rw [nodeBytes_eq, hsection] at h
    have hnext : neighborsStart metadata + (n + 1) * 4 = neighborsStart metadata + n * 4 + 4 := by
      omega
    refine Returns.bind (returns_getWord (by dsimp only; omega)) ?_
    rintro _ rfl
    rw [hnext, keptNeighbors, keptNeighbors, List.range_succ, List.filter_append, List.map_append,
      List.filter_singleton]
    dsimp only
    have hfirst : (0 : ℕ) < (1 : UInt32).toNat := Nat.zero_lt_one
    split
    · next hkeep =>
      have hkept : n < (nodeDegree page).toNat ∧ neighborAt metadata page n ≠ kNoNeighbor := hkeep.2
      rw [decide_eq_true hkept]
      exact Returns.pure rfl
    · next hskip =>
      have hdropped : ¬(n < (nodeDegree page).toNat ∧ neighborAt metadata page n ≠ kNoNeighbor) :=
        fun hkeep => hskip ⟨hfirst, hkeep⟩
      rw [decide_eq_false hdropped, cond_false, List.map_nil, List.append_nil]
      exact Returns.pure rfl
  exact Returns.foldlM_range (S := fun n state =>
    state = (keptNeighbors metadata page n, neighborsStart metadata + n * 4)) hround rfl

/-- The codes while they are read: `total` of them are kept, and `done` are behind the cursor. -/
structure CodesRead (page : Bytes) (start total done : ℕ) (state : CodeState) : Prop where
  codes_eq : state.codes =
    slice page start (min done total) ++ List.replicate (total - min done total) 0
  written_eq : state.written = min done total
  cursor_eq : state.cursor = start + done

theorem returns_readCode {start count n b : ℕ} {degree : UInt32} {state : CodeState}
    (h : CodesRead page start (degree.toNat * count) (n * count + b) state)
    (hcode : start + (n * count + b) < page.length) (hb : b < count) :
    Returns (readCode page 1 0 degree n state b)
      (CodesRead page start (degree.toNat * count) (n * count + (b + 1))) := by
  have hcursor := h.cursor_eq
  have hfirst : (0 : ℕ) < (1 : UInt32).toNat := Nat.zero_lt_one
  have hroom : state.cursor + 1 ≤ page.length := by omega
  refine Returns.bind ((decides_getByte page state.cursor).returns hroom) ?_
  rintro _ ⟨rfl, -⟩
  dsimp only
  have hwritten := h.written_eq
  have hcodes := h.codes_eq
  split
  · next hkeep =>
    -- a neighbour below the degree has all its codes below the total
    have hplace : n * count + b < degree.toNat * count := by
      have hrow := Nat.mul_le_mul_right count (Nat.succ_le_of_lt hkeep.2)
      rw [Nat.succ_mul] at hrow
      omega
    rw [Nat.min_eq_left hplace.le] at hwritten hcodes
    have hbehind : (slice page start (n * count + b)).length = state.written := by
      rw [length_slice (by omega), hwritten]
    have hlength : state.written < state.codes.length := by
      rw [hcodes, List.length_append, hbehind, List.length_replicate]
      omega
    refine Returns.bind ⟨_, store_ok hlength _, rfl⟩ ?_
    rintro _ rfl
    refine Returns.pure ⟨?_, ?_, ?_⟩
    · dsimp only
      rw [hcodes, ← hbehind, set_blank (by omega), Nat.min_eq_left (by omega), ← Nat.add_assoc,
        slice_succ (by omega), List.getD_eq_getElem?_getD,
        List.getElem?_eq_getElem (Nat.lt_of_succ_le hroom)]
      simp only [Option.getD_some, hcursor]
      congr 2
    · dsimp only
      omega
    · dsimp only
      omega
  · next hskip =>
    have hpast : degree.toNat * count ≤ n * count :=
      Nat.mul_le_mul_right _ (not_lt.mp fun hlt => hskip ⟨hfirst, hlt⟩)
    refine Returns.pure ⟨?_, ?_, ?_⟩
    · rw [Nat.min_eq_right (by omega)] at hcodes ⊢
      exact hcodes
    · dsimp only
      omega
    · dsimp only
      omega

/-- The codes of a node whose degree the page may have. -/
theorem returns_readNodeCodes (h : nodeBytes metadata ≤ page.length)
    (hlimit : page.length ≤ 2 ^ 63 - 1) (hdegree : (nodeDegree page).toNat ≤ metadata.degree.toNat) :
    Returns (readNodeCodes metadata page (nodeDegree page) (codesStart metadata))
      (· = (nodeOf metadata page).neighbor_pq_codes) := by
  have hall := Nat.mul_le_mul_right metadata.neighbor_pq_code_bytes.toNat hdegree
  rw [nodeBytes_eq, codeBytes] at h
  rw [readNodeCodes]
  split
  · next hcodes =>
    have hsize : resizeCodes ((nodeDegree page).toNat * metadata.neighbor_pq_code_bytes.toNat) =
        .ok (List.replicate ((nodeDegree page).toNat * metadata.neighbor_pq_code_bytes.toNat) 0) := by
      rw [resizeCodes, throwFault_ok (by omega)]
      rfl
    refine Returns.bind ⟨_, hsize, rfl⟩ ?_
    rintro _ rfl
    refine Returns.bind (P := CodesRead page (codesStart metadata)
      ((nodeDegree page).toNat * metadata.neighbor_pq_code_bytes.toNat)
      (metadata.degree.toNat * metadata.neighbor_pq_code_bytes.toNat)) ?_ ?_
    · refine Returns.foldlM_range (S := fun n => CodesRead page (codesStart metadata)
        ((nodeDegree page).toNat * metadata.neighbor_pq_code_bytes.toNat)
        (n * metadata.neighbor_pq_code_bytes.toNat)) (fun n hn state hstate => ?_) ?_
      · rw [Nat.add_mul, Nat.one_mul]
        have hrow := Nat.mul_le_mul_right metadata.neighbor_pq_code_bytes.toNat
          (Nat.succ_le_of_lt hn)
        rw [Nat.succ_mul] at hrow
        exact Returns.foldlM_range (S := fun b => CodesRead page (codesStart metadata)
            ((nodeDegree page).toNat * metadata.neighbor_pq_code_bytes.toNat)
            (n * metadata.neighbor_pq_code_bytes.toNat + b))
          (fun b hb state hstate => returns_readCode hstate (by omega) hb) hstate
      · rw [Nat.zero_mul]
        refine ⟨?_, (Nat.zero_min _).symm, rfl⟩
        rw [Nat.zero_min, Nat.sub_zero]
        rfl
    · intro read hread
      refine Returns.pure ?_
      have hfull := hread.codes_eq
      rw [Nat.min_eq_right hall, Nat.sub_self, List.replicate_zero, List.append_nil] at hfull
      exact hfull
  · next hnone =>
    have hzero : metadata.neighbor_pq_code_bytes.toNat = 0 := Nat.eq_zero_of_not_pos hnone
    refine Returns.pure ?_
    rw [nodeOf, hzero, Nat.mul_zero]
    rfl

/-- A page of the length that the constructor has checked is decoded when it is the page of the node
and its degree is one that the index has. -/
theorem decides_decodeNode (h : nodeBytes metadata ≤ page.length)
    (hlimit : page.length ≤ 2 ^ 63 - 1) (id : NodeId) :
    Decides Thrown (wordAt page 0 = id ∧ nodeDegree page ≤ metadata.degree)
      (decodeNode metadata page id) (· = nodeOf metadata page) := by
  have hbytes := nodeBytes_eq metadata
  rw [codesStart, neighborsStart] at hbytes
  refine Decides.after (returns_getWord (by omega)) ?_
  rintro _ rfl
  refine Decides.after (returns_getWord (by omega)) ?_
  rintro _ rfl
  refine Decides.iff (c := ¬(wordAt page 0 ≠ id ∨ metadata.degree < nodeDegree page)) ?_ ?_
  · refine (decides_throwFault _ _).followed fun _ haccepted => ?_
    rw [not_or, not_not, not_lt] at haccepted
    refine Returns.bind (returns_copyVector h) ?_
    rintro _ rfl
    refine Returns.bind (returns_readNeighbors h) ?_
    rintro _ rfl
    refine Returns.bind (returns_readNodeCodes h hlimit (UInt32.le_iff_toNat_le.mp haccepted.2)) ?_
    rintro _ rfl
    exact Returns.pure rfl
  · rw [not_or, not_not, not_lt]

/-- Behind the stored degree nothing is kept. -/
theorem keptNeighbors_eq {count : ℕ} (h : (nodeDegree page).toNat ≤ count) :
    keptNeighbors metadata page count =
      ((List.range (nodeDegree page).toNat).filter fun n =>
        neighborAt metadata page n ≠ kNoNeighbor).map (neighborAt metadata page) := by
  obtain ⟨rest, rfl⟩ := Nat.exists_eq_add_of_le h
  have hnone : List.filter (fun n => decide (n < (nodeDegree page).toNat ∧
      neighborAt metadata page n ≠ kNoNeighbor))
      ((List.range rest).map ((nodeDegree page).toNat + ·)) = [] := by
    refine List.filter_eq_nil_iff.mpr fun n hn hkept => ?_
    obtain ⟨k, _, rfl⟩ := List.mem_map.mp hn
    exact absurd (of_decide_eq_true hkept).1 (Nat.not_lt.mpr (Nat.le_add_right _ k))
  rw [keptNeighbors, List.range_add, List.filter_append, hnone, List.append_nil]
  congr 1
  refine List.filter_congr fun n hn => ?_
  rw [decide_eq_decide]
  exact and_iff_right (List.mem_range.mp hn)

/-- A node as a reader may use it. -/
structure WellFormedNode (metadata : DiskGraphMetadata) (id : NodeId)
    (node : DiskPageCodec.DiskNode) : Prop where
  id_eq : node.id = id
  vector_length : node.vector.length = metadata.dim.toNat
  neighbors_le : node.neighbors.length ≤ metadata.degree.toNat
  neighbor_ne : ∀ neighbor ∈ node.neighbors, neighbor ≠ kNoNeighbor
  codes_le : node.neighbor_pq_codes.length ≤
    metadata.degree.toNat * metadata.neighbor_pq_code_bytes.toNat
  covered : node.neighbors.length * metadata.neighbor_pq_code_bytes.toNat ≤
    node.neighbor_pq_codes.length

theorem wellFormed_nodeOf (h : nodeBytes metadata ≤ page.length)
    (hdegree : nodeDegree page ≤ metadata.degree) :
    WellFormedNode metadata (wordAt page 0) (nodeOf metadata page) := by
  have hle := UInt32.le_iff_toNat_le.mp hdegree
  have hall := Nat.mul_le_mul_right metadata.neighbor_pq_code_bytes.toNat hle
  rw [nodeBytes_eq, codeBytes] at h
  have hcodes : (nodeOf metadata page).neighbor_pq_codes.length =
      (nodeDegree page).toNat * metadata.neighbor_pq_code_bytes.toNat := length_slice (by omega)
  have hneighbors : (nodeOf metadata page).neighbors.length ≤ (nodeDegree page).toNat := by
    show (keptNeighbors metadata page metadata.degree.toNat).length ≤ _
    rw [keptNeighbors_eq hle, List.length_map]
    exact (List.length_filter_le _ _).trans List.length_range.le
  constructor
  · rfl
  · exact (List.length_map _).trans List.length_range
  · exact hneighbors.trans hle
  · intro neighbor hneighbor
    obtain ⟨n, hn, rfl⟩ := List.mem_map.mp hneighbor
    exact (of_decide_eq_true (List.mem_filter.mp hn).2).2
  · exact hcodes.le.trans hall
  · rw [hcodes]
    exact Nat.mul_le_mul_right _ hneighbors

end Reading

section Encoder

variable {F : Type} {base : VectorSet} {graph : Graph.Adjacency} {pq_model : Option (PQEncoder F)}
  {degree page_size i size : ℕ} {source : PageSource} {written : Bytes} {state : Bytes × ℕ}

/-- The bytes of the only node of a source. -/
def nodePage (source : PageSource) (dim degree pq_code_bytes : ℕ) : Bytes :=
  idRow source 0 ++ (degreeRow source 0 ++ (vectorRow source dim 0 ++
    (neighborRow source degree 0 ++ codeRow source degree pq_code_bytes 0)))

/-- The source of a node: a page of the packed layout that holds nothing else. -/
structure IsNode (source : PageSource) (base : VectorSet) (graph : Graph.Adjacency)
    (pq_model : Option (PQEncoder F)) (i : ℕ) : Prop where
  from_order : source.From base graph [Graph.nodeId i] pq_model 0
  count_eq : source.node_count = 1
  toNat_eq : (Graph.nodeId i).toNat = i

theorem IsNode.id_eq (h : IsNode source base graph pq_model i) : source.id 0 = Graph.nodeId i :=
  (Option.some.inj (h.from_order.id_eq 0 (h.count_eq ▸ Nat.zero_lt_one))).symm

theorem IsNode.neighbors_eq (h : IsNode source base graph pq_model i) :
    graph[i]? = some (source.neighbors 0) := by
  have hneighbors := h.from_order.neighbors_eq 0 (h.count_eq ▸ Nat.zero_lt_one)
  rwa [h.id_eq, h.toNat_eq] at hneighbors

theorem IsNode.row_eq (h : IsNode source base graph pq_model i) :
    i < base.size ∧ source.row 0 = base.row i ∧ (source.row 0).length = base.dim := by
  have hslot : 0 < source.node_count := h.count_eq ▸ Nat.zero_lt_one
  have hlt := h.from_order.id_lt 0 hslot
  have hrow := h.from_order.row_eq 0 hslot
  rw [h.id_eq, h.toNat_eq] at hlt hrow
  exact ⟨hlt, hrow, h.from_order.row_length 0 hslot⟩

theorem sourceNeighbor_eq (h : IsNode source base graph pq_model i) (n : ℕ) :
    sourceNeighbor source 0 n = (source.neighbors 0).getD n kNoNeighbor :=
  if_pos (h.count_eq ▸ Nat.zero_lt_one)

theorem returns_copyRow (h : IsNode source base graph pq_model i)
    (hstate : Filled 0 size written state) (hfits : written.length + base.dim * 4 ≤ size) :
    Returns (copyRow base state i) (Filled 0 size (written ++ vectorRow source base.dim 0)) := by
  obtain ⟨hlt, hrow, hlength⟩ := h.row_eq
  refine Returns.bind (returns_throwFault (not_le.mpr hlt)) fun _ _ => ?_
  have hbytes : ((base.row i).flatMap wordBytes).length = base.dim * 4 := by
    rw [length_flatMap_wordBytes, ← hrow, hlength]
  have hroom : ¬state.1.length < state.2 + base.dim * 4 := by
    rw [hstate.length_eq, hstate.cursor_eq]
    omega
  rw [if_neg hroom, vectorRow, if_pos (h.count_eq ▸ Nat.zero_lt_one), hrow, ← hbytes]
  exact Returns.pure (hstate.write (by omega))

theorem returns_putNeighbors (h : IsNode source base graph pq_model i)
    (hstate : Filled 0 size written state) (hfits : written.length + degree * 4 ≤ size) :
    Returns ((List.range degree).foldlM (putNeighbor (source.neighbors 0)) state)
      (Filled 0 size (written ++ neighborRow source degree 0)) := by
  refine Filled.rows (fun n _ => length_wordBytes _) ?_ hfits hstate
  intro n _ written state hstate hroom
  rw [sourceNeighbor_eq h]
  exact returns_putBytes hstate (by rwa [length_wordBytes])

theorem returns_putNodeCodes (h : IsNode source base graph pq_model i)
    (hstate : Filled 0 size written state)
    (hfits : written.length + degree * pqCodeBytes pq_model ≤ size) :
    Returns (putNodeCodes pq_model degree (source.neighbors 0) state)
      (Filled 0 size (written ++ codeRow source degree (pqCodeBytes pq_model) 0)) := by
  have hnone : pqCodeBytes pq_model = 0 →
      written ++ codeRow source degree (pqCodeBytes pq_model) 0 = written := by
    intro hzero
    have hempty := @length_codeRow degree source (pqCodeBytes pq_model) 0
    rw [hzero, Nat.mul_zero] at hempty
    rw [hzero, List.eq_nil_of_length_eq_zero hempty, List.append_nil]
  cases pq_model with
  | none => exact ⟨state, rfl, (hnone rfl).symm ▸ hstate⟩
  | some model =>
    rw [putNodeCodes]
    split
    · refine Filled.rows (fun n _ => length_codesOf _ _) ?_ hfits hstate
      intro n _ written state hstate hroom
      have hcodes : codesOf source (pqCodeBytes (some model)) (sourceNeighbor source 0 n) =
          table (fun b => [if sourceNeighbor source 0 n ≠ 0xffffffff then
            source.codes (sourceNeighbor source 0 n) b else 0]) (pqCodeBytes (some model)) := by
        rw [codesOf, table, List.map_eq_flatMap]
      rw [hcodes]
      refine Filled.rows (fun b _ => rfl) ?_ (by rwa [Nat.mul_one]) hstate
      intro b hb written state hstate hroom
      have hcode : Returns (neighborCode model.codes (pqCodeBytes (some model))
          ((source.neighbors 0).getD n kNoNeighbor) b)
          (· = if sourceNeighbor source 0 n ≠ 0xffffffff then
            source.codes (sourceNeighbor source 0 n) b else 0) := by
        rw [← sourceNeighbor_eq h, neighborCode]
        split
        · next hsome =>
          obtain ⟨hin, hmem⟩ := sourceNeighbor_mem hsome
          exact returns_load_eq (h.from_order.codes_eq model rfl 0 hin _ hmem b hb)
        · exact Returns.pure rfl
      refine Returns.bind hcode ?_
      rintro _ rfl
      exact returns_putBytes hstate hroom
    · next hzero =>
      exact ⟨state, rfl, (hnone (Nat.eq_zero_of_not_pos hzero)).symm ▸ hstate⟩

theorem length_nodePage (h : IsNode source base graph pq_model i) (degree pq_code_bytes : ℕ) :
    (nodePage source base.dim degree pq_code_bytes).length =
      graphRecordBytes base.dim degree pq_code_bytes := by
  rw [nodePage, List.length_append, List.length_append, List.length_append, List.length_append,
    length_idRow, length_degreeRow, length_vectorRow h.from_order, length_neighborRow, length_codeRow,
    graphRecordBytes]
  omega

/-- The encoder returns when the record fits the page. -/
theorem returns_encodeNode (h : IsNode source base graph pq_model i)
    (hfits : graphRecordBytes base.dim degree (pqCodeBytes pq_model) ≤ page_size) :
    Returns (encodeNode base graph pq_model degree page_size i) fun page => page =
      nodePage source base.dim degree (pqCodeBytes pq_model) ++ List.replicate
        (page_size - graphRecordBytes base.dim degree (pqCodeBytes pq_model)) 0 := by
  have hslot : 0 < source.node_count := h.count_eq ▸ Nat.zero_lt_one
  have hlength := length_nodePage h degree (pqCodeBytes pq_model)
  have hid : idRow source 0 = wordBytes (UInt32.ofNat i) := by
    rw [idRow, if_pos hslot, h.id_eq]
    rfl
  have hdegree : degreeRow source 0 = wordBytes (UInt32.ofNat (source.neighbors 0).length) := by
    rw [degreeRow, if_pos hslot]
  have hrecord : graphRecordBytes base.dim degree (pqCodeBytes pq_model) =
      4 * 2 + base.dim * 4 + degree * 4 + degree * pqCodeBytes pq_model := rfl
  rw [encodeNode]
  refine Returns.bind (returns_load_eq h.neighbors_eq) ?_
  rintro _ rfl
  rw [← hid, ← hdegree]
  refine Returns.bind (returns_putBytes (Filled.nil 0 page_size) ?_) fun _ hstate => ?_
  · rw [List.length_nil, length_idRow]
    omega
  refine Returns.bind (returns_putBytes hstate ?_) fun _ hstate => ?_
  · rw [List.nil_append, length_idRow, length_degreeRow]
    omega
  refine Returns.bind (returns_copyRow h hstate ?_) fun _ hstate => ?_
  · simp only [List.nil_append, List.length_append, length_idRow, length_degreeRow]
    omega
  refine Returns.bind (returns_putNeighbors h hstate ?_) fun _ hstate => ?_
  · simp only [List.nil_append, List.length_append, length_idRow, length_degreeRow,
      length_vectorRow h.from_order]
    omega
  refine Returns.bind (returns_putNodeCodes h hstate ?_) fun _ hstate => ?_
  · simp only [List.nil_append, List.length_append, length_idRow, length_degreeRow,
      length_vectorRow h.from_order, length_neighborRow]
    omega
  refine Returns.pure ?_
  have hwritten : [] ++ idRow source 0 ++ degreeRow source 0 ++ vectorRow source base.dim 0 ++
      neighborRow source degree 0 ++ codeRow source degree (pqCodeBytes pq_model) 0 =
      nodePage source base.dim degree (pqCodeBytes pq_model) := by
    simp only [nodePage, List.append_assoc, List.nil_append]
  rw [hstate.buffer_eq, hwritten, hlength]

end Encoder

section RoundTrip

variable {metadata : DiskGraphMetadata} {source : PageSource} {dim degree pq_code_bytes : ℕ}
  {rest : Bytes}

/-- A packed page of one node is a header and the page of the node. -/
theorem pageOf_one (source : PageSource) (dim degree pq_code_bytes : ℕ) (rest : Bytes) :
    pageOf source dim degree pq_code_bytes 1 rest =
      wordBytes source.page_id ++ wordBytes (UInt32.ofNat source.node_count) ++
        (nodePage source dim degree pq_code_bytes ++ rest) := by
  have hone : ∀ row : ℕ → Bytes, table row 1 = row 0 := fun row => by
    rw [table, List.range_one, List.flatMap_singleton]
  rw [pageOf, packedPage, hone, hone, hone, hone, hone]
  simp only [nodePage, List.append_assoc]

theorem slice_nodePage (offset count : ℕ) :
    slice (nodePage source dim degree pq_code_bytes ++ rest) offset count =
      slice (pageOf source dim degree pq_code_bytes 1 rest) (8 + offset) count := by
  rw [pageOf_one, slice_skip]
  rw [List.length_append, length_wordBytes, length_wordBytes]

theorem wordAt_nodePage (offset : ℕ) :
    wordAt (nodePage source dim degree pq_code_bytes ++ rest) offset =
      wordAt (pageOf source dim degree pq_code_bytes 1 rest) (8 + offset) := by
  rw [wordAt, ← slice, slice_nodePage, slice, ← wordAt]

/-- The decoder finds the node where the encoder has put it. -/
theorem nodeOf_nodePage (h : Fits metadata dim degree pq_code_bytes 1)
    (hsound : source.Sound dim degree 1) (hslot : 0 < source.node_count) :
    nodeDegree (nodePage source dim degree pq_code_bytes ++ rest) ≤ metadata.degree ∧
      nodeOf metadata (nodePage source dim degree pq_code_bytes ++ rest) =
        { id := source.id 0
          neighbors := source.neighbors 0
          neighbor_pq_codes := (source.neighbors 0).flatMap (codesOf source pq_code_bytes)
          vector := source.row 0 } := by
  generalize hpage : nodePage source dim degree pq_code_bytes ++ rest = page
  have hstart : neighborsOffset metadata = 8 + neighborsStart metadata := by
    rw [neighborsOffset, vectorsOffset, slotCount, h.nodes_eq, neighborsStart]
    omega
  have hcodes : codesOffset metadata = 8 + codesStart metadata := by
    rw [codesOffset, slotCount, h.nodes_eq, hstart, codesStart]
    omega
  have hvectors : vectorsOffset metadata = 16 := by
    rw [vectorsOffset, slotCount, h.nodes_eq]
  have hdegree : nodeDegree page =
      storedDegree metadata (pageOf source dim degree pq_code_bytes 1 rest) 0 := by
    rw [nodeDegree, ← hpage, wordAt_nodePage, storedDegree, slotCount, h.nodes_eq]
  have hneighbor : neighborAt metadata page =
      storedNeighbor metadata (pageOf source dim degree pq_code_bytes 1 rest) 0 := by
    funext n
    rw [neighborAt, ← hpage, wordAt_nodePage, storedNeighbor, hstart, Nat.zero_mul, Nat.add_zero,
      Nat.add_assoc]
  refine ⟨hdegree ▸ (whole_pageOf h hsound hslot).1, ?_⟩
  have hid : wordAt page 0 = source.id 0 := by
    rw [← hpage, wordAt_nodePage]
    exact storedId_pageOf hsound hslot
  have hneighbors : keptNeighbors metadata page metadata.degree.toNat = source.neighbors 0 := by
    rw [keptNeighbors, hneighbor, hdegree]
    exact neighbors_pageOf h hsound hslot
  have hvector : ((List.range metadata.dim.toNat).map fun d => wordAt page (8 + d * 4)) =
      source.row 0 := by
    refine List.ext_getElem ?_ fun d hd hd' => ?_
    · rw [List.length_map, List.length_range, h.dim_eq, hsound.row_length 0 hslot]
    · have hlt : d < dim := hsound.row_length 0 hslot ▸ hd'
      have hword := @vector_pageOf metadata source dim degree pq_code_bytes 1 rest h hsound 0 hslot d hlt
      rw [hvectors, Nat.zero_mul, Nat.add_zero] at hword
      rw [List.getElem_map, List.getElem_range, ← hpage, wordAt_nodePage, ← Nat.add_assoc, hword,
        List.getD_eq_getElem?_getD, List.getElem?_eq_getElem hd']
      rfl
  have hall : slice page (codesStart metadata)
      ((nodeDegree page).toNat * metadata.neighbor_pq_code_bytes.toNat) =
      (source.neighbors 0).flatMap (codesOf source pq_code_bytes) := by
    have hdecoded := @codes_pageOf metadata source dim degree pq_code_bytes 1 rest h hsound 0 hslot
    have hle := Nat.mul_le_mul_right pq_code_bytes (hsound.degree_le 0 hslot)
    rw [decodedCodes, storedCodes, storedDegree_toNat h hsound hslot, codeBytes, h.degree_eq,
      h.codes_eq, Nat.min_eq_right hle, Nat.sub_self, List.replicate_zero, List.append_nil, hcodes,
      Nat.zero_mul, Nat.add_zero] at hdecoded
    rw [← hdecoded, ← hpage, slice_nodePage, hpage, hdegree, storedDegree_toNat h hsound hslot,
      h.codes_eq]
  rw [nodeOf, hid, hneighbors, hvector, hall]

end RoundTrip

end NaiveNodePage
