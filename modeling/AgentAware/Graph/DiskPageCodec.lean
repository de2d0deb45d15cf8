import AgentAware.Core.PQDistances
import AgentAware.Lib.Codec
import AgentAware.Lib.Decides

/-!
# Decoding a packed page

`decode_packed_page` reads a page from its bytes with a cursor: the page id and the number of nodes,
the ids and degrees of all slots, the vectors, the neighbours, and the codes of the neighbours. Every
read of the page is checked by the code, and every access to its other arrays is checked here.

## Main definitions

- `getWord`, `getByte` — `get_bytes` for the two types that are read
- `decodePackedPage` — the decoder
- `findNode`, `vectorData` — a node of a decoded page and its vector
-/

namespace DiskPageCodec

/-- The fields that the decoder uses. -/
structure DiskGraphMetadata where
  dim : UInt32 := 0
  degree : UInt32 := 0
  nodes_per_page : UInt32 := 1
  neighbor_pq_code_bytes : UInt32 := 0

structure DiskNode where
  id : NodeId := 0
  neighbors : List NodeId := []
  neighbor_pq_codes : List UInt8 := []
  /-- The decoder leaves the vector in the page. -/
  vector : List FloatBits := []
  vector_offset : ℕ := 0
  deriving DecidableEq

structure DecodedPage where
  page_id : UInt32
  bytes : Bytes
  nodes : List DiskNode
  deriving DecidableEq

/-- `0xffffffff`, which stands for no neighbour. -/
def kNoNeighbor : NodeId := 0xffffffff

section Reading

variable (page : Bytes)

/-- The 32 bits at an offset. -/
def wordAt (offset : ℕ) : UInt32 := UInt32.ofNat (Codec.getLE ((page.drop offset).take 4))

def getWord (cursor : ℕ) : Except Fault (UInt32 × ℕ) := do
  throwFault (page.length < cursor + 4) "Graph node page is truncated"
  return (wordAt page cursor, cursor + 4)

def getByte (cursor : ℕ) : Except Fault (UInt8 × ℕ) := do
  throwFault (page.length < cursor + 1) "Graph node page is truncated"
  return (page.getD cursor 0, cursor + 1)

/-- `values[i] = get_bytes(...)`, on the values and the cursor. -/
def readSlot (state : List UInt32 × ℕ) (i : ℕ) : Except Fault (List UInt32 × ℕ) := do
  let (value, cursor) ← getWord page state.2
  let values ← store state.1 i value
  return (values, cursor)

def readSlots (count cursor : ℕ) : Except Fault (List UInt32 × ℕ) :=
  (List.range count).foldlM (readSlot page) (List.replicate count 0, cursor)

end Reading

section Decoding

variable (metadata : DiskGraphMetadata) (page : Bytes) (node_count : UInt32)
  (ids degrees : List UInt32)

/-- `dim * sizeof(float)`. -/
def vectorBytes : ℕ := metadata.dim.toNat * 4

/-- A node of the page, with the offset of its vector. -/
def placeVector (state : List DiskNode × ℕ) (slot : ℕ) : Except Fault (List DiskNode × ℕ) := do
  throwFault (page.length < state.2 + vectorBytes metadata) "Packed vector block is truncated"
  let cursor := state.2 + vectorBytes metadata
  if slot < node_count.toNat then
    let id ← load ids slot
    return (state.1 ++ [{ id := id, vector_offset := state.2 }], cursor)
  else return (state.1, cursor)

/-- A neighbour is kept within the stored degree, unless there is none. -/
def readNeighbor (slot : ℕ) (degree : UInt32) (state : List NodeId × ℕ) (n : ℕ) :
    Except Fault (List NodeId × ℕ) := do
  let (neighbor, cursor) ← getWord page state.2
  if slot < node_count.toNat ∧ n < degree.toNat ∧ neighbor ≠ kNoNeighbor then
    return (state.1 ++ [neighbor], cursor)
  else return (state.1, cursor)

def readNeighbors (state : List DiskNode × ℕ) (slot : ℕ) : Except Fault (List DiskNode × ℕ) := do
  let degree ← load degrees slot
  let (neighbors, cursor) ← (List.range metadata.degree.toNat).foldlM
    (readNeighbor page node_count slot degree) ([], state.2)
  if slot < node_count.toNat then
    let node ← load state.1 slot
    let nodes ← store state.1 slot { node with neighbors := neighbors }
    return (nodes, cursor)
  else return (state.1, cursor)

/-- The codes of a node, how many of them are written, and the cursor. -/
structure CodeState where
  codes : List UInt8
  written : ℕ
  cursor : ℕ

/-- A code is kept within the stored degree. -/
def readCode (slot : ℕ) (degree : UInt32) (n : ℕ) (state : CodeState) (_b : ℕ) :
    Except Fault CodeState := do
  let (code, cursor) ← getByte page state.cursor
  if slot < node_count.toNat ∧ n < degree.toNat then
    let codes ← store state.codes state.written code
    return ⟨codes, state.written + 1, cursor⟩
  else return { state with cursor := cursor }

/-- `codes.resize(size)`: a size beyond `max_size()` throws. -/
def resizeCodes (size : ℕ) : Except Fault (List UInt8) := do
  throwFault (2 ^ 63 - 1 < size) "vector::_M_default_append"
  return List.replicate size 0

/-- The codes of a slot have as many places as the stored degree asks for. -/
def slotCodes (slot : ℕ) (degree : UInt32) : Except Fault (List UInt8) :=
  if slot < node_count.toNat then
    resizeCodes (degree.toNat * metadata.neighbor_pq_code_bytes.toNat)
  else .ok []

def readCodes (state : List DiskNode × ℕ) (slot : ℕ) : Except Fault (List DiskNode × ℕ) := do
  let degree ← load degrees slot
  let codes ← slotCodes metadata node_count slot degree
  let read ← (List.range metadata.degree.toNat).foldlM (fun state n =>
    (List.range metadata.neighbor_pq_code_bytes.toNat).foldlM
      (readCode page node_count slot degree n) state) ⟨codes, 0, state.2⟩
  if slot < node_count.toNat then
    let node ← load state.1 slot
    let nodes ← store state.1 slot { node with neighbor_pq_codes := read.codes }
    return (nodes, read.cursor)
  else return (state.1, read.cursor)

end Decoding

def decodePackedPage (metadata : DiskGraphMetadata) (page_id : UInt32) (page : Bytes) :
    Except Fault DecodedPage := do
  let (stored_id, cursor) ← getWord page 0
  let (node_count, cursor) ← getWord page cursor
  throwFault (stored_id ≠ page_id ∨ metadata.nodes_per_page < node_count)
    "Corrupted packed graph page header"
  let slots := metadata.nodes_per_page.toNat
  let (ids, cursor) ← readSlots page slots cursor
  let (degrees, cursor) ← readSlots page slots cursor
  let (nodes, cursor) ← (List.range slots).foldlM (placeVector metadata page node_count ids)
    ([], cursor)
  let (nodes, cursor) ← (List.range slots).foldlM (readNeighbors metadata page node_count degrees)
    (nodes, cursor)
  if 0 < metadata.neighbor_pq_code_bytes.toNat then
    let (nodes, _) ← (List.range slots).foldlM (readCodes metadata page node_count degrees)
      (nodes, cursor)
    return ⟨stored_id, page, nodes⟩
  else return ⟨stored_id, page, nodes⟩

def findNode (page : DecodedPage) (node_id : NodeId) : Except Fault DiskNode :=
  match page.nodes.find? fun node => node.id == node_id with
  | none => .error (.thrown "Node is missing from packed page")
  | some node => .ok node

/-- The floats behind the pointer that `vector_data` returns. -/
def vectorData (metadata : DiskGraphMetadata) (page : DecodedPage) (node : DiskNode) :
    Except Fault (List FloatBits) := do
  throwFault (page.bytes.length < node.vector_offset + vectorBytes metadata)
    "Packed node vector points outside page"
  return (List.range metadata.dim.toNat).map fun d => wordAt page.bytes (node.vector_offset + d * 4)

end DiskPageCodec
