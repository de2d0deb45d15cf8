import AgentAware.Core.PQDistances
import AgentAware.Graph.DiskPageCodec
import AgentAware.Graph.PackedOrder
import AgentAware.Lib.Rows
import Mathlib.Tactic.Ring

/-!
# Encoding a packed page

`encode_packed_page` fills a page from its front, with the same sections in the same order as the
decoder reads them. Every write is checked by the code, and every access to the graph, the order and
the codes is checked here. The page is the sections one after the other, each a table with one row for
a slot.

## Main definitions

- `putBytes` — `put_bytes`
- `encodePackedPage` — the encoder
- `PageSource`, `packedPage` — what a page is made of, and its bytes

## Main results

- `returns_encodePackedPage` — the encoder returns when the sections fit the page
-/

open Graph

namespace DiskPageCodec

def putBytes (state : Bytes × ℕ) (data : Bytes) : Except Fault (Bytes × ℕ) := do
  throwFault (state.1.length < state.2 + data.length) "Graph node page overflow"
  return (overwrite state.1 state.2 data, state.2 + data.length)

def wordBytes (value : UInt32) : Bytes := Codec.putLE 4 value.toNat

/-- The code bytes of a vector, if there is a model. -/
def pqCodeBytes {F : Type} (pq_model : Option (PQEncoder F)) : ℕ :=
  match pq_model with
  | none => 0
  | some model => if model.enabled then model.subspaces else 0

section Encoding

variable {F : Type} (base : VectorSet) (graph : Adjacency) (order : List NodeId)
  (pq_model : Option (PQEncoder F)) (degree first : ℕ) (node_count : UInt32)

/-- The id of a slot. -/
def slotId (slot : ℕ) : Except Fault NodeId :=
  if slot < node_count.toNat then load order (first + slot) else .ok 0xffffffff

def putId (state : Bytes × ℕ) (slot : ℕ) : Except Fault (Bytes × ℕ) := do
  let id ← slotId order first node_count slot
  putBytes state (wordBytes id)

def packedDegree (slot : ℕ) : Except Fault UInt32 :=
  if slot < node_count.toNat then do
    let id ← load order (first + slot)
    let neighbors ← load graph id.toNat
    return UInt32.ofNat neighbors.length
  else .ok 0

def putDegree (state : Bytes × ℕ) (slot : ℕ) : Except Fault (Bytes × ℕ) := do
  let packed_degree ← packedDegree graph order first node_count slot
  putBytes state (wordBytes packed_degree)

def putVector (state : Bytes × ℕ) (slot : ℕ) : Except Fault (Bytes × ℕ) := do
  throwFault (state.1.length < state.2 + base.dim * 4) "Packed vector block exceeds page size"
  if slot < node_count.toNat then
    let id ← load order (first + slot)
    throwFault (base.size ≤ id.toNat) "VectorSet row index out of range"
    return (overwrite state.1 state.2 ((base.row id.toNat).flatMap wordBytes),
      state.2 + base.dim * 4)
  else return (state.1, state.2 + base.dim * 4)

/-- The neighbour of a slot at a place, or `0xffffffff`. -/
def packedNeighbor (node_id : NodeId) (slot n : ℕ) : Except Fault NodeId :=
  if slot < node_count.toNat then do
    let neighbors ← load graph node_id.toNat
    return neighbors.getD n 0xffffffff
  else .ok 0xffffffff

def putNeighbors (state : Bytes × ℕ) (slot : ℕ) : Except Fault (Bytes × ℕ) := do
  let node_id ← slotId order first node_count slot
  (List.range degree).foldlM (fun state n => do
    let neighbor ← packedNeighbor graph node_count node_id slot n
    putBytes state (wordBytes neighbor)) state

/-- A code of a neighbour, or zero where there is no neighbour. -/
def neighborCode (codes : List UInt8) (pq_code_bytes : ℕ) (neighbor : NodeId) (b : ℕ) :
    Except Fault UInt8 :=
  if neighbor ≠ 0xffffffff then load codes (neighbor.toNat * pq_code_bytes + b) else .ok 0

def putCodes (codes : List UInt8) (pq_code_bytes : ℕ) (state : Bytes × ℕ) (slot : ℕ) :
    Except Fault (Bytes × ℕ) := do
  let node_id ← slotId order first node_count slot
  (List.range degree).foldlM (fun state n => do
    let neighbor ← packedNeighbor graph node_count node_id slot n
    (List.range pq_code_bytes).foldlM (fun state b => do
      let code ← neighborCode codes pq_code_bytes neighbor b
      putBytes state [code]) state) state

/-- The codes are put behind the rest when there is a model that is enabled. -/
def putAllCodes (nodes_per_page : ℕ) (state : Bytes × ℕ) : Except Fault (Bytes × ℕ) :=
  match pq_model with
  | none => .ok state
  | some model =>
    if 0 < pqCodeBytes pq_model then
      (List.range nodes_per_page).foldlM
        (putCodes graph order degree first node_count model.codes (pqCodeBytes pq_model)) state
    else .ok state

def encodePackedPage (nodes_per_page page_size : ℕ) (page_id : UInt32) : Except Fault Bytes := do
  throwFault (0 < pqCodeBytes pq_model ∧ (pq_model.map PQEncoder.vectorCount).getD 0 < base.size)
    "PQ model does not cover packed graph base vectors"
  let first := page_id.toNat * nodes_per_page
  let last := min (first + nodes_per_page) order.length
  -- A page behind the last one would wrap around.
  let node_count := UInt32.ofNat (2 ^ 64 + last - first)
  let state ← putBytes (List.replicate page_size 0, 0) (wordBytes page_id)
  let state ← putBytes state (wordBytes node_count)
  let state ← (List.range nodes_per_page).foldlM (putId order first node_count) state
  let state ← (List.range nodes_per_page).foldlM (putDegree graph order first node_count) state
  let state ← (List.range nodes_per_page).foldlM (putVector base order first node_count) state
  let state ← (List.range nodes_per_page).foldlM
    (putNeighbors graph order degree first node_count) state
  let state ← putAllCodes graph order pq_model degree first node_count nodes_per_page state
  return state.1

end Encoding

/-- What a page is made of. -/
structure PageSource where
  page_id : UInt32
  node_count : ℕ
  id : ℕ → NodeId
  row : ℕ → List FloatBits
  neighbors : ℕ → List NodeId
  codes : NodeId → ℕ → UInt8

section Sections

variable (source : PageSource) (dim degree pq_code_bytes : ℕ)

def idRow (slot : ℕ) : Bytes :=
  wordBytes (if slot < source.node_count then source.id slot else 0xffffffff)

def degreeRow (slot : ℕ) : Bytes :=
  wordBytes (if slot < source.node_count then UInt32.ofNat (source.neighbors slot).length else 0)

def vectorRow (slot : ℕ) : Bytes :=
  if slot < source.node_count then (source.row slot).flatMap wordBytes
  else List.replicate (dim * 4) 0

/-- The neighbour of a slot at a place, or `0xffffffff`. -/
def sourceNeighbor (slot n : ℕ) : NodeId :=
  if slot < source.node_count then (source.neighbors slot).getD n 0xffffffff else 0xffffffff

def neighborRow (slot : ℕ) : Bytes :=
  table (fun n => wordBytes (sourceNeighbor source slot n)) degree

def codesOf (neighbor : NodeId) : Bytes :=
  (List.range pq_code_bytes).map fun b =>
    if neighbor ≠ 0xffffffff then source.codes neighbor b else 0

def codeRow (slot : ℕ) : Bytes :=
  table (fun n => codesOf source pq_code_bytes (sourceNeighbor source slot n)) degree

def packedPage (nodes_per_page : ℕ) : Bytes :=
  wordBytes source.page_id ++ wordBytes (UInt32.ofNat source.node_count) ++
    table (idRow source) nodes_per_page ++ table (degreeRow source) nodes_per_page ++
    table (vectorRow source dim) nodes_per_page ++ table (neighborRow source degree) nodes_per_page ++
    table (codeRow source degree pq_code_bytes) nodes_per_page

end Sections

section Encoder

variable {F : Type} {base : VectorSet} {graph : Adjacency} {order : List NodeId}
  {pq_model : Option (PQEncoder F)} {first degree size slot : ℕ} {node_count : UInt32}
  {source : PageSource} {written : Bytes} {state : Bytes × ℕ}

/-- The page is made of the nodes behind a place of the order. -/
structure PageSource.From (source : PageSource) (base : VectorSet) (graph : Adjacency)
    (order : List NodeId) (pq_model : Option (PQEncoder F)) (first : ℕ) : Prop where
  id_eq : ∀ slot < source.node_count, order[first + slot]? = some (source.id slot)
  neighbors_eq : ∀ slot < source.node_count,
    graph[(source.id slot).toNat]? = some (source.neighbors slot)
  id_lt : ∀ slot < source.node_count, (source.id slot).toNat < base.size
  row_eq : ∀ slot < source.node_count, source.row slot = base.row (source.id slot).toNat
  row_length : ∀ slot < source.node_count, (source.row slot).length = base.dim
  codes_eq : ∀ model, pq_model = some model → ∀ slot < source.node_count,
    ∀ neighbor ∈ source.neighbors slot, ∀ b < pqCodeBytes pq_model,
      model.codes[neighbor.toNat * pqCodeBytes pq_model + b]? = some (source.codes neighbor b)

theorem length_wordBytes (value : UInt32) : (wordBytes value).length = 4 := Codec.length_putLE _ _

theorem length_flatMap_wordBytes (words : List UInt32) :
    (words.flatMap wordBytes).length = words.length * 4 := by
  induction words with
  | nil => rfl
  | cons word words ih =>
    rw [List.flatMap_cons, List.length_append, ih, length_wordBytes, List.length_cons]
    omega

theorem returns_putBytes (h : Filled 0 size written state) {data : Bytes}
    (hfits : written.length + data.length ≤ size) :
    Returns (putBytes state data) (Filled 0 size (written ++ data)) := by
  have hroom : ¬state.1.length < state.2 + data.length := by
    rw [h.length_eq, h.cursor_eq]
    omega
  refine Returns.bind (returns_throwFault hroom) fun _ _ => ?_
  exact Returns.pure (h.write hfits)

theorem returns_slotId (h : source.From base graph order pq_model first)
    (hcount : node_count.toNat = source.node_count) :
    Returns (slotId order first node_count slot) fun id =>
      id = if slot < source.node_count then source.id slot else 0xffffffff := by
  rw [slotId, hcount]
  split
  · next hin => exact returns_load_eq (h.id_eq slot hin)
  · exact Returns.pure rfl

theorem length_idRow (source : PageSource) (slot : ℕ) : (idRow source slot).length = 4 :=
  length_wordBytes _

theorem length_degreeRow (source : PageSource) (slot : ℕ) : (degreeRow source slot).length = 4 :=
  length_wordBytes _

theorem returns_putId (h : source.From base graph order pq_model first)
    (hcount : node_count.toNat = source.node_count) (hstate : Filled 0 size written state)
    (hfits : written.length + 4 ≤ size) :
    Returns (putId order first node_count state slot)
      (Filled 0 size (written ++ idRow source slot)) := by
  refine Returns.bind (returns_slotId h hcount) ?_
  rintro _ rfl
  exact returns_putBytes hstate (by rwa [length_wordBytes])

theorem returns_putDegree (h : source.From base graph order pq_model first)
    (hcount : node_count.toNat = source.node_count) (hstate : Filled 0 size written state)
    (hfits : written.length + 4 ≤ size) :
    Returns (putDegree graph order first node_count state slot)
      (Filled 0 size (written ++ degreeRow source slot)) := by
  have hdegree : Returns (packedDegree graph order first node_count slot) fun packed_degree =>
      packed_degree =
        if slot < source.node_count then UInt32.ofNat (source.neighbors slot).length else 0 := by
    rw [packedDegree, hcount]
    split
    · next hin =>
      refine Returns.bind (returns_load_eq (h.id_eq slot hin)) ?_
      rintro _ rfl
      refine Returns.bind (returns_load_eq (h.neighbors_eq slot hin)) ?_
      rintro _ rfl
      exact Returns.pure rfl
    · exact Returns.pure rfl
  refine Returns.bind hdegree ?_
  rintro _ rfl
  exact returns_putBytes hstate (by rwa [length_wordBytes])

theorem returns_putVector (h : source.From base graph order pq_model first)
    (hcount : node_count.toNat = source.node_count) (hstate : Filled 0 size written state)
    (hfits : written.length + base.dim * 4 ≤ size) :
    Returns (putVector base order first node_count state slot)
      (Filled 0 size (written ++ vectorRow source base.dim slot)) := by
  have hroom : ¬state.1.length < state.2 + base.dim * 4 := by
    rw [hstate.length_eq, hstate.cursor_eq]
    omega
  refine Returns.bind (returns_throwFault hroom) fun _ _ => ?_
  rw [vectorRow, hcount]
  split
  · next hin =>
    refine Returns.bind (returns_load_eq (h.id_eq slot hin)) ?_
    rintro _ rfl
    refine Returns.bind (returns_throwFault (not_le.mpr (h.id_lt slot hin))) fun _ _ => ?_
    have hlength : ((source.row slot).flatMap wordBytes).length = base.dim * 4 := by
      rw [length_flatMap_wordBytes, h.row_length slot hin]
    rw [← h.row_eq slot hin, ← hlength]
    exact Returns.pure (hstate.write (by omega))
  · exact Returns.pure (hstate.skip hfits)

theorem returns_packedNeighbor (h : source.From base graph order pq_model first)
    (hcount : node_count.toNat = source.node_count) (n : ℕ) :
    Returns (packedNeighbor graph node_count
      (if slot < source.node_count then source.id slot else 0xffffffff) slot n)
      (· = sourceNeighbor source slot n) := by
  rw [packedNeighbor, hcount, sourceNeighbor]
  split
  · next hin =>
    refine Returns.bind (returns_load_eq (h.neighbors_eq slot hin)) ?_
    rintro _ rfl
    exact Returns.pure rfl
  · exact Returns.pure rfl

theorem length_neighborRow (slot : ℕ) : (neighborRow source degree slot).length = degree * 4 :=
  length_table fun _ _ => length_wordBytes _

theorem returns_putNeighbors (h : source.From base graph order pq_model first)
    (hcount : node_count.toNat = source.node_count) (hstate : Filled 0 size written state)
    (hfits : written.length + degree * 4 ≤ size) :
    Returns (putNeighbors graph order degree first node_count state slot)
      (Filled 0 size (written ++ neighborRow source degree slot)) := by
  refine Returns.bind (returns_slotId h hcount) ?_
  rintro _ rfl
  refine Filled.rows (fun n _ => length_wordBytes _) ?_ hfits hstate
  intro n _ written state hstate hroom
  refine Returns.bind (returns_packedNeighbor h hcount n) ?_
  rintro _ rfl
  exact returns_putBytes hstate (by rwa [length_wordBytes])

theorem length_codesOf (pq_code_bytes : ℕ) (neighbor : NodeId) :
    (codesOf source pq_code_bytes neighbor).length = pq_code_bytes := by
  rw [codesOf, List.length_map, List.length_range]

theorem length_codeRow (pq_code_bytes slot : ℕ) :
    (codeRow source degree pq_code_bytes slot).length = degree * pq_code_bytes :=
  length_table fun _ _ => length_codesOf pq_code_bytes _

theorem sourceNeighbor_mem {n : ℕ} (h : sourceNeighbor source slot n ≠ 0xffffffff) :
    slot < source.node_count ∧ sourceNeighbor source slot n ∈ source.neighbors slot := by
  rw [sourceNeighbor] at h ⊢
  split at h
  · next hin =>
    rw [if_pos hin]
    by_cases hn : n < (source.neighbors slot).length
    · rw [List.getD_eq_getElem?_getD, List.getElem?_eq_getElem hn]
      exact ⟨hin, List.getElem_mem hn⟩
    · rw [List.getD_eq_getElem?_getD, List.getElem?_eq_none (not_lt.mp hn)] at h
      exact absurd rfl h
  · exact absurd rfl h

theorem returns_putCodes {model : PQEncoder F}
    (h : source.From base graph order (some model) first)
    (hcount : node_count.toNat = source.node_count) (hstate : Filled 0 size written state)
    (hfits : written.length + degree * pqCodeBytes (some model) ≤ size) :
    Returns (putCodes graph order degree first node_count model.codes (pqCodeBytes (some model))
        state slot)
      (Filled 0 size (written ++ codeRow source degree (pqCodeBytes (some model)) slot)) := by
  refine Returns.bind (returns_slotId h hcount) ?_
  rintro _ rfl
  refine Filled.rows (fun n _ => length_codesOf _ _) ?_ hfits hstate
  intro n _ written state hstate hroom
  refine Returns.bind (returns_packedNeighbor h hcount n) ?_
  rintro _ rfl
  have hcodes : codesOf source (pqCodeBytes (some model)) (sourceNeighbor source slot n) =
      table (fun b => [if sourceNeighbor source slot n ≠ 0xffffffff then
        source.codes (sourceNeighbor source slot n) b else 0]) (pqCodeBytes (some model)) := by
    rw [codesOf, table, List.map_eq_flatMap]
  rw [hcodes]
  refine Filled.rows (fun b _ => rfl) ?_ (by rwa [Nat.mul_one]) hstate
  intro b hb written state hstate hroom
  have hcode : Returns (neighborCode model.codes (pqCodeBytes (some model))
      (sourceNeighbor source slot n) b) (· = if sourceNeighbor source slot n ≠ 0xffffffff then
        source.codes (sourceNeighbor source slot n) b else 0) := by
    rw [neighborCode]
    split
    · next hsome =>
      obtain ⟨hin, hmem⟩ := sourceNeighbor_mem hsome
      exact returns_load_eq (h.codes_eq model rfl slot hin _ hmem b hb)
    · exact Returns.pure rfl
  refine Returns.bind hcode ?_
  rintro _ rfl
  exact returns_putBytes hstate hroom

variable {nodes_per_page page_size : ℕ}

theorem returns_putAllCodes (h : source.From base graph order pq_model first)
    (hcount : node_count.toNat = source.node_count) (hstate : Filled 0 size written state)
    (hfits : written.length + nodes_per_page * (degree * pqCodeBytes pq_model) ≤ size) :
    Returns (putAllCodes graph order pq_model degree first node_count nodes_per_page state)
      (Filled 0 size
        (written ++ table (codeRow source degree (pqCodeBytes pq_model)) nodes_per_page)) := by
  have hnone : pqCodeBytes pq_model = 0 →
      written ++ table (codeRow source degree (pqCodeBytes pq_model)) nodes_per_page = written := by
    intro hzero
    have hempty : (table (codeRow source degree (pqCodeBytes pq_model)) nodes_per_page).length = 0 := by
      rw [length_table fun _ _ => length_codeRow _ _, hzero, Nat.mul_zero, Nat.mul_zero]
    rw [List.eq_nil_of_length_eq_zero hempty, List.append_nil]
  cases pq_model with
  | none => exact ⟨state, rfl, (hnone rfl).symm ▸ hstate⟩
  | some model =>
    rw [putAllCodes]
    split
    · exact Filled.rows (fun _ _ => length_codeRow _ _)
        (fun slot _ _ _ hstate hroom => returns_putCodes h hcount hstate hroom) hfits hstate
    · next hzero =>
      exact ⟨state, rfl, (hnone (Nat.eq_zero_of_not_pos hzero)).symm ▸ hstate⟩

/-- `graph_record_bytes`. -/
def graphRecordBytes (dim degree neighbor_pq_code_bytes : ℕ) : ℕ :=
  4 * 2 + dim * 4 + degree * 4 + degree * neighbor_pq_code_bytes

theorem length_packedPage (source : PageSource) (degree pq_code_bytes nodes_per_page : ℕ)
    {dim : ℕ} (hrow : ∀ slot < nodes_per_page, (vectorRow source dim slot).length = dim * 4) :
    (packedPage source dim degree pq_code_bytes nodes_per_page).length =
      8 + nodes_per_page * graphRecordBytes dim degree pq_code_bytes := by
  simp only [packedPage, List.length_append, length_wordBytes, length_table hrow,
    length_table fun slot _ => length_idRow source slot,
    length_table fun slot _ => length_degreeRow source slot,
    length_table fun slot _ => @length_neighborRow degree source slot,
    length_table fun slot _ => @length_codeRow degree source pq_code_bytes slot,
    graphRecordBytes]
  ring

theorem length_vectorRow (h : source.From base graph order pq_model first) (slot : ℕ) :
    (vectorRow source base.dim slot).length = base.dim * 4 := by
  rw [vectorRow]
  split
  · next hin => rw [length_flatMap_wordBytes, h.row_length slot hin]
  · exact List.length_replicate

/-- The encoder returns when the sections fit the page. -/
theorem returns_encodePackedPage
    (h : source.From base graph order pq_model (source.page_id.toNat * nodes_per_page))
    (hcount : source.node_count + source.page_id.toNat * nodes_per_page =
      min (source.page_id.toNat * nodes_per_page + nodes_per_page) order.length)
    (hlimit : source.node_count < 2 ^ 32)
    (hmodel : ¬(0 < pqCodeBytes pq_model ∧
      (pq_model.map PQEncoder.vectorCount).getD 0 < base.size))
    (hfits : 8 + nodes_per_page * graphRecordBytes base.dim degree (pqCodeBytes pq_model) ≤
      page_size) :
    Returns (encodePackedPage base graph order pq_model degree nodes_per_page page_size
        source.page_id) fun page => page =
      packedPage source base.dim degree (pqCodeBytes pq_model) nodes_per_page ++
        List.replicate (page_size - (8 + nodes_per_page *
          graphRecordBytes base.dim degree (pqCodeBytes pq_model))) 0 := by
  have hnodes : UInt32.ofNat (2 ^ 64 + min (source.page_id.toNat * nodes_per_page + nodes_per_page)
      order.length - source.page_id.toNat * nodes_per_page) = UInt32.ofNat source.node_count := by
    rw [← hcount, ← UInt32.toNat_inj, UInt32.toNat_ofNat', UInt32.toNat_ofNat']
    omega
  have hnode_count : (UInt32.ofNat source.node_count).toNat = source.node_count := by
    rw [UInt32.toNat_ofNat']
    exact Nat.mod_eq_of_lt hlimit
  have hsplit : nodes_per_page * graphRecordBytes base.dim degree (pqCodeBytes pq_model) =
      nodes_per_page * 4 + nodes_per_page * 4 + nodes_per_page * (base.dim * 4) +
        nodes_per_page * (degree * 4) + nodes_per_page * (degree * pqCodeBytes pq_model) := by
    rw [graphRecordBytes]
    ring
  have hpage := length_packedPage source degree (pqCodeBytes pq_model) nodes_per_page
    fun slot _ => length_vectorRow h slot
  rw [encodePackedPage]
  refine Returns.bind (returns_throwFault hmodel) fun _ _ => ?_
  dsimp only
  rw [hnodes]
  have hroom : ([] : Bytes).length + (wordBytes source.page_id).length ≤ page_size := by
    rw [List.length_nil, length_wordBytes]
    omega
  refine Returns.bind (returns_putBytes (Filled.nil 0 page_size) hroom) fun _ hid => ?_
  have hroom : ([] ++ wordBytes source.page_id).length +
      (wordBytes (UInt32.ofNat source.node_count)).length ≤ page_size := by
    rw [List.nil_append, length_wordBytes, length_wordBytes]
    omega
  refine Returns.bind (returns_putBytes hid hroom) fun _ hheader => ?_
  refine Returns.bind (Filled.rows (fun slot _ => length_idRow source slot)
    (fun slot _ _ _ hstate hroom => returns_putId h hnode_count hstate hroom)
    (by simp only [List.nil_append, List.length_append, length_wordBytes]; omega) hheader)
    fun _ hids => ?_
  refine Returns.bind (Filled.rows (fun slot _ => length_degreeRow source slot)
    (fun slot _ _ _ hstate hroom => returns_putDegree h hnode_count hstate hroom)
    (by
      simp only [List.nil_append, List.length_append, length_wordBytes,
        length_table fun slot _ => length_idRow source slot]
      omega) hids)
    fun _ hdegrees => ?_
  refine Returns.bind (Filled.rows (fun slot _ => length_vectorRow h slot)
    (fun slot _ _ _ hstate hroom => returns_putVector h hnode_count hstate hroom)
    (by
      simp only [List.nil_append, List.length_append, length_wordBytes,
        length_table fun slot _ => length_idRow source slot, length_table fun slot _ => length_degreeRow source slot]
      omega) hdegrees)
    fun _ hvectors => ?_
  refine Returns.bind (Filled.rows (fun slot _ => length_neighborRow slot)
    (fun slot _ _ _ hstate hroom => returns_putNeighbors h hnode_count hstate hroom)
    (by
      simp only [List.nil_append, List.length_append, length_wordBytes,
        length_table fun slot _ => length_idRow source slot, length_table fun slot _ => length_degreeRow source slot,
        length_table fun slot _ => length_vectorRow h slot]
      omega) hvectors)
    fun _ hneighbors => ?_
  refine Returns.bind (returns_putAllCodes h hnode_count hneighbors
    (by
      simp only [List.nil_append, List.length_append, length_wordBytes,
        length_table fun slot _ => length_idRow source slot, length_table fun slot _ => length_degreeRow source slot,
        length_table fun slot _ => length_vectorRow h slot,
        length_table fun slot _ => length_neighborRow slot]
      omega))
    fun state hall => Returns.pure ?_
  rw [hall.buffer_eq]
  rw [packedPage] at hpage
  rw [List.nil_append, hpage]
  rfl

end Encoder

end DiskPageCodec
