import AgentAware.Graph.BuildInvariants
import AgentAware.Graph.PackedIndexFile
import AgentAware.Graph.PackedPageRoundTrip
import AgentAware.Graph.PackedPermutation

/-!
# Building and opening a packed index

A configuration that the builder accepts gives a file that opens, whose directory names the one page of
every node, and whose pages decode to the vectors, the neighbours and the codes of their nodes. This
needs a page size that one read transfers (the header holds 32 bits of it, a page is read in one call,
and nothing checks either), and a record size that does not wrap around in 64 bits.

## Main definitions

- `pageSource`, `fileOf` — the nodes of a page, and the file
- `StoredOnce` — a node is on the page that the directory names, as it was given, and nowhere else
- `RoundTrip` — what building and opening an index should come to

## Main results

- `returns_directory`, `returns_encodePage`, `returns_build` — the steps of the builder
- `openIndex_fileOf`, `loadPage_fileOf` — opening the file, and loading its pages
- `build_roundTrip_iff` — the round trip, and when it fails
-/

open Graph DiskPageCodec

theorem throwFault_bind_eq_ok {α : Type} {condition : Prop} [Decidable condition] {message : String}
    {next : Unit → Except Fault α} {result : α} :
    (throwFault condition message >>= next) = .ok result ↔ ¬condition ∧ next () = .ok result := by
  rw [throwFault]
  split
  · next h =>
    constructor
    · intro hok
      cases hok
    · exact fun hok => absurd h hok.1
  · next h => exact ⟨fun hok => ⟨h, hok⟩, fun hok => hok.2⟩

theorem le_alignUp (value alignment : ℕ) : value ≤ alignUp value alignment := by
  rw [alignUp]
  split
  · exact le_rfl
  split
  · exact le_rfl
  · next hzero _ =>
    have hmod := Nat.mod_lt value (Nat.pos_of_ne_zero hzero)
    omega

theorem alignUp_lt {value alignment : ℕ} (h : 0 < alignment) :
    alignUp value alignment < value + alignment := by
  rw [alignUp, if_neg (Nat.ne_of_gt h)]
  split
  · omega
  · next hmod =>
    have hpos := Nat.pos_of_ne_zero hmod
    omega

namespace PackedDiskGraphBuilder

section Steps

variable {F D : Type} {ops : FloatOps F} {double : DoubleOps D} {random : Random}
  {base : VectorSet} {graph : Adjacency} {config : PackedBuildConfig F} {nodes_per_page : ℕ}
  {order : List NodeId}

/-- The builder accepts a configuration, and the sizes that it computes do not wrap around. -/
structure Accepted (base : VectorSet) (config : PackedBuildConfig F) (nodes_per_page : ℕ) : Prop where
  size_pos : 0 < base.size
  size_le : base.size ≤ 2 ^ 32 - 1
  degree_pos : 0 < config.degree
  page_size_le : kRecordsOffset ≤ config.page_size
  covered : ¬(0 < pqCodeBytes config.pq_model ∧
    (config.pq_model.map PQEncoder.vectorCount).getD 0 < base.size)
  nodes_pos : 0 < nodes_per_page
  fits : 8 + nodes_per_page *
    graphRecordBytes base.dim config.degree (pqCodeBytes config.pq_model) ≤ config.page_size

theorem acceptConfig_ok (h : acceptConfig base config = .ok nodes_per_page)
    (hrecord : graphRecordBytes base.dim config.degree (pqCodeBytes config.pq_model) < 2 ^ 64) :
    Accepted base config nodes_per_page := by
  simp only [acceptConfig, throwFault_bind_eq_ok] at h
  obtain ⟨hsize, hids, hdegree, hpage, hmodel, h⟩ := h
  rw [except_bind_eq_ok] at h
  obtain ⟨found, hfound, h⟩ := h
  rw [throwFault_bind_eq_ok] at h
  obtain ⟨hfound_pos, h⟩ := h
  cases h
  rw [packedNodesPerPage, recordBytes, Nat.mod_eq_of_lt hrecord] at hfound
  refine ⟨Nat.pos_of_ne_zero hsize, not_lt.mp hids, Nat.pos_of_ne_zero hdegree, not_lt.mp hpage,
    hmodel, Nat.pos_of_ne_zero hfound_pos, ?_⟩
  split at hfound
  · cases hfound
    exact absurd rfl hfound_pos
  split at hfound
  · cases hfound
  · next hlarge hpos =>
    cases hfound
    have hle := Nat.div_mul_le_self (config.page_size - 4 * 2)
      (graphRecordBytes base.dim config.degree (pqCodeBytes config.pq_model))
    omega

theorem toNat_lt_of_perm (horder : order.Perm (naturalOrder base.size))
    (hsize : base.size ≤ 2 ^ 32 - 1) {position : ℕ} {id : NodeId} (hid : order[position]? = some id) :
    id.toNat < base.size := by
  obtain ⟨i, hi, rfl⟩ := List.mem_map.mp (horder.mem_iff.mp (List.mem_of_getElem? hid))
  have hlt := List.mem_range.mp hi
  rwa [toNat_nodeId (by omega)]

theorem nodup_of_perm (horder : order.Perm (naturalOrder base.size))
    (hsize : base.size ≤ 2 ^ 32 - 1) : order.Nodup :=
  horder.nodup_iff.mpr (nodup_naturalOrder (by omega))

theorem position_eq (horder : order.Nodup) {id : NodeId} {a b : ℕ} (ha : order[a]? = some id)
    (hb : order[b]? = some id) : a = b := by
  obtain ⟨ha', haid⟩ := List.getElem?_eq_some_iff.mp ha
  obtain ⟨hb', hbid⟩ := List.getElem?_eq_some_iff.mp hb
  exact (horder.getElem_inj_iff).mp (haid.trans hbid.symm)

/-- The directory names the page of the place of every node. -/
theorem returns_directory (horder : order.Perm (naturalOrder base.size))
    (hsize : base.size ≤ 2 ^ 32 - 1) (nodes_per_page : ℕ) :
    Returns (directory base order nodes_per_page) fun node_to_page =>
      node_to_page.length = base.size ∧ ∀ position id, order[position]? = some id →
        node_to_page[id.toNat]? = some (UInt32.ofNat (position / nodes_per_page)) := by
  have hround : ∀ done < order.length, ∀ node_to_page : List UInt32,
      (node_to_page.length = base.size ∧ ∀ position < done, ∀ id, order[position]? = some id →
        node_to_page[id.toNat]? = some (UInt32.ofNat (position / nodes_per_page))) →
      Returns (do
        let id ← load order done
        store node_to_page id.toNat (UInt32.ofNat (done / nodes_per_page))) fun next =>
        next.length = base.size ∧ ∀ position < done + 1, ∀ id, order[position]? = some id →
          next[id.toNat]? = some (UInt32.ofNat (position / nodes_per_page)) := by
    rintro done hdone node_to_page ⟨hlength, hnamed⟩
    have hid := List.getElem?_eq_getElem hdone
    have hplace : order[done].toNat < node_to_page.length :=
      hlength ▸ toNat_lt_of_perm horder hsize hid
    refine Returns.bind (returns_load_eq hid) ?_
    rintro _ rfl
    refine ⟨_, store_ok hplace _, List.length_set.trans hlength, fun position hposition id hother => ?_⟩
    rw [List.getElem?_set]
    by_cases hlast : position = done
    · subst hlast
      rw [hid] at hother
      cases hother
      rw [if_pos rfl, if_pos hplace]
    · rw [if_neg, hnamed position (by omega) id hother]
      intro hsame
      rw [← UInt32.toNat_inj.mp hsame] at hother
      exact hlast (position_eq (nodup_of_perm horder hsize) hother hid)
  refine (Returns.foldlM_range hround ⟨List.length_replicate,
    fun position hposition => absurd hposition (Nat.not_lt_zero position)⟩).mono ?_
  rintro node_to_page ⟨hlength, hnamed⟩
  exact ⟨hlength, fun position id hid =>
    hnamed position (List.getElem?_eq_some_iff.mp hid).1 id hid⟩

end Steps

section Pages

variable {F : Type} (base : VectorSet) (graph : Adjacency) (order : List NodeId)
  (config : PackedBuildConfig F) (nodes_per_page : ℕ)

/-- The codes of a vector. -/
def modelCode (neighbor : NodeId) (b : ℕ) : UInt8 :=
  match config.pq_model with
  | none => 0
  | some model => model.codes.getD (neighbor.toNat * pqCodeBytes config.pq_model + b) 0

def pageSource (page_id : ℕ) : PageSource :=
  { page_id := UInt32.ofNat page_id
    node_count := min nodes_per_page (order.length - page_id * nodes_per_page)
    id := fun slot => order.getD (page_id * nodes_per_page + slot) 0
    row := fun slot => base.row (order.getD (page_id * nodes_per_page + slot) 0).toNat
    neighbors := fun slot =>
      neighborsOf graph (order.getD (page_id * nodes_per_page + slot) 0).toNat
    codes := modelCode config }

/-- A page of the file. -/
def pageBytesOf (page_id : ℕ) : Bytes :=
  pageOf (pageSource base graph order config nodes_per_page page_id) base.dim config.degree
    (pqCodeBytes config.pq_model) nodes_per_page
    (List.replicate (config.page_size - (8 + nodes_per_page *
      graphRecordBytes base.dim config.degree (pqCodeBytes config.pq_model))) 0)

/-- The graph is over the base, and no list is longer than the degree. -/
structure GraphOver (base : VectorSet) (graph : Adjacency) (degree : ℕ) : Prop where
  length_eq : graph.length = base.size
  id_lt : ∀ neighbors ∈ graph, ∀ id ∈ neighbors, id.toNat < base.size
  degree_le : ∀ neighbors ∈ graph, neighbors.length ≤ degree

variable {base graph order config nodes_per_page}

theorem row_length {index : ℕ} (h : index < base.size) : (base.row index).length = base.dim := by
  have hfits : (index + 1) * base.dim ≤ base.values.length := by
    refine (Nat.mul_le_mul_right base.dim h).trans ?_
    rw [VectorSet.size]
    split
    · rw [Nat.zero_mul]
      exact Nat.zero_le _
    · exact Nat.div_mul_le_self _ _
  rw [Nat.succ_mul] at hfits
  rw [VectorSet.row, List.length_take, List.length_drop]
  omega

theorem neighborsOf_mem (hgraph : GraphOver base graph config.degree) {id : ℕ}
    (hid : id < base.size) :
    graph[id]? = some (neighborsOf graph id) ∧ neighborsOf graph id ∈ graph := by
  have hlt : id < graph.length := hgraph.length_eq ▸ hid
  rw [neighborsOf, List.getD_eq_getElem?_getD, List.getElem?_eq_getElem hlt]
  exact ⟨rfl, List.getElem_mem hlt⟩

theorem modelCode_eq (haccepted : Accepted base config nodes_per_page) {model : PQEncoder F}
    (hmodel : config.pq_model = some model) {neighbor : NodeId} (hneighbor : neighbor.toNat < base.size)
    {b : ℕ} (hb : b < pqCodeBytes config.pq_model) :
    model.codes[neighbor.toNat * pqCodeBytes config.pq_model + b]? =
      some (modelCode config neighbor b) := by
  have hcovered := haccepted.covered
  rw [not_and, not_lt] at hcovered
  have hsize := hcovered (Nat.zero_lt_of_lt hb)
  rw [hmodel, Option.map_some, Option.getD_some, PQEncoder.vectorCount] at hsize
  have hbytes : pqCodeBytes config.pq_model = model.subspaces := by
    rw [hmodel, pqCodeBytes] at hb ⊢
    split
    · rfl
    · next hdisabled =>
      rw [if_neg hdisabled] at hb
      exact absurd hb (Nat.not_lt_zero b)
  rw [if_neg (by omega)] at hsize
  have hrow : (neighbor.toNat + 1) * model.subspaces ≤
      model.codes.length / model.subspaces * model.subspaces :=
    Nat.mul_le_mul_right _ (by omega)
  have hcodes := hrow.trans (Nat.div_mul_le_self _ _)
  rw [Nat.succ_mul] at hcodes
  have hin : neighbor.toNat * pqCodeBytes config.pq_model + b < model.codes.length := by
    rw [hbytes] at hb ⊢
    omega
  rw [modelCode, hmodel]
  dsimp only
  rw [hmodel] at hin
  rw [List.getD_eq_getElem?_getD, List.getElem?_eq_getElem hin]
  rfl

variable {page_id : ℕ}

theorem place_lt {slot : ℕ}
    (hslot : slot < (pageSource base graph order config nodes_per_page page_id).node_count) :
    page_id * nodes_per_page + slot < order.length ∧ slot < nodes_per_page := by
  have hslot' : slot < min nodes_per_page (order.length - page_id * nodes_per_page) := hslot
  omega

theorem id_pageSource {slot : ℕ}
    (hslot : slot < (pageSource base graph order config nodes_per_page page_id).node_count) :
    order[page_id * nodes_per_page + slot]? =
      some ((pageSource base graph order config nodes_per_page page_id).id slot) := by
  have hplace := (place_lt hslot).1
  show _ = some (order.getD (page_id * nodes_per_page + slot) 0)
  rw [List.getD_eq_getElem?_getD, List.getElem?_eq_getElem hplace]
  rfl

theorem pageSource_from (haccepted : Accepted base config nodes_per_page)
    (hgraph : GraphOver base graph config.degree) (horder : order.Perm (naturalOrder base.size)) :
    (pageSource base graph order config nodes_per_page page_id).From base graph order config.pq_model
      (page_id * nodes_per_page) := by
  have hid : ∀ slot < (pageSource base graph order config nodes_per_page page_id).node_count,
      ((pageSource base graph order config nodes_per_page page_id).id slot).toNat < base.size :=
    fun slot hslot => toNat_lt_of_perm horder haccepted.size_le (id_pageSource hslot)
  constructor
  · exact fun slot hslot => id_pageSource hslot
  · exact fun slot hslot => (neighborsOf_mem hgraph (hid slot hslot)).1
  · exact hid
  · exact fun slot hslot => rfl
  · exact fun slot hslot => row_length (hid slot hslot)
  · intro model hmodel slot hslot neighbor hneighbor b hb
    have hmem := (neighborsOf_mem hgraph (hid slot hslot)).2
    exact modelCode_eq haccepted hmodel (hgraph.id_lt _ hmem neighbor hneighbor) hb

theorem pageSource_sound (haccepted : Accepted base config nodes_per_page)
    (hgraph : GraphOver base graph config.degree) (horder : order.Perm (naturalOrder base.size)) :
    (pageSource base graph order config nodes_per_page page_id).Sound base.dim config.degree
      nodes_per_page := by
  have hfrom := @pageSource_from F base graph order config nodes_per_page page_id haccepted hgraph horder
  refine ⟨min_le_left _ _, hfrom.row_length, fun slot hslot => ?_, fun slot hslot id hid => ?_⟩
  · exact hgraph.degree_le _ (neighborsOf_mem hgraph (hfrom.id_lt slot hslot)).2
  · intro hnone
    have hlt := hgraph.id_lt _ (neighborsOf_mem hgraph (hfrom.id_lt slot hslot)).2 id hid
    have hsize := haccepted.size_le
    rw [hnone] at hlt
    have hlast : kNoNeighbor.toNat = 2 ^ 32 - 1 := rfl
    omega

theorem lt_pageCount {page : ℕ} (haccepted : Accepted base config nodes_per_page) :
    page < pageCount base nodes_per_page ↔ page * nodes_per_page < base.size := by
  have hpos := haccepted.nodes_pos
  rw [pageCount, ← Nat.succ_le_iff, Nat.le_div_iff_mul_le hpos, Nat.succ_mul]
  omega

theorem pageCount_le (haccepted : Accepted base config nodes_per_page) :
    pageCount base nodes_per_page ≤ base.size := by
  by_contra hlarge
  have hlast := (lt_pageCount haccepted).mp (not_le.mp hlarge)
  have hmul := Nat.mul_le_mul_left base.size haccepted.nodes_pos
  omega

theorem toNat_page {page : ℕ} (haccepted : Accepted base config nodes_per_page)
    (hpage : page < pageCount base nodes_per_page) : (UInt32.ofNat page).toNat = page := by
  have hle := pageCount_le haccepted
  have hsize := haccepted.size_le
  rw [UInt32.toNat_ofNat']
  exact Nat.mod_eq_of_lt (by omega)

/-- Encoding never overflows a page. -/
theorem returns_encodePage (haccepted : Accepted base config nodes_per_page)
    (hgraph : GraphOver base graph config.degree) (horder : order.Perm (naturalOrder base.size))
    (hpage : page_id < pageCount base nodes_per_page) :
    Returns (encodePackedPage base graph order config.pq_model config.degree nodes_per_page
        config.page_size (UInt32.ofNat page_id))
      (· = pageBytesOf base graph order config nodes_per_page page_id) := by
  have hid := toNat_page haccepted hpage
  have hlength : order.length = base.size := horder.length_eq.trans length_naturalOrder
  have hfirst := (lt_pageCount haccepted).mp hpage
  have hsize := haccepted.size_le
  have hfrom := @pageSource_from F base graph order config nodes_per_page page_id haccepted hgraph horder
  have hcount : (pageSource base graph order config nodes_per_page page_id).node_count =
      min nodes_per_page (order.length - page_id * nodes_per_page) := rfl
  refine @returns_encodePackedPage F base graph order config.pq_model config.degree
    (pageSource base graph order config nodes_per_page page_id) nodes_per_page config.page_size ?_ ?_ ?_ haccepted.covered haccepted.fits
  · show (pageSource base graph order config nodes_per_page page_id).From base graph order
      config.pq_model ((UInt32.ofNat page_id).toNat * nodes_per_page)
    rwa [hid]
  · show min nodes_per_page (order.length - page_id * nodes_per_page) +
      (UInt32.ofNat page_id).toNat * nodes_per_page =
      min ((UInt32.ofNat page_id).toNat * nodes_per_page + nodes_per_page) order.length
    rw [hid]
    omega
  · omega

theorem returns_writePages (haccepted : Accepted base config nodes_per_page)
    (hgraph : GraphOver base graph config.degree) (horder : order.Perm (naturalOrder base.size))
    (file : Bytes) :
    Returns (writePages base graph config order nodes_per_page file)
      (· = file ++ table (pageBytesOf base graph order config nodes_per_page)
        (pageCount base nodes_per_page)) := by
  refine Returns.foldlM_range (S := fun done written =>
    written = file ++ table (pageBytesOf base graph order config nodes_per_page) done) ?_ ?_
  · rintro page_id hpage _ rfl
    refine Returns.bind (returns_encodePage haccepted hgraph horder hpage) ?_
    rintro _ rfl
    exact Returns.pure (by rw [table_succ, List.append_assoc])
  · exact (List.append_nil file).symm

theorem length_pageBytesOf (haccepted : Accepted base config nodes_per_page)
    (hgraph : GraphOver base graph config.degree) (horder : order.Perm (naturalOrder base.size)) :
    (pageBytesOf base graph order config nodes_per_page page_id).length = config.page_size := by
  have hsound := @pageSource_sound F base graph order config nodes_per_page page_id haccepted hgraph
    horder
  rw [pageBytesOf, pageOf, List.length_append, List.length_replicate, length_packedPage _ _ _ _
    fun slot _ => hsound.length_vectorRow slot]
  exact Nat.add_sub_cancel' haccepted.fits

/-- What stands in front of the pages. -/
def head (base : VectorSet) (config : PackedBuildConfig F) (nodes_per_page : ℕ)
    (node_to_page : List UInt32) : Bytes :=
  header base config nodes_per_page ++
    (List.replicate (kRecordsOffset - (header base config nodes_per_page).length) 0 ++
      (node_to_page.flatMap wordBytes ++
        List.replicate (recordsOffset base config - (kRecordsOffset + base.size * 4)) 0))

theorem length_header (base : VectorSet) (config : PackedBuildConfig F) (nodes_per_page : ℕ) :
    (header base config nodes_per_page).length = 64 := by
  rw [header, List.length_append, List.length_append, Codec.length_putFields,
    Codec.length_putFields]
  rfl

/-- The file that is built. -/
def fileOf (base : VectorSet) (graph : Adjacency) (order : List NodeId) (config : PackedBuildConfig F)
    (nodes_per_page : ℕ) (node_to_page : List UInt32) : Bytes :=
  head base config nodes_per_page node_to_page ++
    table (pageBytesOf base graph order config nodes_per_page) (pageCount base nodes_per_page)

theorem length_head {node_to_page : List UInt32} (hlength : node_to_page.length = base.size) :
    (head base config nodes_per_page node_to_page).length = recordsOffset base config := by
  have hle : kRecordsOffset + base.size * 4 ≤ recordsOffset base config := le_alignUp _ _
  rw [head, List.length_append, List.length_append, List.length_append, List.length_replicate,
    List.length_replicate, length_flatMap_wordBytes, length_header, hlength]
  have hoffset : kRecordsOffset = 4096 := rfl
  omega

theorem length_fileOf (haccepted : Accepted base config nodes_per_page)
    (hgraph : GraphOver base graph config.degree) (horder : order.Perm (naturalOrder base.size))
    {node_to_page : List UInt32} (hlength : node_to_page.length = base.size) :
    (fileOf base graph order config nodes_per_page node_to_page).length =
      recordsOffset base config + pageCount base nodes_per_page * config.page_size := by
  rw [fileOf, List.length_append, length_head hlength,
    length_table fun _ _ => length_pageBytesOf haccepted hgraph horder]

variable {D : Type} {ops : FloatOps F} {double : DoubleOps D} {random : Random}

/-- An accepted configuration gives a file. -/
theorem returns_build (haccept : acceptConfig base config = .ok nodes_per_page)
    (haccepted : Accepted base config nodes_per_page) (hgraph : GraphOver base graph config.degree)
    (hordered : packedOrder ops double random base graph config nodes_per_page = .ok order)
    (horder : order.Perm (naturalOrder base.size)) :
    ∃ node_to_page, build ops double random base graph config =
        .ok (fileOf base graph order config nodes_per_page node_to_page) ∧
      node_to_page.length = base.size ∧ ∀ position id, order[position]? = some id →
        node_to_page[id.toNat]? = some (UInt32.ofNat (position / nodes_per_page)) := by
  obtain ⟨node_to_page, hdirectory, hlength, hnamed⟩ :=
    returns_directory horder haccepted.size_le nodes_per_page
  refine ⟨node_to_page, ?_, hlength, hnamed⟩
  have hpages := pageCount_le haccepted
  have hsize := haccepted.size_le
  have hordered' : (packedOrder ops double random base graph config nodes_per_page).mapError
      Fault.thrown = .ok order := by
    rw [hordered]
    rfl
  have hsections : (header base config nodes_per_page ++
      List.replicate (kRecordsOffset - (header base config nodes_per_page).length) 0 ++
      node_to_page.flatMap wordBytes).length = kRecordsOffset + base.size * 4 := by
    rw [List.length_append, List.length_append, List.length_replicate, length_flatMap_wordBytes,
      length_header, hlength]
    rfl
  have hfile : header base config nodes_per_page ++
      List.replicate (kRecordsOffset - (header base config nodes_per_page).length) 0 ++
      node_to_page.flatMap wordBytes ++
      List.replicate (recordsOffset base config - (kRecordsOffset + base.size * 4)) 0 =
      head base config nodes_per_page node_to_page := by
    rw [head]
    simp only [List.append_assoc]
  obtain ⟨_, hwritten, rfl⟩ := returns_writePages haccepted hgraph horder
    (head base config nodes_per_page node_to_page)
  rw [build, except_bind_eq_ok]
  refine ⟨_, haccept, ?_⟩
  rw [except_bind_eq_ok]
  refine ⟨_, hordered', ?_⟩
  rw [throwFault_bind_eq_ok, throwFault_bind_eq_ok, except_bind_eq_ok]
  refine ⟨not_not.mpr (horder.length_eq.trans length_naturalOrder), by omega, _, hdirectory, ?_⟩
  rw [throwFault_bind_eq_ok, throwFault_bind_eq_ok, hsections, hfile]
  refine ⟨?_, not_lt.mpr (le_alignUp _ _), hwritten⟩
  rw [length_header]
  exact of_decide_eq_true rfl

/-- The metadata that is read back from the header. -/
def metadataOf (base : VectorSet) (config : PackedBuildConfig F) (nodes_per_page : ℕ) :
    PackedIndexMetadata :=
  { dim := UInt32.ofNat (base.dim % 2 ^ 32)
    degree := UInt32.ofNat (config.degree % 2 ^ 32)
    nodes_per_page := UInt32.ofNat (nodes_per_page % 2 ^ 32)
    neighbor_pq_code_bytes := UInt32.ofNat (pqCodeBytes config.pq_model % 2 ^ 32)
    vector_count := base.size
    page_size := config.page_size % 2 ^ 32
    records_offset := recordsOffset base config % 2 ^ 64
    directory_offset := kRecordsOffset
    page_count := pageCount base nodes_per_page % 2 ^ 64 }

theorem readMetadata_headerFields (hsize : base.size ≤ 2 ^ 32 - 1) (rest : Bytes) :
    PackedDiskGraphIndex.readMetadata
        (Codec.putFields (headerFields base config nodes_per_page) ++ rest) =
      .ok (metadataOf base config nodes_per_page) := by
  have hfit : Codec.FieldsFit (headerFields base config nodes_per_page) := by
    have hword : ∀ value : ℕ, (word value).2 < 256 ^ (word value).1 := fun value =>
      Nat.mod_lt value (by decide)
    have hlong : ∀ value : ℕ, value % 2 ^ 64 < 256 ^ 8 := fun value => Nat.mod_lt value (by decide)
    have hcount : base.size < 256 ^ 8 := lt_of_le_of_lt hsize (by decide)
    intro field hfield
    simp only [headerFields, List.mem_cons, List.not_mem_nil, or_false] at hfield
    obtain rfl | rfl | rfl | rfl | rfl | rfl | rfl | rfl | rfl := hfield
    · exact hcount
    · exact hword _
    · exact hword _
    · exact hword _
    · exact hlong _
    · decide
    · exact hlong _
    · exact hword _
    · exact hword _
  have hread := Codec.readFields_putFields (headerFields base config nodes_per_page) hfit rest
  have hwidths : (headerFields base config nodes_per_page).map Prod.fst =
      [8, 4, 4, 4, 8, 8, 8, 4, 4] := rfl
  rw [hwidths] at hread
  rw [PackedDiskGraphIndex.readMetadata, hread]
  rfl

theorem readVersion_putFields (rest : Bytes) :
    PackedDiskGraphIndex.readVersion (Codec.putFields [(4, kPackedVersion)] ++ rest) =
      .ok (kPackedVersion, rest) := by
  have hfit : Codec.FieldsFit [(4, kPackedVersion)] := by
    intro field hfield
    rw [List.mem_singleton] at hfield
    rw [hfield]
    decide
  have hread := Codec.readFields_putFields [(4, kPackedVersion)] hfit rest
  have hwidths : [(4, kPackedVersion)].map Prod.fst = [4] := rfl
  rw [hwidths] at hread
  rw [PackedDiskGraphIndex.readVersion, hread]
  rfl

variable {node_to_page : List UInt32}

/-- Opening the file comes down to the checks of what is read. -/
theorem openIndex_fileOf (hsize : base.size ≤ 2 ^ 32 - 1) (path : String) :
    PackedDiskGraphIndex.openIndex path
        (fileOf base graph order config nodes_per_page node_to_page) = (do
      PackedDiskGraphIndex.checkMetadata (metadataOf base config nodes_per_page)
      throwFault (2 ^ 61 - 1 < base.size) "vector::_M_default_append"
      let directory ← PackedDiskGraphIndex.readDirectory
        (fileOf base graph order config nodes_per_page node_to_page)
        (metadataOf base config nodes_per_page)
      return ⟨metadataOf base config nodes_per_page, directory,
        fileOf base graph order config nodes_per_page node_to_page⟩) := by
  obtain ⟨rest, hfile⟩ : ∃ rest, fileOf base graph order config nodes_per_page node_to_page =
      kPackedMagic ++ (Codec.putFields [(4, kPackedVersion)] ++
        (Codec.putFields (headerFields base config nodes_per_page) ++ rest)) := by
    refine ⟨List.replicate (kRecordsOffset - (header base config nodes_per_page).length) 0 ++
      (node_to_page.flatMap wordBytes ++
        (List.replicate (recordsOffset base config - (kRecordsOffset + base.size * 4)) 0 ++
          table (pageBytesOf base graph order config nodes_per_page)
            (pageCount base nodes_per_page))), ?_⟩
    rw [fileOf, head]
    generalize kRecordsOffset - (header base config nodes_per_page).length = padding
    rw [header]
    simp only [List.append_assoc]
  generalize fileOf base graph order config nodes_per_page node_to_page = file at hfile ⊢
  have htake : file.take 8 = kPackedMagic := by
    rw [hfile]
    exact List.take_left' rfl
  have hdrop : file.drop 8 = Codec.putFields [(4, kPackedVersion)] ++
      (Codec.putFields (headerFields base config nodes_per_page) ++ rest) := by
    rw [hfile]
    exact List.drop_left' rfl
  have hversion := @readVersion_putFields
    (Codec.putFields (headerFields base config nodes_per_page) ++ rest)
  have hmetadata := @readMetadata_headerFields F base config nodes_per_page hsize rest
  rw [PackedDiskGraphIndex.openIndex, throwFault_ok (not_not.mpr htake), hdrop, hversion]
  simp only [bind, Except.bind, hmetadata]
  rw [throwFault_ok (not_not.mpr rfl)]
  rfl

/-- The directory is read back. -/
theorem readDirectory_fileOf (hlength : node_to_page.length = base.size) :
    PackedDiskGraphIndex.readDirectory
        (fileOf base graph order config nodes_per_page node_to_page)
        (metadataOf base config nodes_per_page) = .ok node_to_page := by
  have hbytes : (node_to_page.flatMap wordBytes).length = base.size * 4 := by
    rw [length_flatMap_wordBytes, hlength]
  have hfile : kRecordsOffset + base.size * 4 ≤
      (fileOf base graph order config nodes_per_page node_to_page).length := by
    rw [fileOf, List.length_append, length_head hlength]
    exact (le_alignUp _ _).trans (Nat.le_add_right _ _)
  have hslice : slice (fileOf base graph order config nodes_per_page node_to_page)
      (64 + (4032 + 0)) (base.size * 4) = node_to_page.flatMap wordBytes := by
    rw [fileOf, head]
    simp only [List.append_assoc]
    have hpadding : (List.replicate (kRecordsOffset - (header base config nodes_per_page).length)
        (0 : UInt8)).length = 4032 := by
      rw [List.length_replicate, length_header]
      rfl
    rw [slice_skip (length_header base config nodes_per_page), slice_skip hpadding,
      slice_append_left (by omega), ← hbytes, slice_zero_length]
  have hread : readAt (fileOf base graph order config nodes_per_page node_to_page)
      (metadataOf base config nodes_per_page).directory_offset
      ((metadataOf base config nodes_per_page).vector_count * 4) =
      some (node_to_page.flatMap wordBytes) := by
    show readAt _ kRecordsOffset (base.size * 4) = _
    rw [readAt, if_pos hfile]
    exact congrArg some hslice
  rw [PackedDiskGraphIndex.readDirectory, hread]
  refine congrArg Except.ok (List.ext_getElem ?_ fun i hi hi' => ?_)
  · rw [List.length_map, List.length_range, hlength]
    rfl
  · rw [List.getElem_map, List.getElem_range]
    refine wordAt_eq ?_
    have hrow := @slice_table _ (fun i => wordBytes (node_to_page.getD i 0)) 4 node_to_page.length i
      0 4 (fun _ _ => length_wordBytes _) hi' le_rfl
    rw [Nat.add_zero, table_getD, slice_wordBytes, List.getD_eq_getElem?_getD,
      List.getElem?_eq_getElem hi'] at hrow
    exact hrow

/-- The codes that belong to a neighbour. -/
def neighborCodes (config : PackedBuildConfig F) (neighbor : NodeId) : List UInt8 :=
  (List.range (pqCodeBytes config.pq_model)).map (modelCode config neighbor)

/-- A node is on the page that the directory names, as it was given, and nowhere else. -/
def StoredOnce (base : VectorSet) (graph : Adjacency) (config : PackedBuildConfig F)
    (index : PackedDiskGraphIndex) (i : ℕ) : Prop :=
  ∃ page_id, index.node_to_page[i]? = some page_id ∧
    (∃ decoded node, index.loadPage page_id = some (.ok decoded) ∧
      findNode decoded (nodeId i) = .ok node ∧
      vectorData index.metadata.toDiskGraphMetadata decoded node = .ok (base.row i) ∧
      node.neighbors = neighborsOf graph i ∧
      node.neighbor_pq_codes = (neighborsOf graph i).flatMap (neighborCodes config)) ∧
    ∃ slot : ℕ, ∀ page < index.metadata.page_count, ∀ decoded : DecodedPage,
      index.loadPage (UInt32.ofNat page) = some (.ok decoded) →
      ∀ (k : ℕ) (node : DiskPageCodec.DiskNode), decoded.nodes[k]? = some node →
        node.id = nodeId i → UInt32.ofNat page = page_id ∧ k = slot

/-- The header, the directory and the pages follow each other in the file. -/
structure Sections (base : VectorSet) (config : PackedBuildConfig F) (nodes_per_page : ℕ)
    (file : Bytes) (index : PackedDiskGraphIndex) : Prop where
  header_le : (header base config nodes_per_page).length ≤ index.metadata.directory_offset
  directory_le : index.metadata.directory_offset + base.size * 4 ≤ index.metadata.records_offset
  pages_eq : index.metadata.records_offset +
    index.metadata.page_count * index.metadata.page_size = file.length

/-- A graph that is built and opened again is the graph that was given. -/
structure RoundTrip (ops : FloatOps F) (double : DoubleOps D) (random : Random) (base : VectorSet)
    (graph : Adjacency) (config : PackedBuildConfig F) (nodes_per_page : ℕ) (order : List NodeId)
    (path : String) : Prop where
  order_perm : order.Perm (naturalOrder base.size)
  stored : ∃ file index, build ops double random base graph config = .ok file ∧
    PackedDiskGraphIndex.openIndex path file = .ok index ∧
    Sections base config nodes_per_page file index ∧
    ∀ i < base.size, StoredOnce base graph config index i

section Small

variable (haccepted : Accepted base config nodes_per_page) (hpage : config.page_size ≤ maxTransfer)
include haccepted hpage

theorem fits_metadataOf :
    Fits (metadataOf base config nodes_per_page).toDiskGraphMetadata base.dim config.degree
      (pqCodeBytes config.pq_model) nodes_per_page := by
  have hfits := haccepted.fits
  have hsmall := lt_of_le_maxTransfer hpage
  have hrecord : graphRecordBytes base.dim config.degree (pqCodeBytes config.pq_model) ≤
      nodes_per_page * graphRecordBytes base.dim config.degree (pqCodeBytes config.pq_model) :=
    Nat.le_mul_of_pos_left _ haccepted.nodes_pos
  have hcodes : pqCodeBytes config.pq_model ≤ config.degree * pqCodeBytes config.pq_model :=
    Nat.le_mul_of_pos_left _ haccepted.degree_pos
  have hsum : graphRecordBytes base.dim config.degree (pqCodeBytes config.pq_model) =
      4 * 2 + base.dim * 4 + config.degree * 4 + config.degree * pqCodeBytes config.pq_model := rfl
  have hnodes : nodes_per_page ≤
      nodes_per_page * graphRecordBytes base.dim config.degree (pqCodeBytes config.pq_model) :=
    Nat.le_mul_of_pos_right _ (by omega)
  have hword : ∀ value : ℕ, value < 2 ^ 32 → (UInt32.ofNat (value % 2 ^ 32)).toNat = value := by
    intro value hvalue
    rw [UInt32.toNat_ofNat']
    omega
  exact ⟨hword _ (by omega), hword _ (by omega), hword _ (by omega), hword _ (by omega)⟩

theorem recordsOffset_lt : recordsOffset base config < 2 ^ 35 := by
  have hsize := haccepted.size_le
  have hle := haccepted.page_size_le
  have hsmall := lt_of_le_maxTransfer hpage
  have hoffset : kRecordsOffset = 4096 := rfl
  have hlt : recordsOffset base config < kRecordsOffset + base.size * 4 + config.page_size :=
    alignUp_lt (by omega)
  omega

/-- No page starts behind what 64 bits hold. -/
theorem pageStart_lt {page : ℕ} (hlt : page < 2 ^ 32) :
    recordsOffset base config + page * config.page_size < 2 ^ 64 := by
  have hsmall := lt_of_le_maxTransfer hpage
  have hstart := recordsOffset_lt haccepted hpage
  have hmul : page * config.page_size ≤ (2 ^ 32 - 1) * (2 ^ 31 - 1) :=
    Nat.mul_le_mul (by omega) (by omega)
  omega

omit haccepted in
theorem page_size_eq : (metadataOf base config nodes_per_page).page_size = config.page_size :=
  Nat.mod_eq_of_lt ((lt_of_le_maxTransfer hpage).trans (by decide))

theorem records_offset_eq :
    (metadataOf base config nodes_per_page).records_offset = recordsOffset base config :=
  Nat.mod_eq_of_lt ((recordsOffset_lt haccepted hpage).trans (by decide))

omit hpage in
theorem page_count_eq :
    (metadataOf base config nodes_per_page).page_count = pageCount base nodes_per_page := by
  have hle := pageCount_le haccepted
  have hsize := haccepted.size_le
  exact Nat.mod_eq_of_lt (by omega)

theorem checkMetadata_ok :
    PackedDiskGraphIndex.checkMetadata (metadataOf base config nodes_per_page) = .ok () := by
  have hfit := fits_metadataOf haccepted hpage
  have hfits := haccepted.fits
  have hle := haccepted.page_size_le
  have hoffset : kRecordsOffset = 4096 := rfl
  have hrecord : graphRecordBytes base.dim config.degree (pqCodeBytes config.pq_model) ≤
      nodes_per_page * graphRecordBytes base.dim config.degree (pqCodeBytes config.pq_model) :=
    Nat.le_mul_of_pos_left _ haccepted.nodes_pos
  have hdim : base.dim ≠ 0 := by
    intro hzero
    have hsize := haccepted.size_pos
    rw [VectorSet.size, if_pos hzero] at hsize
    exact lt_irrefl 0 hsize
  have hne : ∀ {word : UInt32} {value : ℕ}, word.toNat = value → value ≠ 0 → word ≠ 0 := by
    rintro word value hword hvalue rfl
    exact hvalue (hword.symm.trans rfl)
  have hcount : (metadataOf base config nodes_per_page).page_count ≠ 0 := by
    rw [page_count_eq haccepted]
    exact Nat.ne_of_gt ((lt_pageCount haccepted).mpr (by rw [Nat.zero_mul]; exact haccepted.size_pos))
  rw [PackedDiskGraphIndex.checkMetadata, throwFault_bind_eq_ok]
  constructor
  · simp only [not_or]
    refine ⟨Nat.ne_of_gt haccepted.size_pos, hne hfit.dim_eq hdim,
      hne hfit.degree_eq (Nat.ne_of_gt haccepted.degree_pos), ?_, hcount,
      hne hfit.nodes_eq (Nat.ne_of_gt haccepted.nodes_pos)⟩
    rw [page_size_eq hpage]
    omega
  · refine throwFault_ok (not_lt.mpr ?_)
    rw [page_size_eq hpage, recordBytes, hfit.dim_eq, hfit.degree_eq, hfit.codes_eq]
    exact (Nat.mod_le _ _).trans (by omega)

variable (hgraph : GraphOver base graph config.degree) (horder : order.Perm (naturalOrder base.size))
include hgraph horder

/-- Every page is read and decoded. -/
theorem loadPage_fileOf (hlength : node_to_page.length = base.size) {page : ℕ}
    (hlt : page < pageCount base nodes_per_page) (directory : List UInt32) :
    ∃ decoded, PackedDiskGraphIndex.loadPage ⟨metadataOf base config nodes_per_page, directory,
        fileOf base graph order config nodes_per_page node_to_page⟩ (UInt32.ofNat page) =
        some (.ok decoded) ∧
      DecodedAs (metadataOf base config nodes_per_page).toDiskGraphMetadata
        (pageSource base graph order config nodes_per_page page) (pqCodeBytes config.pq_model)
        decoded := by
  have hrows : ∀ i < pageCount base nodes_per_page,
      (pageBytesOf base graph order config nodes_per_page i).length = config.page_size :=
    fun i _ => length_pageBytesOf haccepted hgraph horder
  have hhead := @length_head F base config nodes_per_page node_to_page hlength
  have hfile := length_fileOf haccepted hgraph horder hlength
  have hend : (page + 1) * config.page_size ≤ pageCount base nodes_per_page * config.page_size :=
    Nat.mul_le_mul_right _ hlt
  rw [Nat.succ_mul] at hend
  have hslice := @slice_table _ (pageBytesOf base graph order config nodes_per_page) config.page_size
    (pageCount base nodes_per_page) page 0 config.page_size hrows hlt (Nat.zero_add _).le
  have hall := slice_zero_length (pageBytesOf base graph order config nodes_per_page page)
  rw [hrows page hlt] at hall
  have hread : pread (fileOf base graph order config nodes_per_page node_to_page)
      (recordsOffset base config + page * config.page_size) config.page_size =
      some (pageBytesOf base graph order config nodes_per_page page) := by
    have hpositive : 0 < config.page_size := by
      have hle := haccepted.page_size_le
      have hoffset : kRecordsOffset = 4096 := rfl
      omega
    rw [pread_eq_readAt hpage hpositive, readAt, if_pos (by omega)]
    refine congrArg some ?_
    show slice _ (recordsOffset base config + (page * config.page_size + 0)) config.page_size = _
    rw [fileOf, slice_skip hhead, hslice, hall]
  have hfits := haccepted.fits
  have hcount := pageCount_le haccepted
  have hids := haccepted.size_le
  have hsmall := lt_of_le_maxTransfer hpage
  have hlimit : config.degree * pqCodeBytes config.pq_model < 2 ^ 63 := by
    have hrecord : graphRecordBytes base.dim config.degree (pqCodeBytes config.pq_model) ≤
        nodes_per_page * graphRecordBytes base.dim config.degree (pqCodeBytes config.pq_model) :=
      Nat.le_mul_of_pos_left _ haccepted.nodes_pos
    have hsum : graphRecordBytes base.dim config.degree (pqCodeBytes config.pq_model) =
        4 * 2 + base.dim * 4 + config.degree * 4 +
          config.degree * pqCodeBytes config.pq_model := rfl
    omega
  obtain ⟨decoded, hdecoded, has⟩ := decodePackedPage_packedPage
    (fits_metadataOf haccepted hpage) (pageSource_sound haccepted hgraph horder) hlimit
    (List.replicate (config.page_size - (8 + nodes_per_page *
      graphRecordBytes base.dim config.degree (pqCodeBytes config.pq_model))) 0)
  refine ⟨decoded, ?_, has⟩
  rw [PackedDiskGraphIndex.loadPage, PackedDiskGraphIndex.readPage, PackedDiskGraphIndex.pageOffset,
    page_size_eq hpage, records_offset_eq haccepted hpage, toNat_page haccepted hlt,
    Nat.mod_eq_of_lt (pageStart_lt haccepted hpage (by omega)), hread]
  exact congrArg some hdecoded

omit haccepted hpage hgraph horder in
/-- The nodes of a decoded page are those at its places of the order. -/
theorem id_of_decoded {metadata : DiskGraphMetadata} {pq_code_bytes page : ℕ} {decoded : DecodedPage}
    (has : DecodedAs metadata (pageSource base graph order config nodes_per_page page) pq_code_bytes
      decoded) {k : ℕ} {node : DiskPageCodec.DiskNode} (hnode : decoded.nodes[k]? = some node) :
    order[page * nodes_per_page + k]? = some node.id ∧ k < nodes_per_page := by
  have hk : k < (pageSource base graph order config nodes_per_page page).node_count :=
    has.length_eq ▸ (List.getElem?_eq_some_iff.mp hnode).1
  obtain ⟨other, hother, hid, _⟩ := has.node_eq k hk
  rw [hnode] at hother
  cases hother
  rw [hid]
  exact ⟨id_pageSource hk, (place_lt hk).2⟩

theorem storedOnce_fileOf (hlength : node_to_page.length = base.size)
    (hnamed : ∀ position id, order[position]? = some id →
      node_to_page[id.toNat]? = some (UInt32.ofNat (position / nodes_per_page)))
    {i : ℕ} (hi : i < base.size) :
    StoredOnce base graph config ⟨metadataOf base config nodes_per_page, node_to_page,
      fileOf base graph order config nodes_per_page node_to_page⟩ i := by
  have hsize := haccepted.size_le
  have hid : (nodeId i).toNat = i := toNat_nodeId (by omega)
  have hnodup := nodup_of_perm horder hsize
  have hmem : nodeId i ∈ order :=
    horder.mem_iff.mpr (List.mem_map.mpr ⟨i, List.mem_range.mpr hi, rfl⟩)
  obtain ⟨position, hposition⟩ := List.getElem?_of_mem hmem
  have hplace : position < order.length := (List.getElem?_eq_some_iff.mp hposition).1
  have horder_length : order.length = base.size := horder.length_eq.trans length_naturalOrder
  have hsplit := Nat.div_add_mod' position nodes_per_page
  have hslot := Nat.mod_lt position haccepted.nodes_pos
  have hlt : position / nodes_per_page < pageCount base nodes_per_page :=
    (lt_pageCount haccepted).mpr (by omega)
  obtain ⟨decoded, hdecoded, has⟩ :=
    loadPage_fileOf haccepted hpage hgraph horder hlength hlt node_to_page
  have hcount : position % nodes_per_page < (pageSource base graph order config nodes_per_page
      (position / nodes_per_page)).node_count := by
    show _ < min nodes_per_page (order.length - position / nodes_per_page * nodes_per_page)
    omega
  obtain ⟨node, hnode, hnode_id, hvector, hneighbors, hcodes⟩ := has.node_eq _ hcount
  have hsource : (pageSource base graph order config nodes_per_page
      (position / nodes_per_page)).id (position % nodes_per_page) = nodeId i := by
    have hother := id_pageSource hcount
    rw [hsplit, hposition] at hother
    exact (Option.some.inj hother).symm
  have hunique : ∀ page decoded, DecodedAs (metadataOf base config nodes_per_page).toDiskGraphMetadata
      (pageSource base graph order config nodes_per_page page) (pqCodeBytes config.pq_model) decoded →
      ∀ (k : ℕ) (node : DiskPageCodec.DiskNode), decoded.nodes[k]? = some node →
        node.id = nodeId i → page = position / nodes_per_page ∧ k = position % nodes_per_page := by
    intro page decoded has k node hnode hnode_id
    obtain ⟨hother, hk⟩ := id_of_decoded has hnode
    rw [hnode_id] at hother
    rw [← position_eq hnodup hother hposition, Nat.mul_comm]
    have hdiv : (nodes_per_page * page + k) / nodes_per_page = page := by
      rw [Nat.mul_add_div haccepted.nodes_pos, Nat.div_eq_of_lt hk, Nat.add_zero]
    have hmod : (nodes_per_page * page + k) % nodes_per_page = k := by
      rw [Nat.mul_add_mod, Nat.mod_eq_of_lt hk]
    exact ⟨hdiv.symm, hmod.symm⟩
  refine ⟨UInt32.ofNat (position / nodes_per_page), ?_, ⟨decoded, node, hdecoded, ?_, ?_, ?_, ?_⟩,
    position % nodes_per_page, fun page hpage_lt other hother k found hfound hfound_id => ?_⟩
  · rw [← hnamed position _ hposition, hid]
  · have hfind : decoded.nodes.find? (fun node => node.id == nodeId i) = some node := by
      cases hfind : decoded.nodes.find? fun node => node.id == nodeId i with
      | none =>
        have hmissing := List.find?_eq_none.mp hfind node (List.mem_of_getElem? hnode)
        rw [hnode_id, hsource, beq_self_eq_true] at hmissing
        exact absurd rfl hmissing
      | some found =>
        obtain ⟨k, hk⟩ := List.getElem?_of_mem (List.mem_of_find?_eq_some hfind)
        have hmatches : (found.id == nodeId i) = true := by simpa using List.find?_some hfind
        have hfound_id := eq_of_beq hmatches
        have hsame := (hunique _ _ has k found hk hfound_id).2
        rw [hsame, hnode] at hk
        exact hk.symm
    rw [findNode, hfind]
  · rw [hvector]
    show Except.ok (base.row ((pageSource base graph order config nodes_per_page
      (position / nodes_per_page)).id (position % nodes_per_page)).toNat) = _
    rw [hsource, hid]
  · rw [hneighbors]
    show neighborsOf graph ((pageSource base graph order config nodes_per_page
      (position / nodes_per_page)).id (position % nodes_per_page)).toNat = _
    rw [hsource, hid]
  · have hlist : (pageSource base graph order config nodes_per_page
        (position / nodes_per_page)).neighbors (position % nodes_per_page) = neighborsOf graph i := by
      show neighborsOf graph ((pageSource base graph order config nodes_per_page
        (position / nodes_per_page)).id (position % nodes_per_page)).toNat = _
      rw [hsource, hid]
    rw [hcodes, hlist]
    refine List.flatMap_congr fun neighbor hneighbor => ?_
    have hne : neighbor ≠ 0xffffffff := (pageSource_sound haccepted hgraph horder).neighbor_ne _
      hcount neighbor (hlist ▸ hneighbor)
    refine List.map_congr_left fun b _ => ?_
    exact if_pos hne
  · rw [page_count_eq haccepted] at hpage_lt
    obtain ⟨same, hsame, has_same⟩ :=
      loadPage_fileOf haccepted hpage hgraph horder hlength hpage_lt node_to_page
    rw [hother] at hsame
    cases hsame
    obtain ⟨hpage_eq, hslot_eq⟩ := hunique page other has_same k found hfound hfound_id
    exact ⟨congrArg UInt32.ofNat hpage_eq, hslot_eq⟩

end Small

theorem sections_fileOf (haccepted : Accepted base config nodes_per_page)
    (hpage : config.page_size ≤ maxTransfer) (hgraph : GraphOver base graph config.degree)
    (horder : order.Perm (naturalOrder base.size)) (hlength : node_to_page.length = base.size) :
    Sections base config nodes_per_page (fileOf base graph order config nodes_per_page node_to_page)
      ⟨metadataOf base config nodes_per_page, node_to_page,
        fileOf base graph order config nodes_per_page node_to_page⟩ := by
  refine ⟨?_, ?_, ?_⟩
  · rw [length_header]
    exact of_decide_eq_true rfl
  · rw [records_offset_eq haccepted hpage]
    exact le_alignUp _ _
  · rw [records_offset_eq haccepted hpage, page_count_eq haccepted, page_size_eq hpage,
      length_fileOf haccepted hgraph horder hlength]

/-- With a page that is too large for a read, or for the 32 bits of the header, nothing can be read
back. -/
theorem page_size_le_of_roundTrip (haccepted : Accepted base config nodes_per_page)
    (hgraph : GraphOver base graph config.degree)
    (haccept : acceptConfig base config = .ok nodes_per_page)
    (hordered : packedOrder ops double random base graph config nodes_per_page = .ok order)
    (h : RoundTrip ops double random base graph config nodes_per_page order path) :
    config.page_size ≤ maxTransfer := by
  obtain ⟨horder, file, index, hbuild, hopen, hsections, hstored⟩ := h
  obtain ⟨node_to_page, hfile, hlength, _⟩ :=
    returns_build haccept haccepted hgraph hordered horder
  rw [hbuild] at hfile
  cases hfile
  have hindex : index.metadata = metadataOf base config nodes_per_page := by
    rw [openIndex_fileOf haccepted.size_le, except_bind_eq_ok] at hopen
    obtain ⟨_, _, hopen⟩ := hopen
    rw [throwFault_bind_eq_ok, except_bind_eq_ok] at hopen
    obtain ⟨_, _, _, hopen⟩ := hopen
    cases hopen
    rfl
  have hpositive : 0 < pageCount base nodes_per_page :=
    (lt_pageCount haccepted).mpr (by rw [Nat.zero_mul]; exact haccepted.size_pos)
  have hsize : config.page_size % 2 ^ 32 = config.page_size := by
    have hpages := hsections.pages_eq
    rw [hindex, length_fileOf haccepted hgraph horder hlength] at hpages
    change recordsOffset base config % 2 ^ 64 + pageCount base nodes_per_page % 2 ^ 64 *
      (config.page_size % 2 ^ 32) = _ at hpages
    refine le_antisymm (Nat.mod_le _ _) (not_lt.mp fun hlt => ?_)
    have hoffset := Nat.mod_le (recordsOffset base config) (2 ^ 64)
    have hcount : pageCount base nodes_per_page % 2 ^ 64 * (config.page_size % 2 ^ 32) ≤
        pageCount base nodes_per_page * (config.page_size % 2 ^ 32) :=
      Nat.mul_le_mul_right _ (Nat.mod_le _ _)
    have hless := Nat.mul_lt_mul_of_pos_left hlt hpositive
    omega
  obtain ⟨page_id, _, ⟨decoded, _, hload, _⟩, _⟩ := hstored 0 haccepted.size_pos
  have hread : index.metadata.page_size ≤ maxTransfer := by
    by_contra hlarge
    rw [PackedDiskGraphIndex.loadPage, PackedDiskGraphIndex.readPage,
      pread_eq_none_of_large (not_le.mp hlarge)] at hload
    cases hload
  rw [hindex] at hread
  exact hsize.symm.trans_le hread

/-- Whatever the packing strategy, an accepted configuration whose record size does not wrap around
gives a file that opens and holds every node once, as it was given, exactly when one read transfers a
page. -/
theorem build_roundTrip_iff (hgraph : GraphOver base graph config.degree)
    (haccept : acceptConfig base config = .ok nodes_per_page)
    (hordered : packedOrder ops double random base graph config nodes_per_page = .ok order)
    (hrecord : graphRecordBytes base.dim config.degree (pqCodeBytes config.pq_model) < 2 ^ 64)
    (path : String) :
    RoundTrip ops double random base graph config nodes_per_page order path ↔
      config.page_size ≤ maxTransfer := by
  have haccepted := acceptConfig_ok haccept hrecord
  refine ⟨page_size_le_of_roundTrip haccepted hgraph haccept hordered, fun hpage => ?_⟩
  have hsize := haccepted.size_le
  have horder : order.Perm (naturalOrder base.size) := by
    rw [← hgraph.length_eq]
    exact packedOrder_perm (hgraph.length_eq.trans_le hsize) hordered
  obtain ⟨node_to_page, hbuild, hlength, hnamed⟩ :=
    returns_build haccept haccepted hgraph hordered horder
  refine ⟨horder, _, _, hbuild, ?_, sections_fileOf haccepted hpage hgraph horder hlength,
    fun i hi => storedOnce_fileOf haccepted hpage hgraph horder hlength hnamed hi⟩
  rw [openIndex_fileOf hsize path, checkMetadata_ok haccepted hpage, readDirectory_fileOf hlength]
  show (throwFault _ _ >>= _) = _
  rw [throwFault_ok (by omega)]
  rfl

end Pages

/-- Scores without rounding. -/
def exactScores : DoubleOps ℚ where
  literal := id
  add a b := a + b
  mul a b := a * b
  lt a b := a < b

/-- Three nodes, packed by the accesses of two sessions. -/
theorem build_roundTrip_iff_three :
    let base : VectorSet := { dim := 1, values := [4, 9, 2] }
    let graph : Adjacency := [[2], [0, 2], []]
    let config : PackedBuildConfig ℕ :=
      { degree := 2, packing_strategy := "coaccess", coaccess_sessions := 2
        coaccess_trace_length := 2 }
    GraphOver base graph config.degree ∧ acceptConfig base config = .ok 204 ∧
      packedOrder lineOps exactScores idleRandom base graph config 204 = .ok [0, 2, 1] ∧
      RoundTrip lineOps exactScores idleRandom base graph config 204 [0, 2, 1] "index" := by
  intro base graph config
  have hgraph : GraphOver base graph config.degree := by
    refine ⟨by decide, fun neighbors hneighbors id hid => ?_, fun neighbors hneighbors => ?_⟩
    · simp only [graph, List.mem_cons, List.not_mem_nil, or_false] at hneighbors
      obtain rfl | rfl | rfl := hneighbors
      · rw [List.mem_singleton.mp hid]
        decide
      · simp only [List.mem_cons, List.not_mem_nil, or_false] at hid
        obtain rfl | rfl := hid
        · decide
        · decide
      · exact absurd hid List.not_mem_nil
    · simp only [graph, List.mem_cons, List.not_mem_nil, or_false] at hneighbors
      obtain rfl | rfl | rfl := hneighbors
      · decide
      · decide
      · decide
  have haccept : acceptConfig base config = .ok 204 := by decide +kernel
  have hordered : packedOrder lineOps exactScores idleRandom base graph config 204 =
      .ok [0, 2, 1] := by decide +kernel
  exact ⟨hgraph, haccept, hordered,
    (build_roundTrip_iff hgraph haccept hordered (by decide) "index").mpr (by decide)⟩

/-- A page of `2 ^ 32` bytes, whose size is written to the header as zero. -/
theorem build_not_roundTrip :
    ¬∀ (F D : Type) (ops : FloatOps F) (double : DoubleOps D) (random : Random) (base : VectorSet)
      (graph : Adjacency) (config : PackedBuildConfig F) (nodes_per_page : ℕ) (order : List NodeId)
      (path : String), GraphOver base graph config.degree →
      acceptConfig base config = .ok nodes_per_page →
      packedOrder ops double random base graph config nodes_per_page = .ok order →
      RoundTrip ops double random base graph config nodes_per_page order path := by
  intro hall
  let base : VectorSet := { dim := 1, values := [4] }
  let config : PackedBuildConfig ℕ :=
    { degree := 1, page_size := 2 ^ 32, packing_strategy := "bfs" }
  have hgraph : GraphOver base [[]] config.degree := by
    refine ⟨by decide, fun neighbors hneighbors => ?_, fun neighbors hneighbors => ?_⟩
    · rw [List.mem_singleton.mp hneighbors]
      exact fun id hid => absurd hid List.not_mem_nil
    · rw [List.mem_singleton.mp hneighbors]
      exact Nat.zero_le _
  have haccept : acceptConfig base config = .ok 268435455 := by decide +kernel
  have hordered : packedOrder lineOps exactScores idleRandom base [[]] config 268435455 =
      .ok [0] := by decide +kernel
  have haccepted := acceptConfig_ok haccept (by decide)
  obtain ⟨horder, file, index, hbuild, hopen, _⟩ :=
    hall ℕ ℚ lineOps exactScores idleRandom base [[]] config 268435455 [0] "index" hgraph haccept
      hordered
  obtain ⟨node_to_page, hfile, _⟩ := returns_build haccept haccepted hgraph hordered horder
  rw [hbuild] at hfile
  cases hfile
  rw [openIndex_fileOf haccepted.size_le] at hopen
  have hcheck : PackedDiskGraphIndex.checkMetadata (metadataOf base config 268435455) =
      .error (.thrown "Packed graph index metadata is invalid") := by
    have hzero : (metadataOf base config 268435455).page_size = 0 := Nat.mod_self _
    rw [PackedDiskGraphIndex.checkMetadata, throwFault,
      if_pos (Or.inr (Or.inr (Or.inr (Or.inl hzero))))]
    rfl
  rw [hcheck] at hopen
  cases hopen

end PackedDiskGraphBuilder
