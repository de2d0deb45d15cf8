import AgentAware.Graph.DiskPageCodec
import AgentAware.Lib.Rows

/-!
# What a decoded page holds

The decoder returns when the page is as long as the metadata says and its header fits; nothing else is
checked, in particular not the stored degrees, which are untrusted. The neighbours of a node stop at the
degree of the index and leave out what stands for no neighbour, while its codes have as many places as
the stored degree asks for. So vectors and neighbour lists are always well formed, and the codes exactly
when the stored degrees are within the degree and all their neighbours are there.

## Main definitions

- `storedDegree`, `storedNeighbor` — what the page says about a slot
- `Refused` — what the decoder throws at
- `WellFormed` — a page as it should be decoded

## Main results

- `decides_decodePackedPage` — when the decoder returns, and what
- `decodePackedPage_wellFormed_iff` — when a page is refused or well formed
-/

namespace DiskPageCodec

/-- A call fails by throwing, not by an access out of range. -/
def Thrown (fault : Fault) : Prop := ∃ message, fault = .thrown message

section Reading

variable {page : Bytes}

theorem decides_throwFault (condition : Prop) [Decidable condition] (message : String) :
    Decides Thrown (¬condition) (throwFault condition message) fun _ => ¬condition :=
  ⟨fun h => ⟨(), throwFault_ok h, h⟩, fun h => ⟨.thrown message, if_pos (not_not.mp h), message, rfl⟩⟩

theorem decides_getWord (page : Bytes) (cursor : ℕ) :
    Decides Thrown (cursor + 4 ≤ page.length) (getWord page cursor) fun read =>
      read = (wordAt page cursor, cursor + 4) ∧ cursor + 4 ≤ page.length := by
  exact ((decides_throwFault (page.length < cursor + 4) _).followed fun _ hroom =>
    Returns.pure ⟨rfl, not_lt.mp hroom⟩).iff not_lt

theorem decides_getByte (page : Bytes) (cursor : ℕ) :
    Decides Thrown (cursor + 1 ≤ page.length) (getByte page cursor) fun read =>
      read = (page.getD cursor 0, cursor + 1) ∧ cursor + 1 ≤ page.length := by
  exact ((decides_throwFault (page.length < cursor + 1) _).followed fun _ hroom =>
    Returns.pure ⟨rfl, not_lt.mp hroom⟩).iff not_lt

theorem getElem?_set_eq_some {α : Type} {values : List α} {index k : ℕ} {value found : α}
    (h : (values.set index value)[k]? = some found) :
    k = index ∧ found = value ∨ k ≠ index ∧ values[k]? = some found := by
  by_cases heq : index = k
  · subst heq
    have hlt : index < values.length := by
      have hplace := (List.getElem?_eq_some_iff.mp h).1
      rwa [List.length_set] at hplace
    rw [List.getElem?_set_self hlt] at h
    exact Or.inl ⟨rfl, (Option.some.inj h).symm⟩
  · rw [List.getElem?_set_ne heq] at h
    exact Or.inr ⟨Ne.symm heq, h⟩

theorem row_succ (start i width : ℕ) :
    start + i * width + width = start + (i + 1) * width := by
  rw [Nat.add_mul, Nat.one_mul, Nat.add_assoc]

/-- The first blank behind some elements is filled in. -/
theorem set_blank {α : Type} {written : List α} {count : ℕ} {blank value : α} (h : 0 < count) :
    (written ++ List.replicate count blank).set written.length value =
      written ++ [value] ++ List.replicate (count - 1) blank := by
  obtain ⟨more, rfl⟩ := Nat.exists_eq_add_of_le' h
  rw [List.set_append_right _ _ le_rfl, Nat.sub_self, List.replicate_succ, List.set_cons_zero,
    Nat.add_sub_cancel, List.append_assoc, List.singleton_append]

/-- A block of rows fits when its end does. -/
theorem forall_row_iff {start count width limit : ℕ} (hstart : start ≤ limit) :
    (∀ i < count, start + i * width + width ≤ limit) ↔ start + count * width ≤ limit := by
  constructor
  · intro hall
    cases count with
    | zero => rwa [Nat.zero_mul, Nat.add_zero]
    | succ count =>
      exact row_succ start count width ▸ hall count (Nat.lt_succ_self count)
  · intro hend i hi
    rw [row_succ]
    exact (Nat.add_le_add_left (Nat.mul_le_mul_right width hi) start).trans hend

/-- Words that are read into the places of an array. -/
theorem decides_readSlots {start : ℕ} (hstart : start ≤ page.length) (count : ℕ) :
    Decides Thrown (start + count * 4 ≤ page.length) (readSlots page count start) fun read =>
      (∀ k < count, read.1[k]? = some (wordAt page (start + k * 4))) ∧
        read.2 = start + count * 4 ∧ read.2 ≤ page.length := by
  have hround : ∀ i < count, ∀ state : List UInt32 × ℕ,
      (state.1.length = count ∧ (∀ k < i, state.1[k]? = some (wordAt page (start + k * 4))) ∧
        state.2 = start + i * 4 ∧ state.2 ≤ page.length) →
      Decides Thrown (start + i * 4 + 4 ≤ page.length) (readSlot page state i) fun next =>
        next.1.length = count ∧ (∀ k < i + 1, next.1[k]? = some (wordAt page (start + k * 4))) ∧
          next.2 = start + (i + 1) * 4 ∧ next.2 ≤ page.length := by
    rintro i hi ⟨values, cursor⟩ ⟨hlength, hvalues, rfl, hcursor⟩
    dsimp only at hlength hvalues
    refine (decides_getWord page _).followed fun read hread => ?_
    obtain ⟨rfl, hroom⟩ := hread
    refine ⟨(values.set i (wordAt page (start + i * 4)), _), ?_, ?_, ?_, ?_, hroom⟩
    · dsimp only
      rw [store_ok (by omega)]
      rfl
    · rw [List.length_set, hlength]
    · intro k hk
      rw [List.getElem?_set]
      by_cases heq : i = k
      · subst heq
        rw [if_pos rfl, if_pos (by omega)]
      · rw [if_neg heq, hvalues k (by omega)]
    · dsimp only
      omega
  refine ((Decides.foldlM_range hround ⟨List.length_replicate, fun k hk => absurd hk (Nat.not_lt_zero k),
    by rw [Nat.zero_mul, Nat.add_zero], hstart⟩).mono fun read hread => hread.2).iff
    (forall_row_iff hstart)

end Reading

section Stored

variable (metadata : DiskGraphMetadata) (page : Bytes)

def slotCount : ℕ := metadata.nodes_per_page.toNat

def vectorsOffset : ℕ := 8 + slotCount metadata * 4 + slotCount metadata * 4

def neighborsOffset : ℕ := vectorsOffset metadata + slotCount metadata * vectorBytes metadata

/-- The bytes of the neighbours of a slot. -/
def neighborBytes : ℕ := metadata.degree.toNat * 4

def codesOffset : ℕ := neighborsOffset metadata + slotCount metadata * neighborBytes metadata

/-- The bytes of the codes of a slot. -/
def codeBytes : ℕ := metadata.degree.toNat * metadata.neighbor_pq_code_bytes.toNat

/-- The length that the metadata asks for. -/
def pageBytes : ℕ := codesOffset metadata + slotCount metadata * codeBytes metadata

/-- The number of nodes in the header. -/
def storedCount : UInt32 := wordAt page 4

/-- The id of a slot. -/
def storedId (slot : ℕ) : NodeId := wordAt page (8 + slot * 4)

/-- The degree of a slot. -/
def storedDegree (slot : ℕ) : UInt32 := wordAt page (8 + slotCount metadata * 4 + slot * 4)

/-- The neighbour of a slot at a place. -/
def storedNeighbor (slot n : ℕ) : NodeId :=
  wordAt page (neighborsOffset metadata + slot * neighborBytes metadata + n * 4)

/-- The places whose neighbours are kept. -/
def keptPlaces (slot : ℕ) : List ℕ :=
  (List.range metadata.degree.toNat).filter fun n =>
    n < (storedDegree metadata page slot).toNat ∧
      storedNeighbor metadata page slot n ≠ kNoNeighbor

def storedCodes (slot : ℕ) : ℕ :=
  (storedDegree metadata page slot).toNat * metadata.neighbor_pq_code_bytes.toNat

/-- The codes of a node: those in the page, and zeros when the stored degree asks for more. -/
def decodedCodes (slot : ℕ) : List UInt8 :=
  slice page (codesOffset metadata + slot * codeBytes metadata)
      (min (codeBytes metadata) (storedCodes metadata page slot)) ++
    List.replicate (storedCodes metadata page slot -
      min (codeBytes metadata) (storedCodes metadata page slot)) 0

/-- The nodes while their neighbours and codes are read. -/
structure NodesOk (count neighbors_done codes_done : ℕ) (nodes : List DiskNode) : Prop where
  length_eq : nodes.length = count
  place_eq : ∀ k node, nodes[k]? = some node → node.id = storedId page k ∧
    node.vector_offset = vectorsOffset metadata + k * vectorBytes metadata
  offset_le : ∀ node ∈ nodes, node.vector_offset + vectorBytes metadata ≤ page.length
  neighbors_eq : ∀ k node, nodes[k]? = some node → k < neighbors_done →
    node.neighbors = (keptPlaces metadata page k).map (storedNeighbor metadata page k)
  codes_eq : ∀ k node, nodes[k]? = some node → k < codes_done →
    node.neighbor_pq_codes = decodedCodes metadata page k
  codes_nil : ∀ k node, nodes[k]? = some node → codes_done ≤ k → node.neighbor_pq_codes = []

end Stored

section Nodes

variable {metadata : DiskGraphMetadata} {page : Bytes} {count neighbors_done codes_done slot : ℕ}
  {nodes : List DiskNode} {node : DiskNode}

theorem NodesOk.nil : NodesOk metadata page 0 0 0 [] := by
  constructor
  · rfl
  · exact fun k node hnode => by simp at hnode
  · exact fun node hnode => absurd hnode List.not_mem_nil
  · exact fun k node hnode => by simp at hnode
  · exact fun k node hnode => by simp at hnode
  · exact fun k node hnode => by simp at hnode

theorem NodesOk.snoc (h : NodesOk metadata page count 0 0 nodes)
    (hid : node.id = storedId page count)
    (hplace : node.vector_offset = vectorsOffset metadata + count * vectorBytes metadata)
    (hoffset : node.vector_offset + vectorBytes metadata ≤ page.length)
    (hcodes : node.neighbor_pq_codes = []) :
    NodesOk metadata page (count + 1) 0 0 (nodes ++ [node]) := by
  constructor
  · rw [List.length_append, List.length_singleton, h.length_eq]
  · intro k other hother
    by_cases hk : k < nodes.length
    · rw [List.getElem?_append_left hk] at hother
      exact h.place_eq k other hother
    · rw [List.getElem?_append_right (not_lt.mp hk), List.getElem?_singleton] at hother
      split at hother
      · next hlast =>
        have heq : k = count := by
          rw [← h.length_eq]
          omega
        cases hother
        exact heq ▸ ⟨hid, hplace⟩
      · cases hother
  · intro other hother
    cases List.mem_append.mp hother with
    | inl hmem => exact h.offset_le other hmem
    | inr hlast =>
      rw [List.mem_singleton] at hlast
      exact hlast ▸ hoffset
  · exact fun k other _ hk => absurd hk (Nat.not_lt_zero k)
  · exact fun k other _ hk => absurd hk (Nat.not_lt_zero k)
  · intro k other hother _
    have hmem : other ∈ nodes ++ [node] := List.mem_of_getElem? hother
    cases List.mem_append.mp hmem with
    | inl hmem =>
      obtain ⟨i, hi⟩ := List.getElem?_of_mem hmem
      exact h.codes_nil i other hi (Nat.zero_le i)
    | inr hlast =>
      rw [List.mem_singleton] at hlast
      exact hlast ▸ hcodes

/-- A slot that holds no node changes nothing. -/
theorem NodesOk.skip (h : NodesOk metadata page count neighbors_done codes_done nodes)
    {more more_codes : ℕ} (hneighbors : more = neighbors_done ∨ count ≤ neighbors_done)
    (hcodes : more_codes = codes_done ∨ count ≤ codes_done ∧ codes_done ≤ more_codes) :
    NodesOk metadata page count more more_codes nodes := by
  have hlt : ∀ k node, nodes[k]? = some node → k < count := by
    intro k node hnode
    rw [← h.length_eq]
    exact (List.getElem?_eq_some_iff.mp hnode).1
  constructor
  · exact h.length_eq
  · exact h.place_eq
  · exact h.offset_le
  · intro k node hnode hk
    have hcount := hlt k node hnode
    exact h.neighbors_eq k node hnode (by omega)
  · intro k node hnode hk
    have hcount := hlt k node hnode
    exact h.codes_eq k node hnode (by omega)
  · intro k node hnode hk
    exact h.codes_nil k node hnode (by omega)

theorem NodesOk.offset_set (h : NodesOk metadata page count neighbors_done codes_done nodes)
    (hnode : nodes[slot]? = some node) {changed : DiskNode}
    (hchanged : changed.vector_offset = node.vector_offset) :
    ∀ other ∈ nodes.set slot changed, other.vector_offset + vectorBytes metadata ≤ page.length := by
  intro other hother
  cases List.mem_or_eq_of_mem_set hother with
  | inl hmem => exact h.offset_le other hmem
  | inr heq =>
    rw [heq, hchanged]
    exact h.offset_le node (List.mem_of_getElem? hnode)

theorem NodesOk.place_set (h : NodesOk metadata page count neighbors_done codes_done nodes)
    (hnode : nodes[slot]? = some node) {changed : DiskNode} (hid : changed.id = node.id)
    (hchanged : changed.vector_offset = node.vector_offset) (k : ℕ) (other : DiskNode)
    (hother : (nodes.set slot changed)[k]? = some other) :
    other.id = storedId page k ∧
      other.vector_offset = vectorsOffset metadata + k * vectorBytes metadata := by
  obtain ⟨rfl, rfl⟩ | ⟨hne, hold⟩ := getElem?_set_eq_some hother
  · rw [hid, hchanged]
    exact h.place_eq k node hnode
  · exact h.place_eq k other hold

theorem NodesOk.setNeighbors (h : NodesOk metadata page count slot 0 nodes)
    (hnode : nodes[slot]? = some node) :
    NodesOk metadata page count (slot + 1) 0 (nodes.set slot { node with
      neighbors := (keptPlaces metadata page slot).map (storedNeighbor metadata page slot) }) := by
  constructor
  · rw [List.length_set, h.length_eq]
  · exact h.place_set hnode rfl rfl
  · exact h.offset_set hnode rfl
  · intro k other hother hk
    obtain ⟨rfl, rfl⟩ | ⟨hne, hold⟩ := getElem?_set_eq_some hother
    · rfl
    · exact h.neighbors_eq k other hold (by omega)
  · exact fun k other _ hk => absurd hk (Nat.not_lt_zero k)
  · intro k other hother _
    obtain ⟨rfl, rfl⟩ | ⟨hne, hold⟩ := getElem?_set_eq_some hother
    · exact h.codes_nil k node hnode (Nat.zero_le k)
    · exact h.codes_nil k other hold (Nat.zero_le k)

theorem NodesOk.setCodes (h : NodesOk metadata page count neighbors_done slot nodes)
    (hnode : nodes[slot]? = some node) {codes : List UInt8}
    (hcodes : codes = decodedCodes metadata page slot) :
    NodesOk metadata page count neighbors_done (slot + 1)
      (nodes.set slot { node with neighbor_pq_codes := codes }) := by
  constructor
  · rw [List.length_set, h.length_eq]
  · exact h.place_set hnode rfl rfl
  · exact h.offset_set hnode rfl
  · intro k other hother hk
    obtain ⟨rfl, rfl⟩ | ⟨hne, hold⟩ := getElem?_set_eq_some hother
    · exact h.neighbors_eq k node hnode hk
    · exact h.neighbors_eq k other hold hk
  · intro k other hother hk
    obtain ⟨rfl, rfl⟩ | ⟨hne, hold⟩ := getElem?_set_eq_some hother
    · exact hcodes
    · exact h.codes_eq k other hold (by omega)
  · intro k other hother hk
    obtain ⟨rfl, rfl⟩ | ⟨hne, hold⟩ := getElem?_set_eq_some hother
    · omega
    · exact h.codes_nil k other hold (by omega)

end Nodes

section Loops

variable {metadata : DiskGraphMetadata} {page : Bytes} {node_count : UInt32}

theorem decides_placeVectors {ids : List UInt32} (hids : ∀ k < slotCount metadata,
      ids[k]? = some (storedId page k)) (hstart : vectorsOffset metadata ≤ page.length) :
    Decides Thrown (neighborsOffset metadata ≤ page.length)
      ((List.range (slotCount metadata)).foldlM (placeVector metadata page node_count ids)
        ([], vectorsOffset metadata)) fun placed =>
      NodesOk metadata page (min (slotCount metadata) node_count.toNat) 0 0 placed.1 ∧
        placed.2 = neighborsOffset metadata ∧ placed.2 ≤ page.length := by
  have hround : ∀ slot < slotCount metadata, ∀ state : List DiskNode × ℕ,
      (NodesOk metadata page (min slot node_count.toNat) 0 0 state.1 ∧
        state.2 = vectorsOffset metadata + slot * vectorBytes metadata ∧ state.2 ≤ page.length) →
      Decides Thrown
        (vectorsOffset metadata + slot * vectorBytes metadata + vectorBytes metadata ≤ page.length)
        (placeVector metadata page node_count ids state slot) fun next =>
        NodesOk metadata page (min (slot + 1) node_count.toNat) 0 0 next.1 ∧
          next.2 = vectorsOffset metadata + (slot + 1) * vectorBytes metadata ∧
          next.2 ≤ page.length := by
    rintro slot hslot ⟨nodes, cursor⟩ ⟨hnodes, rfl, hcursor⟩
    have hnext := row_succ (vectorsOffset metadata) slot (vectorBytes metadata)
    refine ((decides_throwFault _ _).followed fun _ hroom => ?_).iff not_lt
    dsimp only at hnodes hroom ⊢
    split
    · next hin =>
      refine Returns.bind (returns_load_eq (hids slot hslot)) ?_
      rintro _ rfl
      refine Returns.pure ⟨?_, hnext, not_lt.mp hroom⟩
      rw [Nat.min_eq_left (by omega)] at hnodes ⊢
      exact hnodes.snoc rfl rfl (not_lt.mp hroom) rfl
    · next hout =>
      refine Returns.pure ⟨?_, hnext, not_lt.mp hroom⟩
      rw [Nat.min_eq_right (by omega)] at hnodes ⊢
      exact hnodes
  have hfirst : NodesOk metadata page (min 0 node_count.toNat) 0 0 [] := by
    rw [Nat.zero_min]
    exact NodesOk.nil
  exact (Decides.foldlM_range hround
    ⟨hfirst, by rw [Nat.zero_mul, Nat.add_zero], hstart⟩).iff (forall_row_iff hstart)

/-- The neighbours of one slot. -/
theorem decides_readNeighbor {slot : ℕ}
    (hcursor : neighborsOffset metadata + slot * neighborBytes metadata ≤ page.length) :
    Decides Thrown
      (neighborsOffset metadata + slot * neighborBytes metadata + neighborBytes metadata ≤ page.length)
      ((List.range metadata.degree.toNat).foldlM
        (readNeighbor page node_count slot (storedDegree metadata page slot))
        ([], neighborsOffset metadata + slot * neighborBytes metadata)) fun read =>
      (slot < node_count.toNat →
          read.1 = (keptPlaces metadata page slot).map (storedNeighbor metadata page slot)) ∧
        read.2 = neighborsOffset metadata + slot * neighborBytes metadata + neighborBytes metadata ∧
        read.2 ≤ page.length := by
  have hround : ∀ n < metadata.degree.toNat, ∀ state : List NodeId × ℕ,
      ((slot < node_count.toNat → state.1 = ((List.range n).filter fun n =>
          n < (storedDegree metadata page slot).toNat ∧
            storedNeighbor metadata page slot n ≠ kNoNeighbor).map
          (storedNeighbor metadata page slot)) ∧
        state.2 = neighborsOffset metadata + slot * neighborBytes metadata + n * 4 ∧
        state.2 ≤ page.length) →
      Decides Thrown
        (neighborsOffset metadata + slot * neighborBytes metadata + n * 4 + 4 ≤ page.length)
        (readNeighbor page node_count slot (storedDegree metadata page slot) state n) fun next =>
        (slot < node_count.toNat → next.1 = ((List.range (n + 1)).filter fun n =>
            n < (storedDegree metadata page slot).toNat ∧
              storedNeighbor metadata page slot n ≠ kNoNeighbor).map
            (storedNeighbor metadata page slot)) ∧
          next.2 = neighborsOffset metadata + slot * neighborBytes metadata + (n + 1) * 4 ∧
          next.2 ≤ page.length := by
    rintro n hn ⟨neighbors, cursor⟩ ⟨hneighbors, rfl, hcursor⟩
    refine (decides_getWord page _).followed fun read hread => ?_
    obtain ⟨rfl, hroom⟩ := hread
    dsimp only at hneighbors ⊢
    show Returns (if slot < node_count.toNat ∧ n < (storedDegree metadata page slot).toNat ∧
      storedNeighbor metadata page slot n ≠ kNoNeighbor then _ else _) _
    split
    · next hkeep =>
      refine Returns.pure ⟨fun hin => ?_, by dsimp only; omega, hroom⟩
      rw [hneighbors hin, List.range_succ, List.filter_append, List.map_append,
        List.filter_singleton, decide_eq_true hkeep.2]
      rfl
    · next hskip =>
      refine Returns.pure ⟨fun hin => ?_, by dsimp only; omega, hroom⟩
      rw [hneighbors hin, List.range_succ, List.filter_append, List.map_append,
        List.filter_singleton, decide_eq_false fun h => hskip ⟨hin, h⟩, cond_false, List.map_nil,
        List.append_nil]
  exact (Decides.foldlM_range hround
    ⟨fun _ => rfl, by rw [Nat.zero_mul, Nat.add_zero], hcursor⟩).iff (forall_row_iff hcursor)

variable {degrees : List UInt32} {nodes : List DiskNode}

theorem decides_readNeighbors
    (hdegrees : ∀ k < slotCount metadata, degrees[k]? = some (storedDegree metadata page k))
    (hnodes : NodesOk metadata page node_count.toNat 0 0 nodes)
    (hstart : neighborsOffset metadata ≤ page.length) :
    Decides Thrown (codesOffset metadata ≤ page.length)
      ((List.range (slotCount metadata)).foldlM (readNeighbors metadata page node_count degrees)
        (nodes, neighborsOffset metadata)) fun read =>
      NodesOk metadata page node_count.toNat (slotCount metadata) 0 read.1 ∧
        read.2 = codesOffset metadata ∧ read.2 ≤ page.length := by
  have hround : ∀ slot < slotCount metadata, ∀ state : List DiskNode × ℕ,
      (NodesOk metadata page node_count.toNat slot 0 state.1 ∧
        state.2 = neighborsOffset metadata + slot * neighborBytes metadata ∧
        state.2 ≤ page.length) →
      Decides Thrown
        (neighborsOffset metadata + slot * neighborBytes metadata + neighborBytes metadata ≤
          page.length)
        (readNeighbors metadata page node_count degrees state slot) fun next =>
        NodesOk metadata page node_count.toNat (slot + 1) 0 next.1 ∧
          next.2 = neighborsOffset metadata + (slot + 1) * neighborBytes metadata ∧
          next.2 ≤ page.length := by
    rintro slot hslot ⟨nodes, cursor⟩ ⟨hnodes, rfl, hcursor⟩
    have hnext := row_succ (neighborsOffset metadata) slot (neighborBytes metadata)
    refine Decides.after (returns_load_eq (hdegrees slot hslot)) ?_
    rintro _ rfl
    refine (decides_readNeighbor hcursor).followed ?_
    rintro ⟨neighbors, cursor⟩ ⟨hneighbors, rfl, hroom⟩
    dsimp only at hnodes hneighbors hroom ⊢
    split
    · next hin =>
      have hplace : slot < nodes.length := hnodes.length_eq ▸ hin
      have hnode := List.getElem?_eq_getElem hplace
      refine Returns.bind (returns_load_eq hnode) ?_
      rintro _ rfl
      refine Returns.bind ⟨_, store_ok hplace _, rfl⟩ ?_
      rintro _ rfl
      refine Returns.pure ⟨?_, hnext, hroom⟩
      rw [hneighbors hin]
      exact hnodes.setNeighbors hnode
    · next hout =>
      exact Returns.pure
        ⟨hnodes.skip (.inr (not_lt.mp hout)) (.inl rfl), hnext, hroom⟩
  exact (Decides.foldlM_range hround
    ⟨hnodes, by rw [Nat.zero_mul, Nat.add_zero], hstart⟩).iff (forall_row_iff hstart)

theorem decides_slotCodes (slot : ℕ) :
    Decides Thrown (slot < node_count.toNat → storedCodes metadata page slot ≤ 2 ^ 63 - 1)
      (slotCodes metadata node_count slot (storedDegree metadata page slot)) fun codes =>
      slot < node_count.toNat → codes = List.replicate (storedCodes metadata page slot) 0 := by
  rw [slotCodes]
  split
  · next hin =>
    refine ((decides_throwFault (2 ^ 63 - 1 < storedCodes metadata page slot) _).followed
      fun _ _ => Returns.pure fun _ => rfl).iff ?_
    rw [not_lt]
    exact ⟨fun h _ => h, fun h => h hin⟩
  · next hout =>
    exact (Decides.pure fun hin => absurd hin hout).iff
      ⟨fun _ hin => absurd hin hout, fun _ => trivial⟩

/-- The codes of a slot while they are read: how many bytes of the slot are behind the cursor. -/
structure CodesOk (metadata : DiskGraphMetadata) (page : Bytes) (node_count : UInt32)
    (slot done : ℕ) (state : CodeState) : Prop where
  codes_eq : slot < node_count.toNat → state.codes =
    slice page (codesOffset metadata + slot * codeBytes metadata)
        (min done (storedCodes metadata page slot)) ++
      List.replicate (storedCodes metadata page slot - min done (storedCodes metadata page slot)) 0
  written_eq : slot < node_count.toNat → state.written = min done (storedCodes metadata page slot)
  cursor_eq : state.cursor = codesOffset metadata + slot * codeBytes metadata + done
  cursor_le : state.cursor ≤ page.length

theorem decides_readCode {slot n b : ℕ} {state : CodeState}
    (hb : b < metadata.neighbor_pq_code_bytes.toNat)
    (h : CodesOk metadata page node_count slot
      (n * metadata.neighbor_pq_code_bytes.toNat + b) state) :
    Decides Thrown (codesOffset metadata + slot * codeBytes metadata +
        n * metadata.neighbor_pq_code_bytes.toNat + b * 1 + 1 ≤ page.length)
      (readCode page node_count slot (storedDegree metadata page slot) n state b)
      (CodesOk metadata page node_count slot
        (n * metadata.neighbor_pq_code_bytes.toNat + (b + 1))) := by
  have hcursor := h.cursor_eq
  refine ((decides_getByte page state.cursor).followed ?_).iff (by omega)
  rintro _ ⟨rfl, hroom⟩
  dsimp only
  split
  · next hkeep =>
    -- the places of the neighbours below the stored degree are places of the codes
    have hplace : n * metadata.neighbor_pq_code_bytes.toNat + b < storedCodes metadata page slot := by
      have hrow := Nat.mul_le_mul_right metadata.neighbor_pq_code_bytes.toNat
        (Nat.succ_le_of_lt hkeep.2)
      rw [Nat.succ_mul] at hrow
      exact lt_of_lt_of_le (Nat.add_lt_add_left hb _) hrow
    have hwritten := h.written_eq hkeep.1
    have hcodes := h.codes_eq hkeep.1
    rw [Nat.min_eq_left hplace.le] at hwritten hcodes
    have hbehind : (slice page (codesOffset metadata + slot * codeBytes metadata)
        (n * metadata.neighbor_pq_code_bytes.toNat + b)).length = state.written := by
      rw [length_slice (by omega), hwritten]
    have hlength : state.written < state.codes.length := by
      rw [hcodes, List.length_append, hbehind, List.length_replicate]
      omega
    refine Returns.bind ⟨_, store_ok hlength _, rfl⟩ ?_
    rintro _ rfl
    refine Returns.pure ⟨fun _ => ?_, fun _ => ?_, ?_, hroom⟩
    · dsimp only
      rw [hcodes, ← hbehind, set_blank (by omega), Nat.min_eq_left (by omega), ← Nat.add_assoc,
        slice_succ (by omega), List.getD_eq_getElem?_getD,
        List.getElem?_eq_getElem (show state.cursor < page.length by omega)]
      simp only [Option.getD_some, hcursor]
      congr 2
    · dsimp only
      omega
    · dsimp only
      omega
  · next hskip =>
    have hpast : slot < node_count.toNat →
        storedCodes metadata page slot ≤ n * metadata.neighbor_pq_code_bytes.toNat := fun hin =>
      Nat.mul_le_mul_right _ (not_lt.mp fun hlt => hskip ⟨hin, hlt⟩)
    refine Returns.pure ⟨fun hin => ?_, fun hin => ?_, ?_, hroom⟩
    · have hcodes := h.codes_eq hin
      have hle := hpast hin
      rw [Nat.min_eq_right (by omega)] at hcodes ⊢
      exact hcodes
    · have hwritten := h.written_eq hin
      have hle := hpast hin
      dsimp only
      omega
    · dsimp only
      omega

/-- The codes of one slot. -/
theorem decides_slotRead {slot : ℕ} {codes : List UInt8}
    (hcodes : slot < node_count.toNat →
      codes = List.replicate (storedCodes metadata page slot) 0)
    (hcursor : codesOffset metadata + slot * codeBytes metadata ≤ page.length) :
    Decides Thrown
      (codesOffset metadata + slot * codeBytes metadata + codeBytes metadata ≤ page.length)
      ((List.range metadata.degree.toNat).foldlM (fun state n =>
        (List.range metadata.neighbor_pq_code_bytes.toNat).foldlM
          (readCode page node_count slot (storedDegree metadata page slot) n) state)
        ⟨codes, 0, codesOffset metadata + slot * codeBytes metadata⟩)
      (CodesOk metadata page node_count slot (codeBytes metadata)) := by
  have hround : ∀ n < metadata.degree.toNat, ∀ state,
      CodesOk metadata page node_count slot (n * metadata.neighbor_pq_code_bytes.toNat) state →
      Decides Thrown (codesOffset metadata + slot * codeBytes metadata +
          n * metadata.neighbor_pq_code_bytes.toNat + metadata.neighbor_pq_code_bytes.toNat ≤
          page.length)
        ((List.range metadata.neighbor_pq_code_bytes.toNat).foldlM
          (readCode page node_count slot (storedDegree metadata page slot) n) state)
        (CodesOk metadata page node_count slot
          ((n + 1) * metadata.neighbor_pq_code_bytes.toNat)) := by
    intro n hn state hstate
    have hbehind := hstate.cursor_le
    rw [hstate.cursor_eq] at hbehind
    rw [Nat.add_mul, Nat.one_mul]
    have hrow := Decides.foldlM_range
      (S := fun b => CodesOk metadata page node_count slot
        (n * metadata.neighbor_pq_code_bytes.toNat + b))
      (fun b hb state hstate => decides_readCode hb hstate) hstate
    refine hrow.iff ((forall_row_iff hbehind).trans ?_)
    rw [Nat.mul_one]
  have hfirst : CodesOk metadata page node_count slot
      (0 * metadata.neighbor_pq_code_bytes.toNat)
      ⟨codes, 0, codesOffset metadata + slot * codeBytes metadata⟩ := by
    rw [Nat.zero_mul]
    refine ⟨fun hin => ?_, fun _ => (Nat.zero_min _).symm, rfl, hcursor⟩
    rw [Nat.zero_min, Nat.sub_zero, hcodes hin]
    rfl
  exact (Decides.foldlM_range hround hfirst).iff (forall_row_iff hcursor)

theorem decides_readCodes
    (hdegrees : ∀ k < slotCount metadata, degrees[k]? = some (storedDegree metadata page k))
    (hnodes : NodesOk metadata page node_count.toNat (slotCount metadata) 0 nodes)
    (hstart : codesOffset metadata ≤ page.length) :
    Decides Thrown ((∀ slot < slotCount metadata, slot < node_count.toNat →
        storedCodes metadata page slot ≤ 2 ^ 63 - 1) ∧ pageBytes metadata ≤ page.length)
      ((List.range (slotCount metadata)).foldlM (readCodes metadata page node_count degrees)
        (nodes, codesOffset metadata)) fun read =>
      NodesOk metadata page node_count.toNat (slotCount metadata) (slotCount metadata) read.1 := by
  have hround : ∀ slot < slotCount metadata, ∀ state : List DiskNode × ℕ,
      (NodesOk metadata page node_count.toNat (slotCount metadata) slot state.1 ∧
        state.2 = codesOffset metadata + slot * codeBytes metadata ∧ state.2 ≤ page.length) →
      Decides Thrown
        ((slot < node_count.toNat → storedCodes metadata page slot ≤ 2 ^ 63 - 1) ∧
          codesOffset metadata + slot * codeBytes metadata + codeBytes metadata ≤ page.length)
        (readCodes metadata page node_count degrees state slot) fun next =>
        NodesOk metadata page node_count.toNat (slotCount metadata) (slot + 1) next.1 ∧
          next.2 = codesOffset metadata + (slot + 1) * codeBytes metadata ∧
          next.2 ≤ page.length := by
    rintro slot hslot ⟨nodes, cursor⟩ ⟨hnodes, rfl, hcursor⟩
    have hnext := row_succ (codesOffset metadata) slot (codeBytes metadata)
    refine Decides.after (returns_load_eq (hdegrees slot hslot)) ?_
    rintro _ rfl
    refine (decides_slotCodes slot).bind fun codes hcodes => ?_
    refine (decides_slotRead hcodes hcursor).followed fun read hread => ?_
    dsimp only at hnodes ⊢
    split
    · next hin =>
      have hplace : slot < nodes.length := hnodes.length_eq ▸ hin
      have hnode := List.getElem?_eq_getElem hplace
      refine Returns.bind (returns_load_eq hnode) ?_
      rintro _ rfl
      refine Returns.bind ⟨_, store_ok hplace _, rfl⟩ ?_
      rintro _ rfl
      exact Returns.pure ⟨hnodes.setCodes hnode (hread.codes_eq hin),
        hread.cursor_eq.trans hnext, hread.cursor_le⟩
    · next hout =>
      exact Returns.pure ⟨hnodes.skip (.inl rfl) (.inr ⟨not_lt.mp hout, Nat.le_succ slot⟩),
        hread.cursor_eq.trans hnext, hread.cursor_le⟩
  refine ((Decides.foldlM_range hround
    ⟨hnodes, by rw [Nat.zero_mul, Nat.add_zero], hstart⟩).mono fun _ hread => hread.1).iff ?_
  rw [pageBytes, ← forall_row_iff hstart]
  exact forall₂_and

end Loops

section Decoder

variable (metadata : DiskGraphMetadata) (page_id : UInt32) (page : Bytes)

/-- The page is shorter than the metadata asks for, its header does not fit, or a node asks for more
codes than an array can hold. -/
def Refused : Prop :=
  page.length < pageBytes metadata ∨ wordAt page 0 ≠ page_id ∨
    metadata.nodes_per_page < storedCount page ∨
    ∃ slot < (storedCount page).toNat, 2 ^ 63 - 1 < storedCodes metadata page slot

variable {metadata page_id page}

theorem not_refused_iff :
    ¬Refused metadata page_id page ↔
      pageBytes metadata ≤ page.length ∧
        ¬(wordAt page 0 ≠ page_id ∨ metadata.nodes_per_page < storedCount page) ∧
        ∀ slot < (storedCount page).toNat, storedCodes metadata page slot ≤ 2 ^ 63 - 1 := by
  rw [Refused, not_or, ← or_assoc, not_or, not_lt]
  simp only [not_exists, not_and, not_lt]

/-- The neighbours of a node, and its codes when the index has codes. -/
structure DecodedOk (metadata : DiskGraphMetadata) (page : Bytes) (decoded : DecodedPage) : Prop where
  bytes_eq : decoded.bytes = page
  nodes_ok : NodesOk metadata page (storedCount page).toNat (slotCount metadata)
    (if 0 < metadata.neighbor_pq_code_bytes.toNat then slotCount metadata else 0) decoded.nodes
  count_le : (storedCount page).toNat ≤ slotCount metadata

/-- The codes come last, and only when the index has codes. -/
theorem decides_decodeCodes {degrees : List UInt32} {nodes : List DiskNode} {stored_id : UInt32}
    (hdegrees : ∀ k < slotCount metadata, degrees[k]? = some (storedDegree metadata page k))
    (hcount : (storedCount page).toNat ≤ slotCount metadata)
    (hnodes : NodesOk metadata page (storedCount page).toNat (slotCount metadata) 0 nodes)
    (hstart : codesOffset metadata ≤ page.length) :
    Decides Thrown (pageBytes metadata ≤ page.length ∧
        ∀ slot < (storedCount page).toNat, storedCodes metadata page slot ≤ 2 ^ 63 - 1)
      (if 0 < metadata.neighbor_pq_code_bytes.toNat then do
        let (nodes, _) ← (List.range (slotCount metadata)).foldlM
          (readCodes metadata page (storedCount page) degrees) (nodes, codesOffset metadata)
        return ⟨stored_id, page, nodes⟩
      else return ⟨stored_id, page, nodes⟩)
      (DecodedOk metadata page) := by
  split
  · next hcodes =>
    have hread : ∀ read : List DiskNode × ℕ,
        NodesOk metadata page (storedCount page).toNat (slotCount metadata) (slotCount metadata)
          read.1 →
        Returns (pure ⟨stored_id, page, read.1⟩ : Except Fault DecodedPage)
          (DecodedOk metadata page) := by
      intro read hread
      refine Returns.pure ⟨rfl, ?_, hcount⟩
      rw [if_pos hcodes]
      exact hread
    refine ((decides_readCodes hdegrees hnodes hstart).followed hread).iff ⟨fun h => ?_, fun h => ?_⟩
    · exact ⟨h.2, fun slot hslot => h.1 slot (lt_of_lt_of_le hslot hcount) hslot⟩
    · exact ⟨fun slot _ hslot => h.2 slot hslot, h.1⟩
  · next hnone =>
    have hzero : metadata.neighbor_pq_code_bytes.toNat = 0 := Nat.eq_zero_of_not_pos hnone
    have hdecoded : DecodedOk metadata page ⟨stored_id, page, nodes⟩ := by
      refine ⟨rfl, ?_, hcount⟩
      rw [if_neg hnone]
      exact hnodes
    refine (Decides.pure hdecoded).iff ⟨fun _ => ⟨?_, fun slot _ => ?_⟩, fun _ => trivial⟩
    · rw [pageBytes, codeBytes, hzero, Nat.mul_zero, Nat.mul_zero]
      exact hstart
    · rw [storedCodes, hzero, Nat.mul_zero]
      exact Nat.zero_le _

/-- The decoder returns unless it refuses the page. -/
theorem decides_decodePackedPage (metadata : DiskGraphMetadata) (page_id : UInt32) (page : Bytes) :
    Decides Thrown (¬Refused metadata page_id page) (decodePackedPage metadata page_id page)
      (DecodedOk metadata page) := by
  refine Decides.iff (c := 0 + 4 ≤ page.length ∧ 0 + 4 + 4 ≤ page.length ∧
    ¬(wordAt page 0 ≠ page_id ∨ metadata.nodes_per_page < storedCount page) ∧
    8 + slotCount metadata * 4 ≤ page.length ∧ vectorsOffset metadata ≤ page.length ∧
    neighborsOffset metadata ≤ page.length ∧ codesOffset metadata ≤ page.length ∧
    pageBytes metadata ≤ page.length ∧
    ∀ slot < (storedCount page).toNat, storedCodes metadata page slot ≤ 2 ^ 63 - 1) ?_ ?_
  · refine (decides_getWord page 0).bind ?_
    rintro _ ⟨rfl, hfirst⟩
    refine (decides_getWord page (0 + 4)).bind ?_
    rintro _ ⟨rfl, hheader⟩
    refine (decides_throwFault _ _).bind fun _ hfits => ?_
    have hcount : (storedCount page).toNat ≤ slotCount metadata :=
      UInt32.le_iff_toNat_le.mp (not_lt.mp fun hlt => hfits (.inr hlt))
    refine (decides_readSlots hheader (slotCount metadata)).bind ?_
    rintro ⟨ids, _⟩ ⟨hids, rfl, hids_end⟩
    refine (decides_readSlots hids_end (slotCount metadata)).bind ?_
    rintro ⟨degrees, _⟩ ⟨hdegrees, rfl, hdegrees_end⟩
    refine (decides_placeVectors hids hdegrees_end).bind ?_
    rintro ⟨placed, _⟩ ⟨hplaced, rfl, hplaced_end⟩
    change NodesOk metadata page (min (slotCount metadata) (storedCount page).toNat) 0 0 placed
      at hplaced
    rw [Nat.min_eq_right hcount] at hplaced
    refine (decides_readNeighbors hdegrees hplaced hplaced_end).bind ?_
    rintro ⟨nodes, _⟩ ⟨hnodes, rfl, hnodes_end⟩
    exact decides_decodeCodes hdegrees hcount hnodes hnodes_end
  · rw [not_refused_iff]
    constructor
    · exact fun ⟨_, _, hheader, _, _, _, _, hlength, hcodes⟩ => ⟨hlength, hheader, hcodes⟩
    · rintro ⟨hlength, hheader, hcodes⟩
      rw [pageBytes] at hlength
      have hcodes_start : codesOffset metadata ≤ page.length := Nat.le_of_add_right_le hlength
      have hneighbors_start : neighborsOffset metadata ≤ page.length := by
        rw [codesOffset] at hcodes_start
        exact Nat.le_of_add_right_le hcodes_start
      have hvectors_start : vectorsOffset metadata ≤ page.length := by
        rw [neighborsOffset] at hneighbors_start
        exact Nat.le_of_add_right_le hneighbors_start
      have hdegrees_start : 8 + slotCount metadata * 4 ≤ page.length := by
        rw [vectorsOffset] at hvectors_start
        exact Nat.le_of_add_right_le hvectors_start
      exact ⟨by omega, by omega, hheader, hdegrees_start, hvectors_start, hneighbors_start,
        hcodes_start, hlength, hcodes⟩

/-- A page as it should be decoded. -/
structure WellFormed (metadata : DiskGraphMetadata) (decoded : DecodedPage) : Prop where
  offset_le : ∀ node ∈ decoded.nodes,
    node.vector_offset + vectorBytes metadata ≤ decoded.bytes.length
  neighbors_le : ∀ node ∈ decoded.nodes, node.neighbors.length ≤ metadata.degree.toNat
  codes_eq : ∀ node ∈ decoded.nodes, node.neighbor_pq_codes.length =
    node.neighbors.length * metadata.neighbor_pq_code_bytes.toNat

/-- The neighbours that the stored degree promises are all there. -/
def Whole (metadata : DiskGraphMetadata) (page : Bytes) (slot : ℕ) : Prop :=
  storedDegree metadata page slot ≤ metadata.degree ∧
    ∀ n < (storedDegree metadata page slot).toNat, storedNeighbor metadata page slot n ≠ kNoNeighbor

theorem length_keptPlaces_le (slot : ℕ) :
    (keptPlaces metadata page slot).length ≤ metadata.degree.toNat :=
  (List.length_filter_le _ _).trans_eq List.length_range

theorem keptPlaces_eq {slot : ℕ} (h : storedDegree metadata page slot ≤ metadata.degree) :
    keptPlaces metadata page slot =
      (List.range (storedDegree metadata page slot).toNat).filter fun n =>
        storedNeighbor metadata page slot n ≠ kNoNeighbor := by
  obtain ⟨rest, hrest⟩ := Nat.exists_eq_add_of_le (UInt32.le_iff_toNat_le.mp h)
  have hpast : ∀ n ∈ (List.range rest).map ((storedDegree metadata page slot).toNat + ·),
      ¬(n < (storedDegree metadata page slot).toNat ∧
        storedNeighbor metadata page slot n ≠ kNoNeighbor) := by
    intro n hn hkept
    obtain ⟨k, _, rfl⟩ := List.mem_map.mp hn
    exact absurd hkept.1 (Nat.not_lt.mpr (Nat.le_add_right _ k))
  rw [keptPlaces, hrest, List.range_add, List.filter_append]
  have hnone : List.filter (fun n => decide (n < (storedDegree metadata page slot).toNat ∧
      storedNeighbor metadata page slot n ≠ kNoNeighbor))
      ((List.range rest).map ((storedDegree metadata page slot).toNat + ·)) = [] :=
    List.filter_eq_nil_iff.mpr fun n hn => by simpa using hpast n hn
  rw [hnone, List.append_nil]
  refine List.filter_congr fun n hn => ?_
  rw [decide_eq_decide]
  exact and_iff_right (List.mem_range.mp hn)

theorem length_keptPlaces_iff (slot : ℕ) :
    (keptPlaces metadata page slot).length = (storedDegree metadata page slot).toNat ↔
      Whole metadata page slot := by
  by_cases h : storedDegree metadata page slot ≤ metadata.degree
  · have hall := List.length_filter_eq_length_iff
      (p := fun n => decide (storedNeighbor metadata page slot n ≠ kNoNeighbor))
      (l := List.range (storedDegree metadata page slot).toNat)
    rw [List.length_range] at hall
    rw [keptPlaces_eq h, hall, Whole, and_iff_right h]
    simp only [List.mem_range, decide_eq_true_eq]
  · refine ⟨fun heq => absurd ?_ h, fun hwhole => absurd hwhole.1 h⟩
    rw [UInt32.le_iff_toNat_le, ← heq]
    exact length_keptPlaces_le slot

variable {decoded : DecodedPage}

theorem DecodedOk.neighbors_eq (h : DecodedOk metadata page decoded) {k : ℕ} {node : DiskNode}
    (hnode : decoded.nodes[k]? = some node) :
    k < (storedCount page).toNat ∧
      node.neighbors = (keptPlaces metadata page k).map (storedNeighbor metadata page k) := by
  have hk : k < (storedCount page).toNat :=
    h.nodes_ok.length_eq ▸ (List.getElem?_eq_some_iff.mp hnode).1
  exact ⟨hk, h.nodes_ok.neighbors_eq k node hnode (lt_of_lt_of_le hk h.count_le)⟩

theorem DecodedOk.offset_le (h : DecodedOk metadata page decoded) :
    ∀ node ∈ decoded.nodes, node.vector_offset + vectorBytes metadata ≤ decoded.bytes.length := by
  rw [h.bytes_eq]
  exact h.nodes_ok.offset_le

theorem DecodedOk.neighbors_le (h : DecodedOk metadata page decoded) :
    ∀ node ∈ decoded.nodes, node.neighbors.length ≤ metadata.degree.toNat := by
  intro node hmem
  obtain ⟨k, hnode⟩ := List.getElem?_of_mem hmem
  rw [(h.neighbors_eq hnode).2, List.length_map]
  exact length_keptPlaces_le k

/-- The codes of a node fit its neighbours when the neighbours are all there. -/
theorem DecodedOk.codes_iff (h : DecodedOk metadata page decoded)
    (hpage : pageBytes metadata ≤ page.length)
    (hcodes : 0 < metadata.neighbor_pq_code_bytes.toNat) {k : ℕ} {node : DiskNode}
    (hnode : decoded.nodes[k]? = some node) :
    node.neighbor_pq_codes.length =
        node.neighbors.length * metadata.neighbor_pq_code_bytes.toNat ↔
      Whole metadata page k := by
  obtain ⟨hk, hneighbors⟩ := h.neighbors_eq hnode
  have hlength : node.neighbor_pq_codes.length = storedCodes metadata page k := by
    have hrow : codesOffset metadata + k * codeBytes metadata + codeBytes metadata ≤ page.length :=
      (forall_row_iff (le_trans (Nat.le_add_right _ _) hpage)).mpr hpage k
        (lt_of_lt_of_le hk h.count_le)
    rw [h.nodes_ok.codes_eq k node hnode (by rw [if_pos hcodes]; exact lt_of_lt_of_le hk h.count_le),
      decodedCodes, List.length_append, length_slice (by omega), List.length_replicate]
    omega
  rw [hlength, hneighbors, List.length_map, storedCodes, Nat.mul_left_inj (Nat.ne_of_gt hcodes),
    eq_comm]
  exact length_keptPlaces_iff k

theorem DecodedOk.wellFormed_iff (h : DecodedOk metadata page decoded)
    (hpage : pageBytes metadata ≤ page.length) :
    WellFormed metadata decoded ↔ metadata.neighbor_pq_code_bytes = 0 ∨
      ∀ slot < (storedCount page).toNat, Whole metadata page slot := by
  by_cases hnone : metadata.neighbor_pq_code_bytes = 0
  · refine iff_of_true ⟨h.offset_le, h.neighbors_le, fun node hmem => ?_⟩ (.inl hnone)
    have hzero : metadata.neighbor_pq_code_bytes.toNat = 0 := by
      rw [hnone]
      rfl
    obtain ⟨k, hnode⟩ := List.getElem?_of_mem hmem
    rw [h.nodes_ok.codes_nil k node hnode (by simp [hzero]), hzero]
    rfl
  · have hcodes : 0 < metadata.neighbor_pq_code_bytes.toNat :=
      Nat.pos_of_ne_zero fun hzero => hnone (UInt32.toNat_inj.mp hzero)
    rw [or_iff_right hnone]
    constructor
    · intro hformed slot hslot
      have hplace : slot < decoded.nodes.length := h.nodes_ok.length_eq ▸ hslot
      have hnode := List.getElem?_eq_getElem hplace
      exact (h.codes_iff hpage hcodes hnode).mp (hformed.codes_eq _ (List.mem_of_getElem? hnode))
    · intro hwhole
      refine ⟨h.offset_le, h.neighbors_le, fun node hmem => ?_⟩
      obtain ⟨k, hnode⟩ := List.getElem?_of_mem hmem
      exact (h.codes_iff hpage hcodes hnode).mpr (hwhole k (h.neighbors_eq hnode).1)

/-- The vectors and the neighbours of a decoded page are always in order. -/
theorem decodePackedPage_bounds (h : decodePackedPage metadata page_id page = .ok decoded) :
    (∀ node ∈ decoded.nodes, node.vector_offset + vectorBytes metadata ≤ decoded.bytes.length) ∧
      ∀ node ∈ decoded.nodes, node.neighbors.length ≤ metadata.degree.toNat := by
  have hdecoded := (decides_decodePackedPage metadata page_id page).of_ok h
  exact ⟨hdecoded.offset_le, hdecoded.neighbors_le⟩

/-- A page is refused or decoded to a well formed one exactly when a check refuses it, the index has no
codes, or every node has the neighbours that its stored degree promises. -/
theorem decodePackedPage_wellFormed_iff (metadata : DiskGraphMetadata) (page_id : UInt32)
    (page : Bytes) :
    ((∃ message, decodePackedPage metadata page_id page = .error (.thrown message)) ∨
        ∃ decoded, decodePackedPage metadata page_id page = .ok decoded ∧
          WellFormed metadata decoded) ↔
      Refused metadata page_id page ∨ metadata.neighbor_pq_code_bytes = 0 ∨
        ∀ slot < (storedCount page).toNat, Whole metadata page slot := by
  have hdecides := decides_decodePackedPage metadata page_id page
  by_cases hrefused : Refused metadata page_id page
  · refine iff_of_true (.inl ?_) (.inl hrefused)
    obtain ⟨_, hfault, message, rfl⟩ := hdecides.fails (not_not.mpr hrefused)
    exact ⟨message, hfault⟩
  · obtain ⟨decoded, hdecoded, hok⟩ := hdecides.returns hrefused
    rw [or_iff_right hrefused, ← hok.wellFormed_iff (not_refused_iff.mp hrefused).1, hdecoded]
    constructor
    · rintro (⟨message, hfault⟩ | ⟨other, hother, hformed⟩)
      · cases hfault
      · cases hother
        exact hformed
    · exact fun hformed => .inr ⟨decoded, rfl, hformed⟩

/-- A node with a stored degree of 2 in an index of degree 1: one neighbour and two codes. -/
theorem decodePackedPage_not_wellFormed :
    ¬∀ (metadata : DiskGraphMetadata) (page_id : UInt32) (page : Bytes),
      (∃ message, decodePackedPage metadata page_id page = .error (.thrown message)) ∨
        ∃ decoded, decodePackedPage metadata page_id page = .ok decoded ∧
          WellFormed metadata decoded := by
  intro hall
  have hdecoded : decodePackedPage ⟨1, 1, 1, 1⟩ 0
      [0, 0, 0, 0, 1, 0, 0, 0, 0, 0, 0, 0, 2, 0, 0, 0, 0, 0, 0, 0, 5, 0, 0, 0, 7] =
      .ok ⟨0, [0, 0, 0, 0, 1, 0, 0, 0, 0, 0, 0, 0, 2, 0, 0, 0, 0, 0, 0, 0, 5, 0, 0, 0, 7],
        [⟨0, [5], [7, 0], [], 16⟩]⟩ := by
    decide +kernel
  rcases hall ⟨1, 1, 1, 1⟩ 0
    [0, 0, 0, 0, 1, 0, 0, 0, 0, 0, 0, 0, 2, 0, 0, 0, 0, 0, 0, 0, 5, 0, 0, 0, 7] with
    ⟨message, hfault⟩ | ⟨decoded, hok, hformed⟩
  · rw [hdecoded] at hfault
    cases hfault
  · rw [hdecoded] at hok
    cases hok
    have hlength := hformed.codes_eq _ (List.mem_singleton.mpr rfl)
    revert hlength
    decide

end Decoder

end DiskPageCodec
