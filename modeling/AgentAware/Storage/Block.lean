import AgentAware.Core.Types
import AgentAware.Lib.TopK

/-!
# Blocks of rows

The delta indexes keep their rows in pairs of arrays: the ids, and as many vectors of `dim` floats, one
after the other. Rows are added at the end, batches are moved from the front, and a search offers the
rows of some blocks to a bounded heap.

## Main definitions

- `Block` — the two arrays, with the length of the second as an invariant
- `Block.rows` — the rows of a block
- `scanRows` — the heap after the rows have been offered to it

## Main results

- `Block.rows_push`, `Block.rows_append`, `Block.rows_take_append_rows_drop` — rows stay whole
- `sortBy_scanRows` — the heap holds the first `k` rows
-/

namespace Storage

/-- An array of ids and an array of vectors. -/
structure Block (dim : ℕ) where
  ids : List NodeId
  values : List FloatBits
  fits : values.length = ids.length * dim

namespace Block

variable {dim : ℕ}

def empty (dim : ℕ) : Block dim := ⟨[], [], (Nat.zero_mul dim).symm⟩

def vector (block : Block dim) (index : ℕ) : List FloatBits :=
  VectorSet.row ⟨dim, block.values⟩ index

/-- The rows, in order. -/
def rows (block : Block dim) : List (NodeId × List FloatBits) :=
  block.ids.mapIdx fun i id => (id, block.vector i)

/-- Add a row at the end. -/
def push (block : Block dim) (id : NodeId) (vector : Vector FloatBits dim) : Block dim :=
  { ids := block.ids ++ [id]
    values := block.values ++ vector.toList
    fits := by
      rw [List.length_append, List.length_append, block.fits, Vector.length_toList,
        List.length_singleton, Nat.add_mul, Nat.one_mul] }

def append (block more : Block dim) : Block dim :=
  { ids := block.ids ++ more.ids
    values := block.values ++ more.values
    fits := by
      rw [List.length_append, List.length_append, block.fits, more.fits, Nat.add_mul] }

/-- The first `count` rows. -/
def take (block : Block dim) (count : ℕ) : Block dim :=
  { ids := block.ids.take count
    values := block.values.take (count * dim)
    fits := by rw [List.length_take, List.length_take, block.fits, Nat.mul_min_mul_right] }

/-- The rows behind the first `count`. -/
def drop (block : Block dim) (count : ℕ) : Block dim :=
  { ids := block.ids.drop count
    values := block.values.drop (count * dim)
    fits := by rw [List.length_drop, List.length_drop, block.fits, Nat.sub_mul] }

theorem vector_append_left {block : Block dim} (more : Block dim) {index : ℕ} (h : index < block.ids.length) :
    (block.append more).vector index = block.vector index := by
  have hle : (index + 1) * dim ≤ block.values.length := by
    rw [block.fits]
    exact Nat.mul_le_mul_right dim h
  rw [Nat.add_mul, Nat.one_mul] at hle
  have hdrop : index * dim ≤ block.values.length := by omega
  have htake : dim ≤ (block.values.drop (index * dim)).length := by
    rw [List.length_drop]
    omega
  change ((block.values ++ more.values).drop (index * dim)).take dim = _
  rw [List.drop_append_of_le_length hdrop, List.take_append_of_le_length htake]
  rfl

theorem vector_append_right (block more : Block dim) (index : ℕ) :
    (block.append more).vector (index + block.ids.length) = more.vector index := by
  have hdrop : (index + block.ids.length) * dim = block.values.length + index * dim := by
    rw [Nat.add_mul, block.fits, Nat.add_comm]
  change ((block.values ++ more.values).drop ((index + block.ids.length) * dim)).take dim = _
  rw [hdrop, List.drop_length_add_append]
  rfl

theorem rows_append (block more : Block dim) :
    (block.append more).rows = block.rows ++ more.rows := by
  rw [rows, append, List.mapIdx_append, rows, rows]
  congr 1
  · exact List.mapIdx_eq_mapIdx_iff.mpr fun i hi =>
      congrArg _ (vector_append_left more hi)
  · exact List.mapIdx_eq_mapIdx_iff.mpr fun i _ =>
      congrArg _ (vector_append_right block more i)

theorem rows_push (block : Block dim) (id : NodeId) (vector : Vector FloatBits dim) :
    (block.push id vector).rows = block.rows ++ [(id, vector.toList)] := by
  have hlast : vector.toList.length = [id].length * dim := by
    rw [Vector.length_toList, List.length_singleton, Nat.one_mul]
  have hrow : (Block.mk [id] vector.toList hlast).rows = [(id, vector.toList)] := by
    have hall : vector.toList.take dim = vector.toList :=
      List.take_of_length_le (by rw [Vector.length_toList])
    rw [rows, List.mapIdx_singleton, Block.vector, VectorSet.row, Nat.zero_mul, List.drop_zero, hall]
  exact (rows_append block ⟨[id], vector.toList, hlast⟩).trans (by rw [hrow])

/-- A batch and the rest are the whole block. -/
theorem rows_take_append_rows_drop (block : Block dim) (count : ℕ) :
    (block.take count).rows ++ (block.drop count).rows = block.rows := by
  have hsplit : (block.take count).append (block.drop count) = block := by
    cases block
    simp only [append, take, drop, List.take_append_drop]
  rw [← rows_append, hsplit]

theorem length_vector (block : Block dim) {index : ℕ} (h : index < block.ids.length) :
    (block.vector index).length = dim := by
  have hle : (index + 1) * dim ≤ block.values.length := by
    rw [block.fits]
    exact Nat.mul_le_mul_right dim h
  rw [Nat.add_mul, Nat.one_mul] at hle
  rw [vector, VectorSet.row, List.length_take, List.length_drop]
  exact min_eq_left (by simp only; omega)

/-- The floats of a row. -/
def vectorAt (block : Block dim) (index : Fin block.ids.length) : Vector FloatBits dim :=
  ⟨(block.vector index).toArray, by rw [List.size_toArray, block.length_vector index.isLt]⟩

theorem toList_vectorAt (block : Block dim) (index : Fin block.ids.length) :
    (block.vectorAt index).toList = block.vector index := rfl

theorem rows_eq_map_finRange (block : Block dim) :
    block.rows = (List.finRange block.ids.length).map fun i =>
      (block.ids.get i, (block.vectorAt i).toList) := by
  refine List.ext_getElem (by simp [rows]) fun i hi hi' => ?_
  simp [rows, toList_vectorAt]

theorem length_rows (block : Block dim) : block.rows.length = block.ids.length := by
  rw [rows, List.length_mapIdx]

end Block

section Scan

variable {D : Type} [LinearOrder D] (squared_l2 : List FloatBits → List FloatBits → D)

/-- A row with its distance from the query. -/
def item (query : List FloatBits) (row : NodeId × List FloatBits) : SearchResult D :=
  ⟨row.1, squared_l2 query row.2⟩

/-- The heap after the rows have been offered to it, the worst on top; `WorseFirst` is the order of the
rank. -/
def scanRows (query : List FloatBits) (k : ℕ) (heap : List (SearchResult D))
    (rows : List (NodeId × List FloatBits)) : List (SearchResult D) :=
  (rows.map (item squared_l2 query)).foldl (TopK.offer SearchResult.rank k) heap

omit [LinearOrder D] in
theorem separates_rank (entries : List (SearchResult D)) :
    TopK.Separates SearchResult.rank entries :=
  TopK.separates_of_injective SearchResult.rank_injective entries

/-- The heap holds the first `k` rows. -/
theorem sortBy_scanRows (query : List FloatBits) {k : ℕ} (hk : 0 < k)
    (rows : List (NodeId × List FloatBits)) :
    TopK.sortBy SearchResult.rank (scanRows squared_l2 query k [] rows) =
      TopK.topk SearchResult.rank k (rows.map (item squared_l2 query)) := by
  have hheap := TopK.foldl_offer_perm hk (separates_rank (rows.map (item squared_l2 query)))
  rw [scanRows, TopK.sortBy_eq_of_perm (separates_rank _) hheap, TopK.sortBy_topk]

end Scan

end Storage
