import AgentAware.Lib.Checked
import AgentAware.Storage.Block
import AgentAware.Storage.MergeTopk
import Mathlib.Algebra.Ring.Int.Defs

/-!
# The flat delta index

Inserts go to an active block; batches of its oldest rows are moved to a sealed block, and a search
merges the first `k` of both. An id may be inserted several times, and a block is cut to `k` rows
before repeated ids are removed. A search is therefore exact, whatever was sealed, when the cut of all
rows reaches the nearest row of each of the `k` nearest ids; otherwise the search of the rows in one
block returns too few results.

## Main definitions

- `DeltaFlatIndex` — the two blocks
- `DeltaFlatIndex.rows` — the rows of both blocks, the oldest first
- `DeltaFlatOp`, `DeltaFlatIndex.run` — histories of calls
- `CutReachesNearest` — the cut to `k` rows reaches the nearest row of the `k` nearest ids

## Main results

- `DeltaFlatIndex.rows_run` — a history leaves the rows it inserted
- `DeltaFlatIndex.searchOne_sealing_iff` — when sealing does not change a search
-/

namespace Storage

structure DeltaFlatIndex (dim : ℕ) where
  active : Block dim
  sealed : Block dim

namespace DeltaFlatIndex

variable {dim : ℕ}

/-- An index without rows. -/
def empty (dim : ℕ) : DeltaFlatIndex dim := ⟨Block.empty dim, Block.empty dim⟩

/-- The constructor. -/
def create (dim : ℕ) : Except String (DeltaFlatIndex dim) := do
  throwIf (dim = 0) "DeltaFlatIndex dimension must be positive"
  return empty dim

def insert (index : DeltaFlatIndex dim) (id : NodeId) (vector : Vector FloatBits dim) :
    DeltaFlatIndex dim :=
  { index with active := index.active.push id vector }

/-- Moves the oldest rows; returns how many. -/
def compactActiveToSealed (index : DeltaFlatIndex dim) (max_vectors : ℕ) :
    ℕ × DeltaFlatIndex dim :=
  let moved := min max_vectors index.active.ids.length
  if moved = 0 then (0, index)
  else
    (moved,
      { sealed := index.sealed.append (index.active.take moved)
        active := index.active.drop moved })

section Search

variable {D : Type} [LinearOrder D] (squared_l2 : List FloatBits → List FloatBits → D)

def searchBlock (block : Block dim) (query : List FloatBits) (k : ℕ) : List (SearchResult D) :=
  if k = 0 ∨ block.ids.isEmpty then []
  else
    let effective_k := min k block.ids.length
    TopK.sortBy SearchResult.rank (scanRows squared_l2 query effective_k [] block.rows)

def searchOne (index : DeltaFlatIndex dim) (query : List FloatBits) (k : ℕ) :
    List (SearchResult D) :=
  let active := searchBlock squared_l2 index.active query k
  let sealed := searchBlock squared_l2 index.sealed query k
  mergeTopk active sealed k

end Search

/-- The rows of both blocks, the oldest first. -/
def rows (index : DeltaFlatIndex dim) : List (NodeId × List FloatBits) :=
  index.sealed.rows ++ index.active.rows

end DeltaFlatIndex

/-- A call that changes the index. -/
inductive DeltaFlatOp (dim : ℕ) where
  | insert (id : NodeId) (vector : Vector FloatBits dim)
  | compactActiveToSealed (max_vectors : ℕ)

namespace DeltaFlatOp

variable {dim : ℕ}

def apply (index : DeltaFlatIndex dim) : DeltaFlatOp dim → DeltaFlatIndex dim
  | insert id vector => index.insert id vector
  | compactActiveToSealed max_vectors => (index.compactActiveToSealed max_vectors).2

def isInsert : DeltaFlatOp dim → Bool
  | insert _ _ => true
  | compactActiveToSealed _ => false

/-- The row that the call adds. -/
def row? : DeltaFlatOp dim → Option (NodeId × List FloatBits)
  | insert id vector => some (id, vector.toList)
  | compactActiveToSealed _ => none

end DeltaFlatOp

/-- The rows that a history inserts. -/
def insertedRows {dim : ℕ} (ops : List (DeltaFlatOp dim)) : List (NodeId × List FloatBits) :=
  ops.filterMap DeltaFlatOp.row?

/-- The ids that a history inserts, each once. -/
def insertedIds {dim : ℕ} (ops : List (DeltaFlatOp dim)) : List NodeId :=
  ((insertedRows ops).map Prod.fst).dedup

/-- A history of calls on a new index. -/
def DeltaFlatIndex.run {dim : ℕ} (ops : List (DeltaFlatOp dim)) : DeltaFlatIndex dim :=
  ops.foldl DeltaFlatOp.apply (DeltaFlatIndex.empty dim)

section Nearest

variable {D : Type} [LinearOrder D]

/-- For each of the `k` nearest ids, fewer than `k` entries are nearer than its nearest entry. -/
def CutReachesNearest (entries : List (SearchResult D)) (k : ℕ) : Prop :=
  ∀ entry ∈ TopK.topk SearchResult.rank k (TopK.bestPerKey SearchResult.id SearchResult.rank entries),
    TopK.before SearchResult.rank entries entry < k

instance (entries : List (SearchResult D)) (k : ℕ) : Decidable (CutReachesNearest entries k) :=
  inferInstanceAs (Decidable (∀ entry ∈ _, _))

end Nearest

namespace DeltaFlatIndex

variable {dim : ℕ}

theorem rows_insert (index : DeltaFlatIndex dim) (id : NodeId) (vector : Vector FloatBits dim) :
    (index.insert id vector).rows = index.rows ++ [(id, vector.toList)] := by
  rw [rows, insert, Block.rows_push, rows, List.append_assoc]

theorem rows_compactActiveToSealed (index : DeltaFlatIndex dim) (max_vectors : ℕ) :
    (index.compactActiveToSealed max_vectors).2.rows = index.rows := by
  rw [compactActiveToSealed]
  split
  · rfl
  · rw [rows, rows, Block.rows_append, List.append_assoc, Block.rows_take_append_rows_drop]

/-- A history leaves the rows it inserted, in order. -/
theorem rows_run (ops : List (DeltaFlatOp dim)) : (run ops).rows = insertedRows ops := by
  induction ops using List.reverseRecOn with
  | nil => rfl
  | append_singleton ops op ih =>
    rw [run, List.foldl_append, List.foldl_cons, List.foldl_nil, ← run, insertedRows,
      List.filterMap_append, ← insertedRows, ← ih]
    cases op with
    | insert id vector => exact rows_insert _ _ _
    | compactActiveToSealed max_vectors =>
      rw [DeltaFlatOp.apply, rows_compactActiveToSealed]
      exact (List.append_nil _).symm

/-- Without compaction nothing is sealed. -/
theorem sealed_run_inserts (ops : List (DeltaFlatOp dim)) :
    (run (ops.filter DeltaFlatOp.isInsert)).sealed = Block.empty dim := by
  induction ops using List.reverseRecOn with
  | nil => rfl
  | append_singleton ops op ih =>
    rw [List.filter_append]
    cases op with
    | insert id vector =>
      rw [run, List.filter_cons_of_pos rfl, List.filter_nil, List.foldl_append]
      exact ih
    | compactActiveToSealed max_vectors =>
      rw [List.filter_cons_of_neg (by simp [DeltaFlatOp.isInsert]), List.filter_nil, List.append_nil]
      exact ih

theorem insertedRows_inserts (ops : List (DeltaFlatOp dim)) :
    insertedRows (ops.filter DeltaFlatOp.isInsert) = insertedRows ops := by
  rw [insertedRows, insertedRows]
  induction ops with
  | nil => rfl
  | cons op ops ih =>
    cases op with
    | insert id vector =>
      rw [List.filter_cons_of_pos rfl, List.filterMap_cons, List.filterMap_cons, ih]
    | compactActiveToSealed max_vectors =>
      rw [List.filter_cons_of_neg (by simp [DeltaFlatOp.isInsert]), List.filterMap_cons, ih]
      rfl

section Search

variable {D : Type} [LinearOrder D] {squared_l2 : List FloatBits → List FloatBits → D}
  {query : List FloatBits} {k : ℕ}

/-- The first `k` rows of a block. -/
theorem searchBlock_eq (block : Block dim) :
    searchBlock squared_l2 block query k =
      TopK.topk SearchResult.rank k (block.rows.map (item squared_l2 query)) := by
  have hlength : (block.rows.map (item squared_l2 query)).length = block.ids.length := by
    rw [List.length_map, Block.length_rows]
  rw [searchBlock]
  split
  · next hempty =>
    rcases hempty with rfl | hempty
    · rw [TopK.topk, List.take_zero]
    · rw [List.isEmpty_iff] at hempty
      rw [hempty, List.length_nil, List.length_eq_zero_iff] at hlength
      rw [hlength]
      simp [TopK.topk, TopK.sortBy]
  · next hne =>
    rw [not_or, List.isEmpty_iff] at hne
    have hpositive : 0 < min k block.ids.length := by
      have := List.length_pos_iff.mpr hne.2
      omega
    rw [sortBy_scanRows squared_l2 query hpositive, ← hlength, TopK.topk_min_length]

/-- A search merges the first `k` rows of two parts of the inserted rows. -/
theorem searchOne_eq (squared_l2 : List FloatBits → List FloatBits → D) (index : DeltaFlatIndex dim)
    (query : List FloatBits) (k : ℕ) :
    ∃ active sealed, sealed ++ active = index.rows.map (item squared_l2 query) ∧
      (index.sealed = Block.empty dim → sealed = []) ∧
      index.searchOne squared_l2 query k =
        mergeTopk (TopK.topk SearchResult.rank k active) (TopK.topk SearchResult.rank k sealed) k := by
  refine ⟨_, _, List.map_append.symm, fun hnone => ?_, ?_⟩
  · rw [hnone]
    rfl
  · rw [searchOne, searchBlock_eq, searchBlock_eq]

/-- The cut to `k` entries reaches the nearest entries in whatever parts it is made. -/
theorem mergeTopk_parts {entries active sealed : List (SearchResult D)}
    (hparts : sealed ++ active = entries)
    (hreach : ∀ entry ∈ TopK.topk SearchResult.rank k (merged (bestById entries)),
      entry ∈ TopK.topk SearchResult.rank k entries) :
    mergeTopk (TopK.topk SearchResult.rank k active) (TopK.topk SearchResult.rank k sealed) k =
      TopK.topk SearchResult.rank k (merged (bestById entries)) := by
  have hbefore : ∀ part : List (SearchResult D), part.Sublist entries → ∀ entry ∈ part,
      entry ∈ TopK.topk SearchResult.rank k entries → entry ∈ TopK.topk SearchResult.rank k part := by
    intro part hpart entry hentry hcut
    rw [TopK.mem_topk_iff (separates_rank _)] at hcut ⊢
    exact ⟨hentry, lt_of_le_of_lt hpart.countP_le hcut.2⟩
  rw [mergeTopk_eq]
  refine (bestOf_merged entries).topk_eq SearchResult.rank_injective (bestOf_merged _)
    (fun entry hentry => ?_) fun entry hentry => ?_
  · rw [← hparts]
    rcases List.mem_append.mp hentry with hentry | hentry
    · exact List.mem_append_right _ (TopK.mem_of_mem_topk hentry)
    · exact List.mem_append_left _ (TopK.mem_of_mem_topk hentry)
  · have hcut := hreach entry hentry
    have hmem := TopK.mem_of_mem_topk hcut
    rw [← hparts] at hmem
    rcases List.mem_append.mp hmem with hsealed | hactive
    · refine List.mem_append_right _ (hbefore sealed ?_ entry hsealed hcut)
      exact hparts ▸ List.sublist_append_left _ _
    · refine List.mem_append_left _ (hbefore active ?_ entry hactive hcut)
      exact hparts ▸ List.sublist_append_right _ _

/-- The cut of all entries, by its rows and by its first ones. -/
theorem cutReachesNearest_iff (entries : List (SearchResult D)) :
    CutReachesNearest entries k ↔
      ∀ entry ∈ TopK.topk SearchResult.rank k (merged (bestById entries)),
        entry ∈ TopK.topk SearchResult.rank k entries := by
  have hbest : TopK.BestOf SearchResult.id SearchResult.rank entries
      (TopK.bestPerKey SearchResult.id SearchResult.rank entries) :=
    TopK.bestOf_bestPerKey SearchResult.rank_injective entries
  rw [CutReachesNearest, (bestOf_merged entries).topk_congr SearchResult.rank_injective hbest
    fun entry => Iff.rfl]
  refine forall₂_congr fun entry hentry => ?_
  rw [TopK.mem_topk_iff (separates_rank _)]
  exact (and_iff_right ((bestOf_merged entries).mem (TopK.mem_of_mem_topk hentry))).symm

/-- Sealing does not change a search, and the search returns as many ids as it should, exactly when
the cut to `k` rows reaches the nearest row of each of the `k` nearest ids. -/
theorem searchOne_sealing_iff (squared_l2 : List FloatBits → List FloatBits → D)
    (ops : List (DeltaFlatOp dim)) (query : List FloatBits) (k : ℕ) :
    ((run ops).searchOne squared_l2 query k =
        (run (ops.filter DeltaFlatOp.isInsert)).searchOne squared_l2 query k ∧
      ((run ops).searchOne squared_l2 query k).length = min k (insertedIds ops).length) ↔
      CutReachesNearest ((insertedRows ops).map (item squared_l2 query)) k := by
  obtain ⟨active, sealed, hparts, -, hsearch⟩ :=
    searchOne_eq squared_l2 (run ops) query k
  obtain ⟨active', sealed', hparts', hnone, hsearch'⟩ := searchOne_eq squared_l2
    (run (ops.filter DeltaFlatOp.isInsert)) query k
  rw [rows_run] at hparts
  rw [rows_run, insertedRows_inserts] at hparts'
  have hplain : (run (ops.filter DeltaFlatOp.isInsert)).searchOne squared_l2 query k =
      TopK.topk SearchResult.rank k (merged (bestById (TopK.topk SearchResult.rank k
        ((insertedRows ops).map (item squared_l2 query))))) := by
    rw [hsearch', ← hparts', hnone (sealed_run_inserts ops), mergeTopk_eq]
    simp [TopK.topk, TopK.sortBy]
  have hcount : (merged (bestById ((insertedRows ops).map (item squared_l2 query)))).length =
      (insertedIds ops).length := by
    rw [(bestOf_merged _).length_eq, List.map_map]
    rfl
  rw [cutReachesNearest_iff]
  constructor
  · rintro ⟨hsame, hlength⟩
    rw [hsame, hplain, TopK.length_topk, ← hcount] at hlength
    exact ((bestOf_merged _).reaches_iff SearchResult.rank_injective (bestOf_merged _)).mpr (by omega)
  · intro hreach
    have hwhole := mergeTopk_parts hparts hreach
    rw [hsearch, hwhole]
    refine ⟨?_, by rw [TopK.length_topk, hcount]⟩
    rw [hsearch', mergeTopk_parts hparts' hreach]

/-- An id with two near rows. Together they fill the cut, and another id is missed; once the first row
is sealed, it is found. -/
theorem searchOne_sealing_changes :
    let distance : List FloatBits → List FloatBits → ℤ := fun query vector =>
      (List.zipWith (fun a b => ((a.toNat : ℤ) - b.toNat) ^ 2) query vector).sum
    let ops : List (DeltaFlatOp 1) :=
      [.insert 1 #v[0], .compactActiveToSealed 1, .insert 1 #v[1], .insert 2 #v[2]]
    ¬((run ops).searchOne distance [0] 2 =
        (run (ops.filter DeltaFlatOp.isInsert)).searchOne distance [0] 2 ∧
      ((run ops).searchOne distance [0] 2).length = min 2 (insertedIds ops).length) := by
  decide

end Search

end DeltaFlatIndex

end Storage
