import AgentAware.Core.Types
import AgentAware.Lib.Checked
import AgentAware.Lib.Versions
import Mathlib.Data.List.Dedup
import Mathlib.Data.List.Sort

/-!
# Building a graph

The builders that collect candidates for every node, prune them and add reverse edges, and the patch
that takes deleted nodes out of a graph. A graph is its adjacency lists. Loops that change the list
of one node at a time, and read no other, are a map over the nodes.

Distances and scores are floats: their operations are a parameter about which nothing is assumed, so
a comparison may be that of a NaN. So are the random planes; a shuffle is any permutation.

## Main definitions

- `FloatOps`, `Random` — the arithmetic and the random engines
- `exactNeighbors`, `nearestNeighborsFromCandidates`, `robustPruneNeighbors` — the neighbours of a
  node
- `addReverseEdgesBatch`, `addReverseEdgesVamana`, `pruneOverfullNodes` — reverse edges
- `applyFreshvamanaDeletePatch` — deleted nodes are bypassed
- `buildExactGraph`, `buildApproxProjectionGraph`, `buildLshProjectionGraph` — the builders
-/

namespace Graph

/-- The bit pattern of a `double`. -/
abbrev DoubleBits := UInt64

/-- What the builders compute with floats. `F` has the values of `float` and those of `double`, among
which every `float` keeps its value. -/
structure FloatOps (F : Type) where
  squared_l2 : List FloatBits → List FloatBits → F
  l2_distance_sq_simd : List FloatBits → List FloatBits → F
  lt : F → F → Bool
  eq : F → F → Bool
  /-- The product of a row and a plane. -/
  score : List FloatBits → List FloatBits → F
  /-- `score >= 0.0f`. -/
  nonneg : F → Bool
  /-- The value of a `double`. -/
  double : DoubleBits → F
  /-- The product of two `double`s. -/
  mul : F → F → F
  /-- `alpha < 1.0`. -/
  belowOne : DoubleBits → Bool
  /-- The mean of some rows. -/
  centroid : List (List FloatBits) → List FloatBits
  /-- `std::numeric_limits<float>::max()`. -/
  max : F

/-- `alpha_sq * static_cast<double>(between) > static_cast<double>(distance)`, where `alpha_sq` is
`alpha * alpha`. -/
def FloatOps.keeps {F : Type} (ops : FloatOps F) (alpha : DoubleBits) (between distance : F) : Bool :=
  let alpha_sq := ops.mul (ops.double alpha) (ops.double alpha)
  ops.lt distance (ops.mul alpha_sq between)

/-- What the random engines yield for a seed: planes of signs, and shuffles. -/
structure Random where
  projectionPlane : UInt32 → ℕ → List FloatBits
  lshPlane : UInt32 → ℕ → ℕ → List FloatBits
  shuffle : UInt32 → List NodeId → List NodeId
  shuffle_perm : ∀ seed ids, (shuffle seed ids).Perm ids

structure DiskGraphBuildConfig where
  degree : ℕ := 32
  build_policy : String := "exact"
  random_seed : UInt32 := 42
  approx_projections : ℕ := 8
  approx_window : ℕ := 24
  approx_random_samples : ℕ := 32
  approx_candidate_limit : ℕ := 256
  reverse_edge_patch : Bool := true
  prune_passes : ℕ := 1
  lsh_tables : ℕ := 8
  lsh_bits : ℕ := 14
  lsh_probe_radius : ℕ := 0
  lsh_bucket_limit : ℕ := 64
  /-- 1.2. -/
  robust_prune_alpha : DoubleBits := 0x3ff3333333333333
  deleted_ids : List NodeId := []

structure NeighborCandidate (F : Type) where
  id : NodeId
  distance : F

/-- The adjacency lists. -/
abbrev Adjacency := List (List NodeId)

def neighborsOf (graph : Adjacency) (node : ℕ) : List NodeId := graph.getD node []

/-- `static_cast<std::uint32_t>`. -/
def nodeId (index : ℕ) : NodeId := UInt32.ofNat index

def mixU32 (value : UInt32) : UInt32 :=
  let value := value ^^^ (value >>> 16)
  let value := value * 0x7feb352d
  let value := value ^^^ (value >>> 15)
  let value := value * 0x846ca68b
  value ^^^ (value >>> 16)

def deletedMask (count : ℕ) (deleted_ids : List NodeId) : List Bool :=
  (List.range count).map fun id => deleted_ids.any fun deleted => deleted.toNat == id

def deletedAt (deleted : List Bool) (id : ℕ) : Bool := deleted.getD id false

/-- `std::sort` and `std::unique`. -/
def sortUnique (ids : List NodeId) : List NodeId := (ids.insertionSort fun a b => a ≤ b).dedup

variable {F : Type}

/-- `BetterNeighborFirst`, the same code as `WorseNeighborFirst`. -/
def betterNeighbor (ops : FloatOps F) (lhs rhs : NeighborCandidate F) : Bool :=
  if ops.eq lhs.distance rhs.distance then lhs.id < rhs.id else ops.lt lhs.distance rhs.distance

def sortNeighbors (ops : FloatOps F) (pool : List (NeighborCandidate F)) :
    List (NeighborCandidate F) :=
  pool.insertionSort fun a b => betterNeighbor ops b a = false

section Neighbors

variable (ops : FloatOps F) (base : VectorSet)

/-- The top of a heap in the order of `WorseNeighborFirst`. -/
def heapTop (heap : List (NeighborCandidate F)) : Option (NeighborCandidate F) :=
  heap.foldl (fun top candidate =>
    match top with
    | none => some candidate
    | some worst => if betterNeighbor ops worst candidate then some candidate else some worst) none

/-- The body of the loop of `exact_neighbors`. -/
def offerNeighbor (effective_degree : ℕ) (heap : List (NeighborCandidate F))
    (item : NeighborCandidate F) : List (NeighborCandidate F) :=
  if heap.length < effective_degree then item :: heap
  else
    match heapTop ops heap with
    | none => heap
    | some worst =>
      if ops.lt item.distance worst.distance ||
          (ops.eq item.distance worst.distance && item.id < worst.id) then
        item :: heap.eraseP fun candidate => candidate.id == worst.id
      else heap

def exactNeighbors (node_id degree : ℕ) (deleted : List Bool) : List NodeId :=
  let effective_degree := if base.size = 0 then 0 else min degree (base.size - 1)
  if deleted.length ≤ node_id || deletedAt deleted node_id then []
  else
    let others := (List.range base.size).filter fun other =>
      !(other == node_id || deletedAt deleted other)
    let heap := others.foldl (fun heap other => offerNeighbor ops effective_degree heap
      ⟨nodeId other, ops.squared_l2 (base.row node_id) (base.row other)⟩) []
    (sortNeighbors ops heap).map NeighborCandidate.id

def buildExactGraph (degree : ℕ) (deleted : List Bool) : Adjacency :=
  (List.range base.size).map fun i => exactNeighbors ops base i degree deleted

/-- The candidates of a node with their distances. -/
def candidatePool (self : NodeId) (candidates : List NodeId) (deleted : List Bool) :
    List (NeighborCandidate F) :=
  (candidates.filter fun candidate =>
    !(candidate == self || base.size ≤ candidate.toNat || deleted.length ≤ candidate.toNat ||
      deletedAt deleted candidate.toNat)).map
    fun candidate => ⟨candidate, ops.squared_l2 (base.row self.toNat) (base.row candidate.toNat)⟩

/-- `nth_element`, `resize` and `sort` keep the first of the sorted pool. -/
def nearestNeighborsFromCandidates (self : NodeId) (candidates : List NodeId) (degree : ℕ)
    (deleted : List Bool) : List NodeId :=
  let effective_degree := min degree (base.size - 1)
  if effective_degree == 0 || deleted.length ≤ self.toNat || deletedAt deleted self.toNat then []
  else
    let pool := candidatePool ops base self candidates deleted
    ((sortNeighbors ops pool).take effective_degree).map NeighborCandidate.id

/-- Pick the first of the pool, drop what it replaces, and so on up to a limit. -/
def pruneLoop (keeps : NeighborCandidate F → NeighborCandidate F → Bool) :
    ℕ → List (NeighborCandidate F) → List NodeId
  | 0, _ => []
  | _ + 1, [] => []
  | limit + 1, picked :: pool => picked.id :: pruneLoop keeps limit (pool.filter (keeps picked))

def robustPruneNeighbors (self : NodeId) (candidates : List NodeId) (degree : ℕ)
    (alpha : DoubleBits) (deleted : List Bool) : List NodeId :=
  let effective_degree := min degree (base.size - 1)
  if effective_degree == 0 || deleted.length ≤ self.toNat || deletedAt deleted self.toNat then []
  else
    let pool := sortNeighbors ops (candidatePool ops base self candidates deleted)
    pruneLoop (fun picked candidate => ops.keeps alpha
      (ops.squared_l2 (base.row picked.id.toNat) (base.row candidate.id.toNat)) candidate.distance)
      effective_degree pool

def uniqueValidCandidates (ids : List NodeId) (self : NodeId) (count : ℕ) (deleted : List Bool) :
    List NodeId :=
  sortUnique (ids.filter fun id => !(id == self) && id.toNat < count &&
    id.toNat < deleted.length && !deletedAt deleted id.toNat)

end Neighbors

section ReverseEdges

variable (ops : FloatOps F) (base : VectorSet) (degree : ℕ) (deleted : List Bool)

/-- `reverse[node]`: the sources of the edges to a node. -/
def reverseSources (graph : Adjacency) (node : ℕ) : List NodeId :=
  (List.range graph.length).flatMap fun i =>
    if deletedAt deleted i then []
    else
      ((neighborsOf graph i).filter fun neighbor => neighbor.toNat == node &&
        neighbor.toNat < deleted.length && !deletedAt deleted neighbor.toNat).map fun _ => nodeId i

def addReverseEdgesBatch (graph : Adjacency) : Adjacency :=
  (List.range graph.length).map fun i =>
    if deletedAt deleted i then []
    else
      let reverse := reverseSources deleted graph i
      if reverse.isEmpty then neighborsOf graph i
      else
        nearestNeighborsFromCandidates ops base (nodeId i)
          (sortUnique (neighborsOf graph i ++ reverse)) degree deleted

/-- The edges that `add_reverse_edges_vamana` turns round. -/
def reversibleEdges (graph : Adjacency) : List (NodeId × NodeId) :=
  (List.range graph.length).flatMap fun source =>
    if deleted.length ≤ source || deletedAt deleted source then []
    else
      ((neighborsOf graph source).filter fun target => target.toNat < graph.length &&
        target.toNat < deleted.length && !deletedAt deleted target.toNat &&
        !(target.toNat == source)).map fun target => (nodeId source, target)

/-- The body of the loop of `add_reverse_edges_vamana`. -/
def addReverseEdge (alpha : DoubleBits) (graph : Adjacency) (edge : NodeId × NodeId) :
    Adjacency :=
  let (source, target) := edge
  let neighbors := neighborsOf graph target.toNat
  if neighbors.contains source then graph
  else if neighbors.length < degree then graph.set target.toNat (neighbors ++ [source])
  else
    let candidates := uniqueValidCandidates (neighbors ++ [source]) target graph.length deleted
    graph.set target.toNat (robustPruneNeighbors ops base target candidates degree alpha deleted)

def addReverseEdgesVamana (alpha : DoubleBits) (graph : Adjacency) : Adjacency :=
  (reversibleEdges deleted graph).foldl (addReverseEdge ops base degree deleted alpha) graph

def pruneOverfullNodes (alpha : DoubleBits) (graph : Adjacency) : Adjacency :=
  (List.range graph.length).map fun node =>
    let neighbors := neighborsOf graph node
    if deleted.length ≤ node || deletedAt deleted node || neighbors.length ≤ degree then neighbors
    else
      robustPruneNeighbors ops base (nodeId node)
        (uniqueValidCandidates neighbors (nodeId node) graph.length deleted) degree alpha deleted

end ReverseEdges

section DeletePatch

variable (ops : FloatOps F) (base : VectorSet) (degree : ℕ) (deleted : List Bool)

/-- `incoming[target]`, once for each edge. -/
def incoming (graph : Adjacency) (target : ℕ) : List NodeId :=
  (List.range graph.length).flatMap fun source =>
    if deletedAt deleted source then []
    else ((neighborsOf graph source).filter fun neighbor => neighbor.toNat == target).map
      fun _ => nodeId source

/-- The live in-neighbours of a deleted node. -/
def inNeighbors (graph : Adjacency) (deleted_id : ℕ) : List NodeId :=
  (incoming deleted graph deleted_id).filter fun id =>
    !(deleted.length ≤ id.toNat || deletedAt deleted id.toNat)

/-- The live out-neighbours of a deleted node. -/
def outNeighbors (graph : Adjacency) (deleted_id : ℕ) : List NodeId :=
  (neighborsOf graph deleted_id).filter fun neighbor =>
    neighbor.toNat < deleted.length && !deletedAt deleted neighbor.toNat

def deletedNodes : List ℕ := (List.range deleted.length).filter fun id => deletedAt deleted id

/-- `patch_candidates[source]`: for each edge to a deleted node, that node's neighbours. -/
def patchCandidates (graph : Adjacency) (source : NodeId) : List NodeId :=
  (deletedNodes deleted).flatMap fun deleted_id =>
    ((inNeighbors deleted graph deleted_id).filter fun id => id == source).flatMap fun _ =>
      outNeighbors deleted graph deleted_id ++ inNeighbors deleted graph deleted_id

/-- The live nodes with an edge to a deleted node, in the order they are found. -/
def affectedNodes (graph : Adjacency) : List NodeId :=
  Versions.firsts id (((deletedNodes deleted).flatMap (inNeighbors deleted graph)).filter
    fun source => source.toNat < graph.length)

/-- The new list of an affected node. -/
def patchedNeighbors (alpha : DoubleBits) (graph : Adjacency) (source : NodeId) : List NodeId :=
  let kept := (neighborsOf graph source.toNat).filter fun neighbor =>
    neighbor.toNat < deleted.length && !deletedAt deleted neighbor.toNat
  robustPruneNeighbors ops base source
    (sortUnique (kept ++ patchCandidates deleted graph source)) degree alpha deleted

def applyFreshvamanaDeletePatch (alpha : DoubleBits) (graph : Adjacency) : Adjacency :=
  if deleted.isEmpty then graph
  else
    -- The list of an affected node is read before it is replaced, and no other list is.
    let patched := (affectedNodes deleted graph).foldl
      (fun next source => next.set source.toNat
        (patchedNeighbors ops base degree deleted alpha graph source)) graph
    (deletedNodes deleted).foldl (fun next deleted_id => next.set deleted_id []) patched

end DeletePatch

end Graph
