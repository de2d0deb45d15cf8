import AgentAware.Graph.GraphBuilder

/-!
# Graphs from projections

The `approx-rp`, `lsh-rp` and `lsh-vamana` builders. The candidates of a node are its neighbours in
several random orders or its companions in several hash tables, and some pseudo-random ids; from
these the builder picks the node's list. A hash table keeps the ids of a bucket in increasing order.

## Main definitions

- `addProjectionCandidates`, `addLshCandidates`, `addDeterministicSamples` — the candidates
- `deduplicateAndLimit` — what is kept of them
- `buildApproxProjectionGraph`, `buildLshProjectionGraph` — the builders
-/

namespace Graph

variable {F : Type} (ops : FloatOps F) (random : Random) (base : VectorSet)
  (config : DiskGraphBuildConfig)

/-- `orders[p]`: the ids by their score on a plane. -/
def projectionOrder (p : ℕ) : List NodeId :=
  let plane := random.projectionPlane config.random_seed p
  let items : List (NeighborCandidate F) := (List.range base.size).map fun i =>
    ⟨nodeId i, ops.score (base.row i) plane⟩
  (sortNeighbors ops items).map NeighborCandidate.id

def addCandidate (self : NodeId) (count : ℕ) (candidate : NodeId) : List NodeId :=
  if candidate ≠ self ∧ candidate.toNat < count then [candidate] else []

/-- A window around the position of the node, for every order. -/
def addProjectionCandidates (self : NodeId) : List NodeId :=
  (List.range config.approx_projections).flatMap fun p =>
    let order := projectionOrder ops random base config p
    let rank := order.idxOf self
    let first := rank - config.approx_window
    let last := min base.size ((rank + config.approx_window + 1) % 2 ^ 64)
    ((order.drop first).take (last - first)).flatMap (addCandidate self base.size)

def addDeterministicSamples (self : NodeId) (count : ℕ) : List NodeId :=
  if count ≤ 1 then []
  else
    let seed := mixU32 (config.random_seed ^^^ self)
    let samples := (List.range config.approx_random_samples).flatMap fun i =>
      addCandidate self count (nodeId ((mixU32 (seed + nodeId (i * 0x9e3779b9))).toNat % count))
    let ring := min config.approx_window (count - 1)
    samples ++ (List.range ring).flatMap fun i =>
      let offset := i + 1
      addCandidate self count (nodeId ((self.toNat + offset) % count)) ++
        addCandidate self count (nodeId ((self.toNat + count - offset) % count))

def deduplicateAndLimit (candidates : List NodeId) (self : NodeId) (count : ℕ)
    (deleted : List Bool) : List NodeId :=
  let valid := sortUnique (candidates.filter fun id =>
    !(id == self || count ≤ id.toNat || deletedAt deleted id.toNat))
  if config.approx_candidate_limit ≠ 0 ∧ config.approx_candidate_limit < valid.length then
    (random.shuffle (mixU32 (config.random_seed ^^^ self ^^^ 0xa77c0de)) valid).take
      config.approx_candidate_limit
  else valid

/-- The code draws the planes into one array of `lsh_tables * lsh_bits * dim` numbers; here the plane of a
table and a bit is a parameter, and neither the array nor its size is modelled. -/
def computeLshSignature (table : ℕ) (row : List FloatBits) : UInt32 :=
  (List.range config.lsh_bits).foldl (fun signature bit =>
    if ops.nonneg (ops.score row
        (random.lshPlane (config.random_seed ^^^ 0x51f15eed) table bit)) then
      signature ||| ((1 : UInt32) <<< nodeId bit)
    else signature) 0

/-- The ids between two offsets of a table. -/
def lshBucket (table : ℕ) (signature : UInt32) : List NodeId :=
  ((List.range base.size).filter fun i =>
    computeLshSignature ops random config table (base.row i) == signature).map nodeId

def addLshBucketCandidates (self : NodeId) (table : ℕ) (signature : UInt32) : List NodeId :=
  if 2 ^ config.lsh_bits ≤ signature.toNat then []
  else
    let bucket := lshBucket ops random base config table signature
    if bucket.length ≤ config.lsh_bucket_limit then bucket
    else
      let seed := mixU32 (self ^^^ signature ^^^ 0x15a4e35)
      (List.range config.lsh_bucket_limit).map fun i =>
        bucket.getD ((mixU32 (seed + nodeId i)).toNat % bucket.length) 0

def addLshCandidates (self : NodeId) : List NodeId :=
  let mask : UInt32 := if config.lsh_bits = 32 then 0xffffffff
    else ((1 : UInt32) <<< nodeId config.lsh_bits) - 1
  (List.range config.lsh_tables).flatMap fun table =>
    let signature := computeLshSignature ops random config table (base.row self.toNat) &&& mask
    addLshBucketCandidates ops random base config self table signature ++
      if config.lsh_probe_radius = 1 then
        (List.range config.lsh_bits).flatMap fun bit =>
          addLshBucketCandidates ops random base config self table
            (signature ^^^ ((1 : UInt32) <<< nodeId bit))
      else []

/-- `max(1, prune_passes)` passes, when reverse edges are asked for. -/
def reversePasses (pass : Adjacency → Adjacency) (graph : Adjacency) : Adjacency :=
  if config.reverse_edge_patch then pass^[max 1 config.prune_passes] graph else graph

def buildApproxProjectionGraph (deleted : List Bool) : Adjacency :=
  let graph := (List.range base.size).map fun i =>
    if deletedAt deleted i then []
    else
      let self := nodeId i
      let candidates := addProjectionCandidates ops random base config self ++
        addDeterministicSamples config self base.size
      robustPruneNeighbors ops base self
        (deduplicateAndLimit random config candidates self base.size deleted) config.degree
        config.robust_prune_alpha deleted
  reversePasses config (addReverseEdgesBatch ops base config.degree deleted) graph

def buildLshProjectionGraph (deleted : List Bool) : Adjacency :=
  let vamana := config.build_policy = "lsh-vamana"
  let graph := (List.range base.size).map fun i =>
    if deletedAt deleted i then []
    else
      let self := nodeId i
      let candidates := deduplicateAndLimit random config
        (addLshCandidates ops random base config self ++
          addDeterministicSamples config self base.size) self base.size deleted
      if vamana then
        robustPruneNeighbors ops base self candidates config.degree config.robust_prune_alpha
          deleted
      else nearestNeighborsFromCandidates ops base self candidates config.degree deleted
  reversePasses config (fun graph =>
    if vamana then
      pruneOverfullNodes ops base config.degree deleted config.robust_prune_alpha
        (addReverseEdgesVamana ops base config.degree deleted config.robust_prune_alpha graph)
    else addReverseEdgesBatch ops base config.degree deleted graph) graph

end Graph
