import AgentAware.Graph.GraphBuilder

/-!
# The Vamana builder

Nodes are inserted one after the other in a random order: a search of the graph built so far finds
candidates, `robust_prune` picks the neighbours among them, and reverse edges are added one by one.
Deleted nodes take no part.

## Main definitions

- `VamanaBuilder.searchForConstruction`, `.robustPrune`, `.addReverseEdge`, `.insert` — one node
- `VamanaBuilder.build` — the whole graph
-/

namespace Graph

structure VamanaBuildConfig where
  max_degree : ℕ := 32
  search_width : ℕ := 200
  /-- 1.2. -/
  alpha : DoubleBits := 0x3ff3333333333333
  seed : UInt32 := 42
  add_reverse_edges : Bool := true
  deleted_ids : List NodeId := []

/-- A search of the graph under construction. -/
structure ConstructionSearch (F : Type) where
  visited : List NodeId := []
  frontier : List (NeighborCandidate F) := []
  explored : List (NeighborCandidate F) := []

namespace VamanaBuilder

variable {F : Type} (ops : FloatOps F) (base : VectorSet) (config : VamanaBuildConfig)

/-- Empty when nothing is deleted. -/
def deletedMask (count : ℕ) : List Bool :=
  if config.deleted_ids.isEmpty then [] else Graph.deletedMask count config.deleted_ids

def isDeleted (deleted : List Bool) (id : ℕ) : Bool :=
  !deleted.isEmpty && (deleted.length ≤ id || deletedAt deleted id)

/-- The first occurrences of the ids that are neither excluded nor deleted. -/
def uniqueIds (ids : List NodeId) (excluded : NodeId) (deleted : List Bool) : List NodeId :=
  Versions.firsts id (ids.filter fun id => !(id == excluded || isDeleted deleted id.toNat))

/-- `row` of ids; an id beyond the base throws. -/
def checkRows (ids : List NodeId) : Except String Unit :=
  throwIf (ids.any fun id => base.size ≤ id.toNat) "VectorSet row index out of range"

def findMedoid : Except String NodeId := do
  throwIf (base.size = 0) "Cannot compute medoid for empty vectors"
  let deleted := deletedMask config base.size
  let valid := (List.range base.size).filter fun i => !isDeleted deleted i
  throwIf (valid = []) "Cannot compute Vamana medoid: all nodes are deleted"
  let centroid := ops.centroid (valid.map base.row)
  let best := valid.foldl (fun (best : NodeId × F) i =>
    let distance := ops.l2_distance_sq_simd (base.row i) centroid
    if ops.lt distance best.2 || (ops.eq distance best.2 && nodeId i < best.1) then
      (nodeId i, distance)
    else best) (0xffffffff, ops.max)
  throwIf (best.1 = 0xffffffff) "Cannot compute Vamana medoid: no valid nodes"
  return best.1

/-- The top of the frontier: its closest candidate. -/
def frontierTop (frontier : List (NeighborCandidate F)) : Option (NeighborCandidate F) :=
  frontier.foldl (fun top candidate =>
    match top with
    | none => some candidate
    | some best => if betterNeighbor ops candidate best then some candidate else some best) none

/-- The lambda `push` of `search_for_construction`. -/
def push (graph : Adjacency) (deleted : List Bool) (query : List FloatBits) (excluded_id : NodeId)
    (search : ConstructionSearch F) (id : NodeId) : ConstructionSearch F :=
  if graph.length ≤ id.toNat || id == excluded_id || isDeleted deleted id.toNat ||
      search.visited.contains id then search
  else
    { search with
      visited := id :: search.visited
      frontier := ⟨id, ops.l2_distance_sq_simd query (base.row id.toNat)⟩ :: search.frontier }

/-- Every round explores one candidate, so `search_width` bounds the rounds. -/
def explore (graph : Adjacency) (deleted : List Bool) (query : List FloatBits)
    (excluded_id : NodeId) : ℕ → ConstructionSearch F → ConstructionSearch F
  | 0, search => search
  | rounds + 1, search =>
    match frontierTop ops search.frontier with
    | none => search
    | some current =>
      let search := { search with
        frontier := search.frontier.eraseP fun candidate => candidate.id == current.id
        explored := search.explored ++ [current] }
      explore graph deleted query excluded_id rounds
        ((neighborsOf graph current.id.toNat).foldl
          (push ops base graph deleted query excluded_id) search)

def searchForConstruction (graph : Adjacency) (query : List FloatBits)
    (entry_id excluded_id : NodeId) : Except String (List NodeId) := do
  throwIf (graph.length ≠ base.size) "Vamana construction graph size mismatch"
  let deleted := deletedMask config base.size
  let entry_id ← if graph.length ≤ entry_id.toNat || isDeleted deleted entry_id.toNat then
      findMedoid ops base config
    else pure entry_id
  let pushed := push ops base graph deleted query excluded_id {} entry_id
  -- The first node that can be pushed, when the entry cannot.
  let started := (List.range graph.length).foldl (fun search i =>
    if search.frontier.isEmpty then push ops base graph deleted query excluded_id search (nodeId i)
    else search) pushed
  let finished := explore ops base graph deleted query excluded_id config.search_width started
  return (sortNeighbors ops finished.explored).map NeighborCandidate.id

def robustPrune (node_id : NodeId) (candidates : List NodeId) : Except String (List NodeId) := do
  throwIf (base.size ≤ node_id.toNat) "Vamana robust_prune node id out of range"
  let deleted := deletedMask config base.size
  let effective_degree := min config.max_degree (base.size - 1)
  if isDeleted deleted node_id.toNat || effective_degree == 0 then
    return []
  else
    let unique := uniqueIds candidates node_id deleted
    checkRows base unique
    let pool := sortNeighbors ops (unique.map fun id =>
      ⟨id, ops.l2_distance_sq_simd (base.row node_id.toNat) (base.row id.toNat)⟩)
    return pruneLoop (fun picked candidate => ops.keeps config.alpha
      (ops.l2_distance_sq_simd (base.row picked.id.toNat) (base.row candidate.id.toNat))
      candidate.distance) effective_degree pool

def addReverseEdge (source : NodeId) (graph : Adjacency) (target : NodeId) :
    Except String Adjacency :=
  let deleted := deletedMask config base.size
  let neighbors := neighborsOf graph target.toNat
  if graph.length ≤ target.toNat || graph.length ≤ source.toNat || source == target then
    .ok graph
  else if isDeleted deleted source.toNat || isDeleted deleted target.toNat ||
      neighbors.contains source then
    .ok graph
  else if neighbors.length < config.max_degree then
    .ok (graph.set target.toNat (neighbors ++ [source]))
  else do
    let pruned ← robustPrune ops base config target (neighbors ++ [source])
    return graph.set target.toNat pruned

def insert (graph : Adjacency) (node_id entry_id : NodeId) : Except String Adjacency := do
  throwIf (graph.length ≠ base.size) "Vamana insert graph size mismatch"
  throwIf (graph.length ≤ node_id.toNat) "Vamana insert node id out of range"
  let deleted := deletedMask config base.size
  if isDeleted deleted node_id.toNat then
    return graph.set node_id.toNat []
  else
    let found ← searchForConstruction ops base config graph (base.row node_id.toNat) entry_id
      node_id
    let candidates := uniqueIds (found ++ neighborsOf graph node_id.toNat) node_id deleted
    let neighbors ← robustPrune ops base config node_id candidates
    let graph := graph.set node_id.toNat neighbors
    if config.add_reverse_edges then
      neighbors.foldlM (addReverseEdge ops base config node_id) graph
    else return graph

/-- A ring and pseudo-random ids. -/
def initialNeighbors (deleted : List Bool) (i : ℕ) : List NodeId :=
  let ring_degree := min config.max_degree (base.size - 1)
  let random_degree := max ring_degree (min config.search_width (base.size - 1))
  let ring := (List.range ring_degree).flatMap fun r =>
    let offset := r + 1
    [nodeId ((i + offset) % base.size), nodeId ((i + base.size - offset) % base.size)]
  let seed := mixU32 (config.seed ^^^ nodeId i)
  let samples := (List.range random_degree).map fun r =>
    nodeId ((mixU32 (seed + nodeId (r * 0x9e3779b9))).toNat % base.size)
  (uniqueIds (ring ++ samples) (nodeId i) deleted).take config.max_degree

def initialGraph (deleted : List Bool) : Adjacency :=
  (List.range base.size).map fun i =>
    if base.size ≤ 1 || isDeleted deleted i then [] else initialNeighbors base config deleted i

def buildOrder (random : Random) (count : ℕ) : List NodeId :=
  random.shuffle (config.seed ^^^ 0x9e3779b9) ((List.range count).map nodeId)

/-- The body of the loop of `build`. -/
def buildNode (medoid : NodeId) (graph : Adjacency) (node_id : NodeId) : Except String Adjacency :=
  if isDeleted (deletedMask config base.size) node_id.toNat then
    .ok (graph.set node_id.toNat [])
  else insert ops base config graph node_id medoid

/-- The constructor's checks, then `build`. -/
def build (random : Random) : Except String Adjacency := do
  throwIf (config.max_degree = 0) "Vamana max_degree must be positive"
  throwIf (config.search_width = 0) "Vamana search_width must be positive"
  throwIf (ops.belowOne config.alpha) "Vamana alpha must be at least 1.0"
  throwIf (base.size = 0) "VamanaBuilder requires non-empty vectors"
  throwIf (2 ^ 32 - 1 < base.size) "VamanaBuilder supports at most uint32_t ids"
  let medoid ← findMedoid ops base config
  (buildOrder config random base.size).foldlM (buildNode ops base config medoid)
    (initialGraph base config (deletedMask config base.size))

end VamanaBuilder

end Graph
