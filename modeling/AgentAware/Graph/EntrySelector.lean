import AgentAware.Core.PQDistances
import AgentAware.Lib.Returns

/-!
# Entry points of a search

A search starts from several nodes: spread evenly over the ids, or, in the hybrid strategy, a medoid of
the base, the nodes with the most incoming edges, medoids of clusters, and evenly spaced ids until there
are enough. Every access to an array is checked, and so is every product, difference and quotient that
an index is computed with; `Fault.outOfRange` stands for each of them. Reserving memory has no effect.

## Main definitions

- `EntryFloats` — the arithmetic of the floats, about which nothing is assumed
- `selectGlobalMedoid`, `selectHubEntries`, `selectClusterMedoids` — the sources of entries
- `selectEvenlySpacedEntries` — ids spread over the base
- `selectEntryPoints` — the entries of a strategy
-/

namespace EntrySelector

/-- The bit pattern of a `double`. -/
abbrev DoubleBits := UInt64

/-- What is computed with floats. The bit patterns of `0.0f` and `0.0` are zero. -/
structure EntryFloats where
  add : FloatBits → FloatBits → FloatBits
  sub : FloatBits → FloatBits → FloatBits
  mul : FloatBits → FloatBits → FloatBits
  lt : FloatBits → FloatBits → Bool
  eq : FloatBits → FloatBits → Bool
  /-- `1.0f / static_cast<float>(count)`. -/
  reciprocal : ℕ → FloatBits
  /-- `sum += value`, in `double`. -/
  accumulate : DoubleBits → FloatBits → DoubleBits
  /-- `static_cast<float>(sum / static_cast<double>(count))`. -/
  average : DoubleBits → ℕ → FloatBits

/-- `std::numeric_limits<float>::infinity()`. -/
def infinity : FloatBits := 0x7f800000

inductive EntryStrategy where
  | singleMedoid
  | evenlySpaced
  | hybridMedoidHubsClusters
  deriving DecidableEq

structure EntrySelectionConfig where
  strategy : EntryStrategy := .evenlySpaced
  entry_count : ℕ := 64
  hub_count : ℕ := 15
  cluster_count : ℕ := 0
  cluster_train_limit : ℕ := 100000
  cluster_iterations : ℕ := 4

section Checked

/-- A 64-bit product. -/
def mulIndex (a b : ℕ) : Except Fault ℕ :=
  if a * b < 2 ^ 64 then .ok (a * b) else .error .outOfRange

def subIndex (a b : ℕ) : Except Fault ℕ := if b ≤ a then .ok (a - b) else .error .outOfRange

def divIndex (a b : ℕ) : Except Fault ℕ := if b = 0 then .error .outOfRange else .ok (a / b)

/-- `row`. -/
def rowAt (base : VectorSet) (index : ℕ) : Except Fault (List FloatBits) := do
  throwFault (base.size ≤ index) "VectorSet row index out of range"
  let _offset ← mulIndex index base.dim
  return base.row index

/-- `values[index * dim + d]`. -/
def loadCell {α : Type} (values : List α) (dim index d : ℕ) : Except Fault α := do
  let offset ← mulIndex index dim
  load values (offset + d)

def storeCell {α : Type} (values : List α) (dim index d : ℕ) (value : α) :
    Except Fault (List α) := do
  let offset ← mulIndex index dim
  store values (offset + d) value

end Checked

/-- `index * last / (parts - 1)`: where the part with this index starts. -/
def spacedIndex (index last parts : ℕ) : Except Fault ℕ := do
  let scaled ← mulIndex index last
  let divisor ← subIndex parts 1
  divIndex scaled divisor

/-- The id of a round of `select_evenly_spaced_entries`. -/
def roundId (count actual i : ℕ) : Except Fault ℕ :=
  if actual = 1 then .ok 0
  else do
    let last ← subIndex count 1
    spacedIndex i last actual

/-- The body of the loop of `select_evenly_spaced_entries`, on the entries and the ids seen. -/
def spacedEntry (count actual : ℕ) (state : List NodeId × List NodeId) (i : ℕ) :
    Except Fault (List NodeId × List NodeId) := do
  let id ← roundId count actual i
  throwFault (2 ^ 32 - 1 < id) "Entry id exceeds uint32_t range"
  let id32 := UInt32.ofNat id
  return if id32 ∈ state.2 then state else (state.1 ++ [id32], id32 :: state.2)

def selectEvenlySpacedEntries (count requested : ℕ) : Except Fault (List NodeId) :=
  if count = 0 ∨ requested = 0 then .ok []
  else do
    let actual := min requested count
    let state ← (List.range actual).foldlM (spacedEntry count actual) ([], [])
    return state.1

/-- `append_unique`, on the entries and the ids seen. -/
def appendUnique (limit : ℕ) (state : List NodeId × List NodeId) (id : NodeId) :
    List NodeId × List NodeId :=
  if limit ≤ state.1.length then state
  else if id ∈ state.2 then state
  else (state.1 ++ [id], id :: state.2)

/-- The ids by their degree, the largest first. -/
def selectHubEntries (node_in_degrees : List UInt32) (count requested : ℕ) :
    Except Fault (List NodeId) :=
  if requested = 0 ∨ count = 0 ∨ node_in_degrees.isEmpty then .ok []
  else do
    let available := min node_in_degrees.length count
    let ids := (List.range available).map UInt32.ofNat
    let ranked ← ids.mapM fun id => do
      let degree ← load node_in_degrees id.toNat
      return (degree, id)
    let sorted := ranked.insertionSort fun a b => b.1 < a.1 ∨ (a.1 = b.1 ∧ a.2 ≤ b.2)
    return (sorted.map Prod.snd).take requested

section Medoids

variable (floats : EntryFloats) (base : VectorSet)

/-- The sum over the dimensions, as `squared_l2_to_vector` and `nearest_centroid` compute it. -/
def squaredL2ToVector (lhs rhs : List FloatBits) (dim : ℕ) : Except Fault FloatBits :=
  (List.range dim).foldlM (fun distance d => do
    let left ← load lhs d
    let right ← load rhs d
    let diff := floats.sub left right
    return floats.add distance (floats.mul diff diff)) 0

/-- A row is added to the sums of the columns. -/
def addRow (centroid : List FloatBits) (row : ℕ) : Except Fault (List FloatBits) := do
  let values ← rowAt base row
  (List.range base.dim).foldlM (fun centroid d => do
    let sum ← load centroid d
    let value ← load values d
    store centroid d (floats.add sum value)) centroid

def nearerRow (centroid : List FloatBits) (best : NodeId × FloatBits) (row : ℕ) :
    Except Fault (NodeId × FloatBits) := do
  let id := UInt32.ofNat row
  let values ← rowAt base row
  let distance ← squaredL2ToVector floats values centroid base.dim
  return if floats.lt distance best.2 || (floats.eq distance best.2 && id < best.1) then
    (id, distance) else best

def selectGlobalMedoid : Except Fault NodeId := do
  throwFault (base.size = 0) "Cannot select a medoid from an empty base set"
  let sums ← (List.range base.size).foldlM (addRow floats base) (List.replicate base.dim 0)
  let centroid := sums.map fun value => floats.mul value (floats.reciprocal base.size)
  let best ← (List.range base.size).foldlM (nearerRow floats base centroid) (0, infinity)
  return best.1

def centroidDistance (vector centroids : List FloatBits) (centroid : ℕ) : Except Fault FloatBits :=
  (List.range base.dim).foldlM (fun distance d => do
    let value ← load vector d
    let center ← loadCell centroids base.dim centroid d
    let diff := floats.sub value center
    return floats.add distance (floats.mul diff diff)) 0

def nearestCentroid (vector centroids : List FloatBits) (centroid_count : ℕ) : Except Fault ℕ := do
  let best ← (List.range centroid_count).foldlM (fun (best : ℕ × FloatBits) centroid => do
    let distance ← centroidDistance floats base vector centroids centroid
    return if floats.lt distance best.2 then (centroid, distance) else best) (0, infinity)
  return best.1

variable (sample_ids : List NodeId) (centroid_count : ℕ)

def sampleIndex (centroid : ℕ) : Except Fault ℕ :=
  if centroid_count = 1 then divIndex sample_ids.length 2
  else do
    let last ← subIndex sample_ids.length 1
    spacedIndex centroid last centroid_count

/-- A sample is copied to a centroid. -/
def seedCentroid (centroids : List FloatBits) (centroid : ℕ) : Except Fault (List FloatBits) := do
  let sample_index ← sampleIndex sample_ids centroid_count centroid
  let id ← load sample_ids sample_index
  let row ← rowAt base id.toNat
  (List.range base.dim).foldlM (fun centroids d => do
    let value ← load row d
    storeCell centroids base.dim centroid d value) centroids

/-- What an iteration collects over the samples. -/
structure ClusterSums where
  sums : List DoubleBits
  counts : List ℕ
  assignments : List ℕ

def assignSample (centroids : List FloatBits) (state : ClusterSums) (i : ℕ) :
    Except Fault ClusterSums := do
  let id ← load sample_ids i
  let row ← rowAt base id.toNat
  let centroid ← nearestCentroid floats base row centroids centroid_count
  let assignments ← store state.assignments i centroid
  let count ← load state.counts centroid
  let counts ← store state.counts centroid (count + 1)
  let sums ← (List.range base.dim).foldlM (fun sums d => do
    let sum ← loadCell sums base.dim centroid d
    let value ← load row d
    storeCell sums base.dim centroid d (floats.accumulate sum value)) state.sums
  return ⟨sums, counts, assignments⟩

def moveCentroid (state : ClusterSums) (centroids : List FloatBits) (centroid : ℕ) :
    Except Fault (List FloatBits) := do
  let count ← load state.counts centroid
  if count = 0 then return centroids
  else
    (List.range base.dim).foldlM (fun centroids d => do
      let sum ← loadCell state.sums base.dim centroid d
      storeCell centroids base.dim centroid d (floats.average sum count)) centroids

/-- An iteration, on the centroids and the assignments. -/
def trainIteration (state : List FloatBits × List ℕ) (_iter : ℕ) :
    Except Fault (List FloatBits × List ℕ) := do
  let size ← mulIndex centroid_count base.dim
  let collected ← (List.range sample_ids.length).foldlM
    (assignSample floats base sample_ids centroid_count state.1)
    ⟨List.replicate size 0, List.replicate centroid_count 0, state.2⟩
  let centroids ← (List.range centroid_count).foldlM (moveCentroid floats base collected) state.1
  return (centroids, collected.assignments)

/-- The best sample of a cluster so far. -/
structure ClusterBest where
  found : Bool := false
  best_id : NodeId := 0
  best_distance : FloatBits := infinity

def considerSample (assignments : List ℕ) (used : List NodeId) (center : List FloatBits)
    (centroid : ℕ) (best : ClusterBest) (i : ℕ) : Except Fault ClusterBest := do
  let assigned ← load assignments i
  if assigned ≠ centroid then return best
  else
    let id ← load sample_ids i
    if id ∈ used then return best
    else
      let row ← rowAt base id.toNat
      let distance ← squaredL2ToVector floats row center base.dim
      return if !best.found || floats.lt distance best.best_distance ||
          (floats.eq distance best.best_distance && id < best.best_id) then
        { found := true, best_id := id, best_distance := distance }
      else best

/-- The medoid of a cluster, on the ids used and the medoids. -/
def pickMedoid (centroids : List FloatBits) (assignments : List ℕ)
    (state : List NodeId × List NodeId) (centroid : ℕ) :
    Except Fault (List NodeId × List NodeId) := do
  let center ← (List.range base.dim).mapM (loadCell centroids base.dim centroid)
  let best ← (List.range sample_ids.length).foldlM
    (considerSample floats base sample_ids assignments state.1 center centroid) {}
  return if best.found then (best.best_id :: state.1, state.2 ++ [best.best_id]) else state

def selectClusterMedoids (requested train_limit iterations : ℕ) : Except Fault (List NodeId) :=
  if base.size = 0 ∨ requested = 0 then .ok []
  else do
    let train_count := min base.size (max requested train_limit)
    let sample_ids ← selectEvenlySpacedEntries base.size train_count
    let centroid_count := min requested sample_ids.length
    if centroid_count = 0 then return []
    else
      let size ← mulIndex centroid_count base.dim
      let centroids ← (List.range centroid_count).foldlM
        (seedCentroid base sample_ids centroid_count) (List.replicate size 0)
      let trained ← (List.range iterations).foldlM
        (trainIteration floats base sample_ids centroid_count)
        (centroids, List.replicate sample_ids.length 0)
      let picked ← (List.range centroid_count).foldlM
        (pickMedoid floats base sample_ids trained.1 trained.2) ([], [])
      return picked.2

end Medoids

/-- The hubs, when there are in-degrees. -/
def hubEntries (node_in_degrees : Option (List UInt32)) (count requested : ℕ) :
    Except Fault (List NodeId) :=
  match node_in_degrees with
  | none => .ok []
  | some degrees => selectHubEntries degrees count requested

def remainingEntries (entry_count size : ℕ) : Except Fault ℕ :=
  if size < entry_count then subIndex entry_count size else .ok 0

/-- The hybrid strategy. It reserves `config.entry_count` entries beforehand, which is taken to succeed:
the number is not limited by that of the vectors, and a vector may not hold that many. -/
def selectHybridEntries (floats : EntryFloats) (base : VectorSet) (config : EntrySelectionConfig)
    (node_in_degrees : Option (List UInt32)) : Except Fault (List NodeId) := do
  let medoid ← selectGlobalMedoid floats base
  let started := appendUnique config.entry_count ([], []) medoid
  let hubs ← hubEntries node_in_degrees base.size config.hub_count
  let state := hubs.foldl (appendUnique config.entry_count) started
  let remaining_after_hubs ← remainingEntries config.entry_count state.1.length
  let cluster_count := if config.cluster_count = 0 then remaining_after_hubs
    else min config.cluster_count remaining_after_hubs
  let cluster_medoids ← selectClusterMedoids floats base cluster_count config.cluster_train_limit
    config.cluster_iterations
  let state := cluster_medoids.foldl (appendUnique config.entry_count) state
  if state.1.length < config.entry_count then
    let fallback ← selectEvenlySpacedEntries base.size config.entry_count
    return (fallback.foldl (appendUnique config.entry_count) state).1
  else return state.1

def selectEntryPoints (floats : EntryFloats) (base : VectorSet) (config : EntrySelectionConfig)
    (node_in_degrees : Option (List UInt32)) : Except Fault (List NodeId) :=
  if base.size = 0 ∨ config.entry_count = 0 then .ok []
  else
    match config.strategy with
    | .singleMedoid => do
      let medoid ← selectGlobalMedoid floats base
      return [medoid]
    | .evenlySpaced => selectEvenlySpacedEntries base.size config.entry_count
    | .hybridMedoidHubsClusters => selectHybridEntries floats base config node_in_degrees

end EntrySelector
