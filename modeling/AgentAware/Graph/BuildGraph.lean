import AgentAware.Graph.ProjectionGraph
import AgentAware.Graph.VamanaBuilder

/-!
# `build_graph`

The build policies share the configuration, its checks and the delete patch. The `vamana` policy
leaves deleted nodes out while it builds; the others build over all nodes and are patched.

## Main definitions

- `validateBuildPolicy` — the checks
- `buildGraph` — the graph of a policy
-/

namespace Graph

variable {F : Type} (ops : FloatOps F) (random : Random) (base : VectorSet)
  (config : DiskGraphBuildConfig)

def isCandidateBuildPolicy : Bool :=
  config.build_policy = "approx-rp" || config.build_policy = "lsh-rp" ||
    config.build_policy = "lsh-vamana" || config.build_policy = "vamana"

def validateBuildPolicy : Except String Unit := do
  throwIf (config.build_policy ≠ "exact" ∧ isCandidateBuildPolicy config = false)
    "--graph-build-policy must be exact, approx-rp, lsh-rp, lsh-vamana, or vamana"
  let projections := isCandidateBuildPolicy config = true ∧ config.build_policy ≠ "vamana"
  throwIf (projections ∧ config.approx_projections = 0) "--approx-projections must be positive"
  throwIf (projections ∧ config.approx_window = 0) "--approx-window must be positive"
  throwIf (projections ∧ config.approx_candidate_limit ≠ 0 ∧
    config.approx_candidate_limit < config.degree)
    "--approx-candidate-limit must be 0 or at least --graph-degree"
  let lsh := config.build_policy = "lsh-rp" ∨ config.build_policy = "lsh-vamana"
  throwIf (lsh ∧ config.lsh_tables = 0) "--lsh-tables must be positive"
  throwIf (lsh ∧ (config.lsh_bits = 0 ∨ 24 < config.lsh_bits)) "--lsh-bits must be between 1 and 24"
  throwIf (lsh ∧ 1 < config.lsh_probe_radius)
    "--lsh-probe-radius currently supports only 0 or 1"
  throwIf (lsh ∧ config.lsh_bucket_limit = 0) "--lsh-bucket-limit must be positive"
  throwIf (ops.belowOne config.robust_prune_alpha) "--robust-prune-alpha must be at least 1.0"

def vamanaConfig : VamanaBuildConfig where
  max_degree := config.degree
  search_width := if config.approx_candidate_limit = 0 then max (config.degree * 8) 200
    else max config.approx_candidate_limit config.degree
  alpha := config.robust_prune_alpha
  seed := config.random_seed
  add_reverse_edges := config.reverse_edge_patch
  deleted_ids := config.deleted_ids

/-- The graph before the delete patch. -/
def policyGraph : Except String Adjacency :=
  let no_deleted := List.replicate base.size false
  if config.build_policy = "exact" then
    .ok (buildExactGraph ops base config.degree no_deleted)
  else if config.build_policy = "vamana" then
    VamanaBuilder.build ops base (vamanaConfig config) random
  else if config.build_policy = "approx-rp" then
    .ok (buildApproxProjectionGraph ops random base config no_deleted)
  else .ok (buildLshProjectionGraph ops random base config no_deleted)

def buildGraph : Except String Adjacency := do
  validateBuildPolicy ops config
  let deleted := deletedMask base.size config.deleted_ids
  let graph ← policyGraph ops random base config
  if config.deleted_ids ≠ [] ∧ config.build_policy ≠ "vamana" then
    return applyFreshvamanaDeletePatch ops base config.degree deleted config.robust_prune_alpha
      graph
  else return graph

end Graph
