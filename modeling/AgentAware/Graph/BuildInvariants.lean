import AgentAware.Graph.BuildGraph
import AgentAware.Graph.GraphInvariants

/-!
# What `build_graph` returns

The Vamana builder keeps its graph good from the initial one through every insertion, and with the
other builders and the delete patch every policy returns a good graph.

## Main definitions

- `GraphInvariant` — the six conditions, in terms of the deleted ids

## Main results

- `graphOk_vamana` — the Vamana builder
- `buildGraph_invariant` — every policy
-/

namespace Graph

section Masks

variable {count id : ℕ} {deleted_ids : List NodeId}

theorem deletedAt_deletedMask (h : id < count) :
    deletedAt (deletedMask count deleted_ids) id =
      deleted_ids.any fun deleted => deleted.toNat == id := by
  simp [deletedAt, deletedMask, h]

theorem length_deletedMask : (deletedMask count deleted_ids).length = count := by
  rw [deletedMask, List.length_map, List.length_range]

theorem deletedAt_deletedMask_iff {node : NodeId} (h : node.toNat < count) :
    deletedAt (deletedMask count deleted_ids) node.toNat = true ↔ node ∈ deleted_ids := by
  rw [deletedAt_deletedMask h, List.any_eq_true]
  constructor
  · rintro ⟨other, hother, heq⟩
    rwa [← UInt32.toNat_inj.mp (beq_iff_eq.mp heq)]
  · exact fun hmem => ⟨node, hmem, beq_self_eq_true _⟩

/-- The empty mask of the Vamana builder deletes nothing, like a mask without deleted ids. -/
theorem isDeleted_eq {config : VamanaBuildConfig} (h : id < count) :
    VamanaBuilder.isDeleted (VamanaBuilder.deletedMask config count) id =
      deletedAt (deletedMask count config.deleted_ids) id := by
  rw [VamanaBuilder.isDeleted, VamanaBuilder.deletedMask]
  cases hids : config.deleted_ids with
  | nil => simp [deletedAt_deletedMask h]
  | cons first rest =>
    have hlength : (deletedMask count (first :: rest)).length = count := length_deletedMask
    have hne : (deletedMask count (first :: rest)).isEmpty = false := by
      rw [List.isEmpty_eq_false_iff_exists_mem]
      exact ⟨_, List.getElem_mem (hlength.symm ▸ h)⟩
    simp [hne, hlength, h]

end Masks

namespace VamanaBuilder

variable {F : Type} {ops : FloatOps F} {base : VectorSet} {config : VamanaBuildConfig}

theorem mem_uniqueIds {ids : List NodeId} {excluded id : NodeId} {deleted : List Bool}
    (h : id ∈ uniqueIds ids excluded deleted) :
    id ∈ ids ∧ id ≠ excluded ∧ isDeleted deleted id.toNat = false := by
  obtain ⟨hmem, hkeep⟩ := List.mem_filter.mp (Versions.mem_firstsFrom h).1
  simp only [Bool.not_or, Bool.and_eq_true, Bool.not_eq_true', beq_eq_false_iff_ne] at hkeep
  exact ⟨hmem, hkeep⟩

theorem uniqueIds_nodup (ids : List NodeId) (excluded : NodeId) (deleted : List Bool) :
    (uniqueIds ids excluded deleted).Nodup := by
  have hnodup : ((uniqueIds ids excluded deleted).map id).Nodup := Versions.firstsFrom_nodup [] _
  rwa [List.map_id] at hnodup

/-- Whatever its candidates, `robust_prune` returns a good list. -/
theorem neighborsOk_robustPrune {node_id : NodeId} {candidates ids : List NodeId}
    (h : robustPrune ops base config node_id candidates = .ok ids) :
    NeighborsOk base.size config.max_degree (Graph.deletedMask base.size config.deleted_ids)
      node_id.toNat ids := by
  rw [robustPrune, throwIf_bind_eq_ok] at h
  obtain ⟨hrange, h⟩ := h
  have hnode : node_id.toNat < base.size := not_le.mp hrange
  dsimp only at h
  split at h
  · cases h
    exact neighborsOk_nil
  · next hgo =>
    rw [Bool.or_eq_true, not_or, isDeleted_eq hnode] at hgo
    rw [checkRows, throwIf_bind_eq_ok] at h
    obtain ⟨hrows, h⟩ := h
    cases h
    rw [List.any_eq_true, not_exists] at hrows
    have hids : ((uniqueIds candidates node_id (deletedMask config base.size)).map fun id =>
        (⟨id, ops.l2_distance_sq_simd (base.row node_id.toNat) (base.row id.toNat)⟩ :
          NeighborCandidate F)).map NeighborCandidate.id =
        uniqueIds candidates node_id (deletedMask config base.size) := by
      rw [List.map_map]
      exact List.map_id _
    refine neighborsOk_of_pool (min_le_left _ _) (length_pruneLoop_le _ _ _)
      (pruneLoop_sublist _ _ _) ?_ (fun id hid => ?_) (Bool.eq_false_iff.mpr hgo.1)
    · rw [hids]
      exact uniqueIds_nodup _ _ _
    rw [hids] at hid
    obtain ⟨-, hne, hlive⟩ := mem_uniqueIds hid
    have hlt : id.toNat < base.size := by
      by_contra hge
      exact hrows id ⟨hid, decide_eq_true (not_lt.mp hge)⟩
    rw [isDeleted_eq hlt] at hlive
    exact ⟨hlt, fun heq => hne (UInt32.toNat_inj.mp heq), hlive⟩

variable (base config) in
/-- The invariant of the graph under construction. -/
abbrev Good (graph : Adjacency) : Prop :=
  GraphOk base.size config.max_degree (Graph.deletedMask base.size config.deleted_ids) graph

theorem good_addReverseEdge {source target : NodeId} {graph next : Adjacency}
    (h : addReverseEdge ops base config source graph target = .ok next)
    (hgraph : Good base config graph) : Good base config next := by
  rw [addReverseEdge] at h
  split at h
  · cases h
    exact hgraph
  · next hdifferent =>
    simp only [Bool.or_eq_true, decide_eq_true_eq, beq_iff_eq, not_or, not_le] at hdifferent
    obtain ⟨⟨htarget, hsource⟩, hne⟩ := hdifferent
    rw [hgraph.length] at htarget hsource
    split at h
    · cases h
      exact hgraph
    · next hfresh =>
      rw [isDeleted_eq htarget, isDeleted_eq hsource] at hfresh
      simp only [Bool.or_eq_true, not_or, Bool.not_eq_true] at hfresh
      obtain ⟨⟨hlive, hlive'⟩, hnew⟩ := hfresh
      split at h
      · next hroom =>
        cases h
        refine hgraph.set fun hnode => (hgraph.lists _ hnode).push hroom ?_ hsource
          (fun heq => hne (UInt32.toNat_inj.mp heq)) hlive hlive'
        simpa using hnew
      · rw [except_bind_eq_ok] at h
        obtain ⟨pruned, hpruned, h⟩ := h
        cases h
        exact hgraph.set fun _ => neighborsOk_robustPrune hpruned

/-- A loop of steps that keep the graph good, when it returns. -/
theorem good_foldlM {step : Adjacency → NodeId → Except String Adjacency} (nodes : List NodeId)
    {graph final : Adjacency}
    (hstep : ∀ node graph next, step graph node = .ok next → Good base config graph →
      Good base config next)
    (h : nodes.foldlM step graph = .ok final) (hgraph : Good base config graph) :
    Good base config final := by
  induction nodes generalizing graph with
  | nil =>
    cases h
    exact hgraph
  | cons node nodes ih =>
    rw [List.foldlM_cons, except_bind_eq_ok] at h
    obtain ⟨next, hnext, h⟩ := h
    exact ih h (hstep node graph next hnext hgraph)

theorem good_insert {node_id entry_id : NodeId} {graph next : Adjacency}
    (h : insert ops base config graph node_id entry_id = .ok next)
    (hgraph : Good base config graph) : Good base config next := by
  rw [insert, throwIf_bind_eq_ok, throwIf_bind_eq_ok] at h
  obtain ⟨-, -, h⟩ := h
  dsimp only at h
  split at h
  · cases h
    exact hgraph.set fun _ => neighborsOk_nil
  · rw [except_bind_eq_ok] at h
    obtain ⟨found, -, h⟩ := h
    rw [except_bind_eq_ok] at h
    obtain ⟨neighbors, hneighbors, h⟩ := h
    have hset := hgraph.set fun _ => neighborsOk_robustPrune hneighbors
    split at h
    · exact good_foldlM neighbors (fun _ _ _ => good_addReverseEdge) h hset
    · cases h
      exact hset

theorem good_initialGraph (hbase : base.size ≤ 2 ^ 32) :
    Good base config (initialGraph base config (deletedMask config base.size)) := by
  rw [initialGraph]
  refine graphOk_map fun node hnode => ?_
  split
  · exact neighborsOk_nil
  · next hgo =>
    rw [Bool.or_eq_true, not_or, isDeleted_eq hnode] at hgo
    have hid : (nodeId node).toNat = node := toNat_nodeId (lt_of_lt_of_le hnode hbase)
    have hrange : ∀ n, (nodeId (n % base.size)).toNat < base.size := by
      intro n
      have hlt : n % base.size < base.size := Nat.mod_lt _ (by omega)
      rwa [toNat_nodeId (lt_of_lt_of_le hlt hbase)]
    rw [initialNeighbors]
    dsimp only
    refine ⟨?_, (uniqueIds_nodup _ _ _).sublist (List.take_sublist _ _), fun id hmem => ?_,
      fun hdeleted => absurd hdeleted hgo.2⟩
    · rw [List.length_take]
      exact min_le_left _ _
    · obtain ⟨hcandidate, hne, hlive⟩ := mem_uniqueIds (List.mem_of_mem_take hmem)
      have hlt : id.toNat < base.size := by
        rcases List.mem_append.mp hcandidate with hcandidate | hcandidate
        · obtain ⟨r, -, hcandidate⟩ := List.mem_flatMap.mp hcandidate
          simp only [List.mem_cons, List.not_mem_nil, or_false] at hcandidate
          rcases hcandidate with rfl | rfl <;> exact hrange _
        · obtain ⟨r, -, rfl⟩ := List.mem_map.mp hcandidate
          exact hrange _
      rw [isDeleted_eq hlt] at hlive
      refine ⟨hlt, fun heq => hne ?_, hlive⟩
      rw [← nodeId_toNat id, heq]

/-- Every graph that the Vamana builder returns is good. -/
theorem graphOk_vamana {random : Random} {graph : Adjacency}
    (h : build ops base config random = .ok graph) : Good base config graph := by
  rw [build] at h
  iterate 5 rw [throwIf_bind_eq_ok] at h
  obtain ⟨-, -, -, -, hsize, h⟩ := h
  rw [except_bind_eq_ok] at h
  obtain ⟨medoid, -, h⟩ := h
  refine good_foldlM _ (fun node graph next hnext hgraph => ?_) h
    (good_initialGraph (by omega))
  rw [buildNode] at hnext
  split at hnext
  · cases hnext
    exact hgraph.set fun _ => neighborsOk_nil
  · exact good_insert hnext hgraph

end VamanaBuilder

/-- The six conditions. -/
structure GraphInvariant (count degree : ℕ) (deleted_ids : List NodeId) (graph : Adjacency) :
    Prop where
  length : graph.length = count
  degree_le : ∀ node < count, (neighborsOf graph node).length ≤ degree
  in_range : ∀ node < count, ∀ id ∈ neighborsOf graph node, id.toNat < count
  no_self : ∀ node < count, ∀ id ∈ neighborsOf graph node, id.toNat ≠ node
  nodup : ∀ node < count, (neighborsOf graph node).Nodup
  not_deleted : ∀ node < count, ∀ id ∈ neighborsOf graph node, id ∉ deleted_ids
  deleted_empty : ∀ id ∈ deleted_ids, id.toNat < count → neighborsOf graph id.toNat = []

theorem GraphOk.invariant {count degree : ℕ} {deleted_ids : List NodeId} {graph : Adjacency}
    (h : GraphOk count degree (deletedMask count deleted_ids) graph) :
    GraphInvariant count degree deleted_ids graph where
  length := h.length
  degree_le node hnode := (h.lists node hnode).length_le
  in_range node hnode id hid := ((h.lists node hnode).valid id hid).1
  no_self node hnode id hid := ((h.lists node hnode).valid id hid).2.1
  nodup node hnode := (h.lists node hnode).nodup
  not_deleted node hnode id hid hdeleted := by
    obtain ⟨hlt, -, hlive⟩ := (h.lists node hnode).valid id hid
    rw [(deletedAt_deletedMask_iff hlt).mpr hdeleted] at hlive
    cases hlive
  deleted_empty id hid hlt :=
    (h.lists id.toNat hlt).deleted_nil ((deletedAt_deletedMask_iff hlt).mpr hid)

/-- Masks that delete the same nodes of the base have the same good graphs. -/
theorem GraphOk.congr_mask {count degree : ℕ} {deleted deleted' : List Bool} {graph : Adjacency}
    (h : GraphOk count degree deleted graph)
    (hmask : ∀ id < count, deletedAt deleted id = deletedAt deleted' id) :
    GraphOk count degree deleted' graph := by
  refine ⟨h.length, fun node hnode => ?_⟩
  obtain ⟨hlength, hnodup, hvalid, hnil⟩ := h.lists node hnode
  refine ⟨hlength, hnodup, fun id hid => ?_, fun hdeleted => hnil (hmask node hnode ▸ hdeleted)⟩
  obtain ⟨hlt, hne, hlive⟩ := hvalid id hid
  exact ⟨hlt, hne, hmask id.toNat hlt ▸ hlive⟩

section Build

variable {F : Type} {ops : FloatOps F} {random : Random} {base : VectorSet}
  {config : DiskGraphBuildConfig} {graph : Adjacency}

/-- The policies other than `vamana` build over all nodes. -/
theorem graphOk_policyGraph (hbase : base.size ≤ 2 ^ 32) (hpolicy : config.build_policy ≠ "vamana")
    (h : policyGraph ops random base config = .ok graph) :
    GraphOk base.size config.degree (List.replicate base.size false) graph := by
  rw [policyGraph, if_neg hpolicy] at h
  split_ifs at h
  · cases h
    exact graphOk_exact hbase
  · cases h
    exact graphOk_approx hbase
  · cases h
    exact graphOk_lsh hbase

theorem graphOk_buildGraph (hbase : base.size ≤ 2 ^ 32)
    (h : buildGraph ops random base config = .ok graph) :
    GraphOk base.size config.degree (deletedMask base.size config.deleted_ids) graph := by
  rw [buildGraph, unit_bind_eq_ok] at h
  obtain ⟨-, h⟩ := h
  dsimp only at h
  rw [except_bind_eq_ok] at h
  obtain ⟨built, hbuilt, h⟩ := h
  by_cases hpolicy : config.build_policy = "vamana"
  · have hvamana : VamanaBuilder.build ops base (vamanaConfig config) random = .ok built := by
      rw [policyGraph] at hbuilt
      simpa [hpolicy] using hbuilt
    rw [if_neg fun hpatch => hpatch.2 hpolicy] at h
    cases h
    exact VamanaBuilder.graphOk_vamana hvamana
  · have hall := graphOk_policyGraph hbase hpolicy hbuilt
    by_cases hids : config.deleted_ids = []
    · rw [if_neg fun hpatch => hpatch.1 hids] at h
      cases h
      refine hall.congr_mask fun id hid => ?_
      rw [hids, deletedAt_deletedMask hid]
      simp [deletedAt, hid]
    · rw [if_pos ⟨hids, hpolicy⟩] at h
      cases h
      exact graphOk_deletePatch hbase length_deletedMask hall

/-- For every base of at most 2^32 vectors, every configuration, every arithmetic and every random
engine: whenever `build_graph` returns, its graph satisfies the six conditions. -/
theorem buildGraph_invariant (hbase : base.size ≤ 2 ^ 32)
    (h : buildGraph ops random base config = .ok graph) :
    GraphInvariant base.size config.degree config.deleted_ids graph :=
  (graphOk_buildGraph hbase h).invariant

/-- The integer part of a positive `double`. -/
def wholePart (bits : DoubleBits) : ℕ :=
  (2 ^ 52 + bits.toNat % 2 ^ 52) * 2 ^ (bits.toNat / 2 ^ 52) / 2 ^ 1075

/-- Whole coordinates on a line. -/
def lineOps : FloatOps ℕ :=
  let distance : List FloatBits → List FloatBits → ℕ := fun a b =>
    ((a.headD 0).toNat - (b.headD 0).toNat) + ((b.headD 0).toNat - (a.headD 0).toNat)
  { squared_l2 := distance, l2_distance_sq_simd := distance, lt := fun a b => a < b
    eq := fun a b => a == b, score := distance, nonneg := fun _ => true
    double := wholePart, mul := fun a b => a * b, belowOne := fun _ => false
    centroid := fun _ => [0], max := 0 }

/-- Engines that yield empty planes and leave lists as they are. -/
def idleRandom : Random where
  projectionPlane _ _ := []
  lshPlane _ _ _ := []
  shuffle _ ids := ids
  shuffle_perm _ ids := List.Perm.refl ids

/-- Three points on a line, the one in the middle deleted: the patch joins its neighbours. -/
theorem buildGraph_invariant_three :
    let base : VectorSet := { dim := 1, values := [0, 1, 3] }
    let config : DiskGraphBuildConfig := { degree := 1, deleted_ids := [1] }
    buildGraph lineOps idleRandom base config = .ok [[2], [], [0]] ∧
      GraphInvariant base.size config.degree config.deleted_ids [[2], [], [0]] := by
  intro base config
  have hbuild : buildGraph lineOps idleRandom base config = .ok [[2], [], [0]] := by
    decide +kernel
  exact ⟨hbuild, buildGraph_invariant (by decide) hbuild⟩

end Build

end Graph
