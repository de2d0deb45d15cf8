import AgentAware.Lib.Greedy
import AgentAware.Graph.ProjectionGraph

/-!
# Good graphs

Whatever the arithmetic and the random engines do, a built graph has a list for every node, and every
list is short, in range, without its own node, without repetitions and without deleted nodes; the
list of a deleted node is empty. Each operation that sets a list sets a good one.

## Main definitions

- `NeighborsOk`, `GraphOk` — the invariant of a list and of a graph

## Main results

- `graphOk_exact`, `graphOk_approx`, `graphOk_lsh` — the builders
- `graphOk_deletePatch` — the patch turns a good graph over all nodes into a good one over the live
  nodes
-/

namespace Graph

/-- A good list for a node. -/
structure NeighborsOk (count degree : ℕ) (deleted : List Bool) (node : ℕ) (ids : List NodeId) :
    Prop where
  length_le : ids.length ≤ degree
  nodup : ids.Nodup
  valid : ∀ id ∈ ids, id.toNat < count ∧ id.toNat ≠ node ∧ deletedAt deleted id.toNat = false
  deleted_nil : deletedAt deleted node = true → ids = []

structure GraphOk (count degree : ℕ) (deleted : List Bool) (graph : Adjacency) : Prop where
  length : graph.length = count
  lists : ∀ node, node < count → NeighborsOk count degree deleted node (neighborsOf graph node)

section Lists

variable {count degree node : ℕ} {deleted : List Bool} {ids : List NodeId} {graph : Adjacency}

theorem neighborsOk_nil : NeighborsOk count degree deleted node [] :=
  ⟨Nat.zero_le _, List.nodup_nil, nofun, fun _ => rfl⟩

theorem toNat_nodeId {index : ℕ} (h : index < 2 ^ 32) : (nodeId index).toNat = index :=
  UInt32.toNat_ofNat_of_lt' h

theorem nodeId_toNat (id : NodeId) : nodeId id.toNat = id := UInt32.ofNat_toNat

theorem neighborsOf_set (graph : Adjacency) (node other : ℕ) (ids : List NodeId) :
    neighborsOf (graph.set node ids) other =
      if node = other ∧ node < graph.length then ids else neighborsOf graph other := by
  rw [neighborsOf, neighborsOf, List.getD_eq_getElem?_getD, List.getD_eq_getElem?_getD,
    List.getElem?_set]
  by_cases hnode : node = other
  · subst hnode
    by_cases hlt : node < graph.length
    · simp [hlt]
    · simp [hlt]
  · simp [hnode]

theorem neighborsOf_map_range {f : ℕ → List NodeId} (h : node < count) :
    neighborsOf ((List.range count).map f) node = f node := by
  simp [neighborsOf, h]

theorem GraphOk.set (h : GraphOk count degree deleted graph)
    (hids : node < count → NeighborsOk count degree deleted node ids) :
    GraphOk count degree deleted (graph.set node ids) := by
  refine ⟨by rw [List.length_set, h.length], fun other hother => ?_⟩
  rw [neighborsOf_set]
  split
  · next heq =>
    obtain ⟨rfl, hlt⟩ := heq
    exact hids hother
  · exact h.lists other hother

theorem graphOk_map {f : ℕ → List NodeId}
    (h : ∀ node, node < count → NeighborsOk count degree deleted node (f node)) :
    GraphOk count degree deleted ((List.range count).map f) := by
  refine ⟨by rw [List.length_map, List.length_range], fun node hnode => ?_⟩
  rw [neighborsOf_map_range hnode]
  exact h node hnode

theorem GraphOk.iterate {pass : Adjacency → Adjacency}
    (hpass : ∀ graph, GraphOk count degree deleted graph →
      GraphOk count degree deleted (pass graph))
    (h : GraphOk count degree deleted graph) (passes : ℕ) :
    GraphOk count degree deleted (pass^[passes] graph) := by
  induction passes generalizing graph with
  | zero => exact h
  | succ passes ih => exact ih (hpass graph h)

end Lists

section Pools

variable {F : Type} {ops : FloatOps F} {base : VectorSet} {self : NodeId}
  {candidates : List NodeId} {degree : ℕ} {alpha : DoubleBits} {deleted : List Bool}

variable (ops) in
theorem sortNeighbors_perm (pool : List (NeighborCandidate F)) :
    (sortNeighbors ops pool).Perm pool := List.perm_insertionSort _ _

theorem sortUnique_nodup (ids : List NodeId) : (sortUnique ids).Nodup := List.nodup_dedup _

/-- The loop is a greedy selection from the pool. -/
theorem pruneLoop_eq (keeps : NeighborCandidate F → NeighborCandidate F → Bool) (limit : ℕ)
    (pool : List (NeighborCandidate F)) :
    pruneLoop keeps limit pool = (Greedy.select keeps limit pool).map NeighborCandidate.id := by
  induction limit generalizing pool with
  | zero => rfl
  | succ limit ih =>
    cases pool with
    | nil => rfl
    | cons picked pool => rw [pruneLoop, ih, Greedy.select, List.map_cons]

/-- What is picked comes from the pool, in its order. -/
theorem pruneLoop_sublist (keeps : NeighborCandidate F → NeighborCandidate F → Bool) (limit : ℕ)
    (pool : List (NeighborCandidate F)) :
    (pruneLoop keeps limit pool).Sublist (pool.map NeighborCandidate.id) := by
  rw [pruneLoop_eq]
  exact (Greedy.select_sublist limit pool).map _

theorem length_pruneLoop_le (keeps : NeighborCandidate F → NeighborCandidate F → Bool)
    (limit : ℕ) (pool : List (NeighborCandidate F)) :
    (pruneLoop keeps limit pool).length ≤ limit := by
  rw [pruneLoop_eq, List.length_map]
  exact Greedy.length_select_le limit pool

/-- A list taken from a pool is good when the pool is. -/
theorem neighborsOk_of_pool {count node limit : ℕ} {pool : List (NeighborCandidate F)}
    {ids : List NodeId} (hlimit : limit ≤ degree) (hlength : ids.length ≤ limit)
    (hsub : ids.Sublist ((sortNeighbors ops pool).map NeighborCandidate.id))
    (hnodup : (pool.map NeighborCandidate.id).Nodup)
    (hvalid : ∀ id ∈ pool.map NeighborCandidate.id,
      id.toNat < count ∧ id.toNat ≠ node ∧ deletedAt deleted id.toNat = false)
    (hlive : deletedAt deleted node = false) : NeighborsOk count degree deleted node ids := by
  have hperm := (sortNeighbors_perm ops pool).map NeighborCandidate.id
  refine ⟨hlength.trans hlimit, (hperm.nodup_iff.mpr hnodup).sublist hsub,
    fun id hid => hvalid id (hperm.mem_iff.mp (hsub.subset hid)), fun hdeleted => ?_⟩
  rw [hlive] at hdeleted
  cases hdeleted

theorem candidatePool_ids : (candidatePool ops base self candidates deleted).map
    NeighborCandidate.id = candidates.filter fun candidate =>
      !(candidate == self || base.size ≤ candidate.toNat || deleted.length ≤ candidate.toNat ||
        deletedAt deleted candidate.toNat) := by
  rw [candidatePool, List.map_map]
  exact List.map_id _

theorem candidatePool_valid : ∀ id ∈ (candidatePool ops base self candidates deleted).map
    NeighborCandidate.id,
    id.toNat < base.size ∧ id.toNat ≠ self.toNat ∧ deletedAt deleted id.toNat = false := by
  intro id hid
  rw [candidatePool_ids] at hid
  have hkeep := (List.mem_filter.mp hid).2
  simp only [Bool.not_or, Bool.and_eq_true, Bool.not_eq_true', beq_eq_false_iff_ne,
    decide_eq_false_iff_not, not_le] at hkeep
  exact ⟨hkeep.1.1.2, fun heq => hkeep.1.1.1 (UInt32.toNat_inj.mp heq), hkeep.2⟩

theorem neighborsOk_robustPrune {node : ℕ} (hself : self.toNat = node)
    (hcandidates : candidates.Nodup) : NeighborsOk base.size degree deleted node
      (robustPruneNeighbors ops base self candidates degree alpha deleted) := by
  subst hself
  rw [robustPruneNeighbors]
  dsimp only
  split
  · exact neighborsOk_nil
  · next hgo =>
    rw [Bool.or_eq_true, not_or] at hgo
    exact neighborsOk_of_pool (min_le_left _ _) (length_pruneLoop_le _ _ _)
      (pruneLoop_sublist _ _ _) (candidatePool_ids ▸ hcandidates.filter _) candidatePool_valid
      (Bool.eq_false_iff.mpr hgo.2)

theorem neighborsOk_nearest {node : ℕ} (hself : self.toNat = node)
    (hcandidates : candidates.Nodup) : NeighborsOk base.size degree deleted node
      (nearestNeighborsFromCandidates ops base self candidates degree deleted) := by
  subst hself
  rw [nearestNeighborsFromCandidates]
  dsimp only
  split
  · exact neighborsOk_nil
  · next hgo =>
    rw [Bool.or_eq_true, not_or] at hgo
    refine neighborsOk_of_pool (min_le_left degree (base.size - 1)) ?_
      ((List.take_sublist _ _).map _)
      (candidatePool_ids ▸ hcandidates.filter _) candidatePool_valid
      (Bool.eq_false_iff.mpr hgo.2)
    rw [List.length_map, List.length_take]
    exact min_le_left _ _

end Pools

section Exact

variable {F : Type} {ops : FloatOps F} {base : VectorSet} {degree : ℕ} {deleted : List Bool}

/-- The top of a scan that replaces it or keeps it is one of the candidates. -/
theorem foldl_top_mem {α : Type} {pick : Option α → α → Option α} {candidates : List α} {found : α}
    (hpick : ∀ top candidate, pick top candidate = some candidate ∨ pick top candidate = top)
    (h : candidates.foldl pick none = some found) : found ∈ candidates := by
  have hloop : found ∈ candidates ∨ (none : Option α) = some found := by
    generalize (none : Option α) = top at h ⊢
    induction candidates generalizing top with
    | nil => exact Or.inr h
    | cons candidate candidates ih =>
      rw [List.foldl_cons] at h
      cases ih _ h with
      | inl hmem => exact Or.inl (List.mem_cons_of_mem _ hmem)
      | inr htop =>
        cases hpick top candidate with
        | inl hnew =>
          rw [hnew] at htop
          cases htop
          exact Or.inl List.mem_cons_self
        | inr hold => exact Or.inr (hold ▸ htop)
  cases hloop with
  | inl hmem => exact hmem
  | inr hnone => cases hnone

theorem heapTop_mem {heap : List (NeighborCandidate F)} {worst : NeighborCandidate F}
    (h : heapTop ops heap = some worst) : worst ∈ heap := by
  refine foldl_top_mem (fun top candidate => ?_) h
  cases top with
  | none => exact Or.inl rfl
  | some found =>
    dsimp only
    split
    · exact Or.inl rfl
    · exact Or.inr rfl

/-- The heap of `exact_neighbors` stays within its bound and holds distinct ids it was offered. -/
theorem offerNeighbor_spec {limit : ℕ} {others : List ℕ} {distance : ℕ → F}
    (hothers : (others.map nodeId).Nodup) :
    (others.foldl (fun heap other => offerNeighbor ops limit heap ⟨nodeId other, distance other⟩)
        []).length ≤ limit ∧
      ((others.foldl (fun heap other => offerNeighbor ops limit heap
        ⟨nodeId other, distance other⟩) []).map NeighborCandidate.id).Nodup ∧
      ∀ id ∈ (others.foldl (fun heap other => offerNeighbor ops limit heap
        ⟨nodeId other, distance other⟩) []).map NeighborCandidate.id, id ∈ others.map nodeId := by
  induction others using List.reverseRecOn with
  | nil => exact ⟨Nat.zero_le _, List.nodup_nil, nofun⟩
  | append_singleton others other ih =>
    rw [List.map_append, List.nodup_append] at hothers
    obtain ⟨hothers, -, hfresh⟩ := hothers
    obtain ⟨hlength, hnodup, hmem⟩ := ih hothers
    rw [List.foldl_append, List.foldl_cons, List.foldl_nil]
    generalize others.foldl (fun heap other => offerNeighbor ops limit heap
      ⟨nodeId other, distance other⟩) [] = heap at *
    have hnew : nodeId other ∉ heap.map NeighborCandidate.id := fun h =>
      hfresh _ (hmem _ h) _ List.mem_cons_self rfl
    have hold : ∀ id ∈ heap.map NeighborCandidate.id, id ∈ (others ++ [other]).map nodeId := by
      intro id hid
      rw [List.map_append]
      exact List.mem_append_left _ (hmem id hid)
    have hlast : nodeId other ∈ (others ++ [other]).map nodeId := by simp
    rw [offerNeighbor]
    split
    · next hroom =>
      refine ⟨hroom, List.nodup_cons.mpr ⟨hnew, hnodup⟩, fun id hid => ?_⟩
      rcases List.mem_cons.mp hid with rfl | hid
      · exact hlast
      · exact hold id hid
    · cases htop : heapTop ops heap with
      | none => exact ⟨hlength, hnodup, hold⟩
      | some worst =>
        dsimp only
        split
        · have hsub : (heap.eraseP fun candidate => candidate.id == worst.id).Sublist heap :=
            List.eraseP_sublist
          have hsize : (heap.eraseP fun candidate => candidate.id == worst.id).length + 1 =
              heap.length := by
            have hpositive := List.length_pos_of_mem (heapTop_mem htop)
            rw [List.length_eraseP_of_mem (heapTop_mem htop) (by simp)]
            omega
          refine ⟨?_, List.nodup_cons.mpr
            ⟨fun h => hnew ((hsub.map _).subset h), hnodup.sublist (hsub.map _)⟩, fun id hid => ?_⟩
          · rw [List.length_cons, hsize]
            exact hlength
          · rcases List.mem_cons.mp hid with rfl | hid
            · exact hlast
            · exact hold id ((hsub.map _).subset hid)
        · exact ⟨hlength, hnodup, hold⟩

theorem neighborsOk_exact (hbase : base.size ≤ 2 ^ 32) {node : ℕ} :
    NeighborsOk base.size degree deleted node (exactNeighbors ops base node degree deleted) := by
  rw [exactNeighbors]
  dsimp only
  split
  · exact neighborsOk_nil
  · next hgo =>
    rw [Bool.or_eq_true, not_or] at hgo
    have hwidth : ∀ other ∈ List.range base.size, (nodeId other).toNat = other := fun other h =>
      toNat_nodeId (lt_of_lt_of_le (List.mem_range.mp h) hbase)
    have hothers : (((List.range base.size).filter fun other =>
        !(other == node || deletedAt deleted other)).map nodeId).Nodup := by
      refine List.Nodup.map_on (fun a ha b hb hab => ?_) (List.nodup_range.filter _)
      rw [← hwidth a (List.mem_filter.mp ha).1, ← hwidth b (List.mem_filter.mp hb).1, hab]
    obtain ⟨hlength, hnodup, hmem⟩ := @offerNeighbor_spec _ ops
      (if base.size = 0 then 0 else min degree (base.size - 1)) _
      (fun other => ops.squared_l2 (base.row node) (base.row other)) hothers
    have hlimit : (if base.size = 0 then 0 else min degree (base.size - 1)) ≤ degree := by
      split
      · exact Nat.zero_le _
      · exact min_le_left _ _
    refine neighborsOk_of_pool hlimit ?_ (List.Sublist.refl _) hnodup (fun id hid => ?_)
      (Bool.eq_false_iff.mpr hgo.2)
    · rw [List.length_map, (sortNeighbors_perm _ _).length_eq]
      exact hlength
    · obtain ⟨other, hother, rfl⟩ := List.mem_map.mp (hmem id hid)
      obtain ⟨hrange, hkeep⟩ := List.mem_filter.mp hother
      rw [hwidth other hrange]
      simp only [Bool.not_or, Bool.and_eq_true, Bool.not_eq_true', beq_eq_false_iff_ne] at hkeep
      exact ⟨List.mem_range.mp hrange, hkeep.1, hkeep.2⟩

end Exact

section ReverseEdges

variable {F : Type} {ops : FloatOps F} {base : VectorSet} {degree : ℕ} {alpha : DoubleBits}
  {deleted : List Bool} {graph : Adjacency}

theorem graphOk_reverseBatch (hbase : base.size ≤ 2 ^ 32)
    (h : GraphOk base.size degree deleted graph) :
    GraphOk base.size degree deleted (addReverseEdgesBatch ops base degree deleted graph) := by
  rw [addReverseEdgesBatch, h.length]
  refine graphOk_map fun node hnode => ?_
  dsimp only
  split
  · exact neighborsOk_nil
  · split
    · exact h.lists node hnode
    · have hid : (nodeId node).toNat = node := toNat_nodeId (lt_of_lt_of_le hnode hbase)
      exact neighborsOk_nearest hid (sortUnique_nodup _)

/-- An edge that is turned round: two different live nodes. -/
theorem mem_reversibleEdges (hbase : base.size ≤ 2 ^ 32) (hlength : graph.length = base.size)
    {edge : NodeId × NodeId} (h : edge ∈ reversibleEdges deleted graph) :
    edge.1.toNat < base.size ∧ edge.1.toNat ≠ edge.2.toNat ∧
      deletedAt deleted edge.1.toNat = false ∧ deletedAt deleted edge.2.toNat = false := by
  rw [reversibleEdges, List.mem_flatMap] at h
  obtain ⟨source, hsource, h⟩ := h
  rw [List.mem_range, hlength] at hsource
  split at h
  · cases h
  · next hlive =>
    rw [Bool.or_eq_true, not_or] at hlive
    obtain ⟨target, htarget, rfl⟩ := List.mem_map.mp h
    have hkeep := (List.mem_filter.mp htarget).2
    simp only [Bool.and_eq_true, Bool.not_eq_true', beq_eq_false_iff_ne] at hkeep
    have hid : (nodeId source).toNat = source := toNat_nodeId (lt_of_lt_of_le hsource hbase)
    dsimp only
    rw [hid]
    exact ⟨hsource, hkeep.2.symm, Bool.eq_false_iff.mpr hlive.2, hkeep.1.2⟩

/-- A list with room takes a live node it does not contain. -/
theorem NeighborsOk.push {count node : ℕ} {ids : List NodeId} {source : NodeId}
    (h : NeighborsOk count degree deleted node ids) (hroom : ids.length < degree)
    (hnew : source ∉ ids) (hrange : source.toNat < count) (hne : source.toNat ≠ node)
    (hlive : deletedAt deleted source.toNat = false) (hnode : deletedAt deleted node = false) :
    NeighborsOk count degree deleted node (ids ++ [source]) := by
  refine ⟨?_, ?_, fun id hid => ?_, fun hdeleted => ?_⟩
  · rw [List.length_append]
    exact hroom
  · rw [List.nodup_append]
    refine ⟨h.nodup, List.nodup_singleton _, fun a ha b hb hab => hnew ?_⟩
    rw [List.mem_singleton] at hb
    rwa [← hb, ← hab]
  · rcases List.mem_append.mp hid with hid | hid
    · exact h.valid id hid
    · rw [List.mem_singleton.mp hid]
      exact ⟨hrange, hne, hlive⟩
  · rw [hnode] at hdeleted
    cases hdeleted

theorem graphOk_reverseVamana (hbase : base.size ≤ 2 ^ 32)
    (h : GraphOk base.size degree deleted graph) :
    GraphOk base.size degree deleted
      (addReverseEdgesVamana ops base degree deleted alpha graph) := by
  rw [addReverseEdgesVamana]
  refine List.foldlRecOn _ _ h fun next hnext edge hedge => ?_
  obtain ⟨source, target⟩ := edge
  obtain ⟨hrange, hne, hlive, htarget⟩ := mem_reversibleEdges hbase h.length hedge
  rw [addReverseEdge]
  dsimp only
  split
  · exact hnext
  · next hnew =>
    split
    · next hroom =>
      refine hnext.set fun hnode => (hnext.lists _ hnode).push hroom ?_ hrange hne hlive htarget
      simpa using hnew
    · exact hnext.set fun _ => neighborsOk_robustPrune rfl (sortUnique_nodup _)

theorem graphOk_pruneOverfull (hbase : base.size ≤ 2 ^ 32)
    (h : GraphOk base.size degree deleted graph) :
    GraphOk base.size degree deleted
      (pruneOverfullNodes ops base degree deleted alpha graph) := by
  rw [pruneOverfullNodes, h.length]
  refine graphOk_map fun node hnode => ?_
  dsimp only
  split
  · exact h.lists node hnode
  · have hid : (nodeId node).toNat = node := toNat_nodeId (lt_of_lt_of_le hnode hbase)
    exact neighborsOk_robustPrune hid (sortUnique_nodup _)

end ReverseEdges

section Policies

variable {F : Type} {ops : FloatOps F} {random : Random} {base : VectorSet}
  {config : DiskGraphBuildConfig} {deleted : List Bool}

theorem deduplicateAndLimit_nodup (candidates : List NodeId) (self : NodeId) (count : ℕ) :
    (deduplicateAndLimit random config candidates self count deleted).Nodup := by
  rw [deduplicateAndLimit]
  split
  · exact ((random.shuffle_perm _ _).nodup_iff.mpr (sortUnique_nodup _)).sublist
      (List.take_sublist _ _)
  · exact sortUnique_nodup _

theorem graphOk_reversePasses {count : ℕ} {pass : Adjacency → Adjacency} {graph : Adjacency}
    (hpass : ∀ graph, GraphOk count config.degree deleted graph →
      GraphOk count config.degree deleted (pass graph))
    (h : GraphOk count config.degree deleted graph) :
    GraphOk count config.degree deleted (reversePasses config pass graph) := by
  rw [reversePasses]
  split
  · exact h.iterate hpass _
  · exact h

theorem graphOk_exact {degree : ℕ} (hbase : base.size ≤ 2 ^ 32) :
    GraphOk base.size degree deleted (buildExactGraph ops base degree deleted) :=
  graphOk_map fun _ _ => neighborsOk_exact hbase

theorem graphOk_approx (hbase : base.size ≤ 2 ^ 32) :
    GraphOk base.size config.degree deleted
      (buildApproxProjectionGraph ops random base config deleted) := by
  rw [buildApproxProjectionGraph]
  refine graphOk_reversePasses (fun graph => graphOk_reverseBatch hbase) ?_
  refine graphOk_map fun node hnode => ?_
  dsimp only
  split
  · exact neighborsOk_nil
  · have hid : (nodeId node).toNat = node := toNat_nodeId (lt_of_lt_of_le hnode hbase)
    exact neighborsOk_robustPrune hid (deduplicateAndLimit_nodup _ _ _)

theorem graphOk_lsh (hbase : base.size ≤ 2 ^ 32) :
    GraphOk base.size config.degree deleted
      (buildLshProjectionGraph ops random base config deleted) := by
  rw [buildLshProjectionGraph]
  dsimp only
  refine graphOk_reversePasses (fun graph h => ?_) (graphOk_map fun node hnode => ?_)
  · split
    · exact graphOk_pruneOverfull hbase (graphOk_reverseVamana hbase h)
    · exact graphOk_reverseBatch hbase h
  · have hid : (nodeId node).toNat = node := toNat_nodeId (lt_of_lt_of_le hnode hbase)
    split
    · exact neighborsOk_nil
    · split
      · exact neighborsOk_robustPrune hid (deduplicateAndLimit_nodup _ _ _)
      · exact neighborsOk_nearest hid (deduplicateAndLimit_nodup _ _ _)

end Policies

section DeletePatch

variable {F : Type} {ops : FloatOps F} {base : VectorSet} {degree : ℕ} {alpha : DoubleBits}
  {deleted : List Bool} {graph : Adjacency} {node : ℕ}

theorem length_foldl_set {κ : Type} (index : κ → ℕ) (lists : κ → List NodeId) (keys : List κ)
    (graph : Adjacency) :
    (keys.foldl (fun next key => next.set (index key) (lists key)) graph).length =
      graph.length := by
  induction keys generalizing graph with
  | nil => rfl
  | cons key keys ih =>
    rw [List.foldl_cons, ih]
    exact List.length_set

/-- Setting the lists of some nodes one after the other. -/
theorem neighborsOf_foldl_set {κ : Type} (index : κ → ℕ) (lists : κ → List NodeId) (keys : List κ)
    (hnode : node < graph.length) :
    (∃ key ∈ keys, index key = node ∧ neighborsOf (keys.foldl (fun next key =>
        next.set (index key) (lists key)) graph) node = lists key) ∨
      (∀ key ∈ keys, index key ≠ node) ∧ neighborsOf (keys.foldl (fun next key =>
        next.set (index key) (lists key)) graph) node = neighborsOf graph node := by
  induction keys generalizing graph with
  | nil => exact Or.inr ⟨nofun, rfl⟩
  | cons key keys ih =>
    have hlength : (graph.set (index key) (lists key)).length = graph.length := List.length_set
    rw [List.foldl_cons]
    rcases ih (hlength.symm ▸ hnode) with ⟨later, hlater, heq⟩ | ⟨hnone, hkept⟩
    · exact Or.inl ⟨later, List.mem_cons_of_mem _ hlater, heq⟩
    · rw [neighborsOf_set] at hkept
      by_cases hkey : index key = node
      · rw [if_pos ⟨hkey, hkey ▸ hnode⟩] at hkept
        exact Or.inl ⟨key, List.mem_cons_self, hkey, hkept⟩
      · rw [if_neg fun h => hkey h.1] at hkept
        refine Or.inr ⟨fun other hother => ?_, hkept⟩
        rcases List.mem_cons.mp hother with rfl | hother
        · exact hkey
        · exact hnone other hother

theorem mem_deletedNodes {id : ℕ} :
    id ∈ deletedNodes deleted ↔ deletedAt deleted id = true := by
  rw [deletedNodes, List.mem_filter, List.mem_range, and_iff_right_iff_imp]
  intro h
  by_contra hge
  rw [deletedAt, List.getD_eq_getElem?_getD, List.getElem?_eq_none (not_lt.mp hge)] at h
  cases h

/-- A live node with an edge to a deleted one is affected. -/
theorem mem_affectedNodes {target : NodeId} (hnode : node < graph.length)
    (hwidth : node < 2 ^ 32) (hrange : node < deleted.length)
    (hlive : deletedAt deleted node = false) (htarget : target ∈ neighborsOf graph node)
    (hdeleted : deletedAt deleted target.toNat = true) :
    nodeId node ∈ affectedNodes deleted graph := by
  have hid : (nodeId node).toNat = node := toNat_nodeId hwidth
  have hincoming : nodeId node ∈ incoming deleted graph target.toNat := by
    rw [incoming, List.mem_flatMap]
    refine ⟨node, List.mem_range.mpr hnode, ?_⟩
    rw [if_neg (Bool.eq_false_iff.mp hlive), List.mem_map]
    exact ⟨target, List.mem_filter.mpr ⟨htarget, beq_self_eq_true _⟩, rfl⟩
  have hin : nodeId node ∈ inNeighbors deleted graph target.toNat := by
    refine List.mem_filter.mpr ⟨hincoming, ?_⟩
    rw [hid, hlive]
    simp [hrange]
  have hall : nodeId node ∈ ((deletedNodes deleted).flatMap (inNeighbors deleted graph)).filter
      fun source => source.toNat < graph.length := by
    refine List.mem_filter.mpr ⟨List.mem_flatMap.mpr
      ⟨target.toNat, mem_deletedNodes.mpr hdeleted, hin⟩, ?_⟩
    rw [hid]
    exact decide_eq_true hnode
  obtain ⟨found, hfound, heq⟩ := Versions.exists_firstsFrom (f := id) hall List.not_mem_nil
  rw [id, id] at heq
  rw [affectedNodes, Versions.firsts, ← heq]
  exact hfound

/-- A good graph over all nodes becomes a good graph over the live nodes. -/
theorem graphOk_deletePatch {all : List Bool} (hbase : base.size ≤ 2 ^ 32)
    (hmask : deleted.length = base.size) (h : GraphOk base.size degree all graph) :
    GraphOk base.size degree deleted
      (applyFreshvamanaDeletePatch ops base degree deleted alpha graph) := by
  rw [applyFreshvamanaDeletePatch]
  by_cases hempty : deleted.isEmpty = true
  · have hzero : base.size = 0 := by
      rw [← hmask, List.isEmpty_iff.mp hempty, List.length_nil]
    rw [if_pos hempty]
    refine ⟨h.length, fun node hnode => ?_⟩
    rw [hzero] at hnode
    exact absurd hnode (Nat.not_lt_zero _)
  · rw [if_neg hempty]
    dsimp only
    obtain ⟨patched, hpatched⟩ : ∃ patched, patched = (affectedNodes deleted graph).foldl
      (fun next source => next.set source.toNat
        (patchedNeighbors ops base degree deleted alpha graph source)) graph := ⟨_, rfl⟩
    rw [← hpatched]
    have hsize : patched.length = base.size := by
      rw [hpatched, length_foldl_set]
      exact h.length
    have hclear : ∀ node, node < base.size → NeighborsOk base.size degree deleted node
        (neighborsOf ((deletedNodes deleted).foldl (fun next deleted_id =>
          next.set deleted_id []) patched) node) := by
      intro node hnode
      have hcleared := neighborsOf_foldl_set id (fun _ => []) (deletedNodes deleted)
        (hsize.symm ▸ hnode)
      rcases hcleared with ⟨key, -, -, hnil⟩ | ⟨hlive, hkept⟩
      · have hnil : neighborsOf ((deletedNodes deleted).foldl (fun next deleted_id =>
            next.set deleted_id []) patched) node = [] := hnil
        rw [hnil]
        exact neighborsOk_nil
      · have hkept : neighborsOf ((deletedNodes deleted).foldl (fun next deleted_id =>
            next.set deleted_id []) patched) node = neighborsOf patched node := hkept
        have hlive : deletedAt deleted node = false := by
          rw [Bool.eq_false_iff]
          exact fun hdeleted => hlive node (mem_deletedNodes.mpr hdeleted) rfl
        rw [hkept, hpatched]
        rcases neighborsOf_foldl_set UInt32.toNat (patchedNeighbors ops base degree deleted alpha
          graph) (affectedNodes deleted graph) (h.length.symm ▸ hnode) with ⟨source, -, hsource, hlist⟩ | ⟨hunaffected, hlist⟩
        · rw [hlist]
          exact neighborsOk_robustPrune hsource (sortUnique_nodup _)
        · -- no edge of the node leads to a deleted one
          rw [hlist]
          obtain ⟨hlength, hnodup, hvalid, -⟩ := h.lists node hnode
          have hwidth := lt_of_lt_of_le hnode hbase
          refine ⟨hlength, hnodup, fun target htarget =>
            ⟨(hvalid target htarget).1, (hvalid target htarget).2.1, ?_⟩, fun hdeleted => ?_⟩
          · rw [Bool.eq_false_iff]
            intro hdeleted
            exact hunaffected _ (mem_affectedNodes (h.length.symm ▸ hnode) hwidth
              (hmask.symm ▸ hnode) hlive htarget hdeleted) (toNat_nodeId hwidth)
          · rw [hlive] at hdeleted
            cases hdeleted
    exact ⟨(length_foldl_set id (fun _ => []) _ _).trans hsize, hclear⟩

end DeletePatch

end Graph
