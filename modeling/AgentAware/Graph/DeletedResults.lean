import AgentAware.Graph.BuildInvariants
import AgentAware.Graph.SearchCoverage

/-!
# Deleted ids in the results of a search

The graph leads to no deleted node, but the entries of a search are chosen without regard to
deletions. A search returns deleted ids when, and only when, one of its entries is deleted.

## Main definitions

- `builtIndex` — the index of a base and its graph

## Main results

- `no_deleted_iff` — no query returns a deleted id exactly when no entry is deleted
-/

namespace Graph

/-- The index that is built from a base and its graph: every node with its row and its list. -/
def builtIndex (base : VectorSet) (graph : Adjacency) : PackedIndex where
  nodes := (List.range base.size).map fun i => ⟨base.row i, neighborsOf graph i⟩

theorem builtIndex_vector_count (base : VectorSet) (graph : Adjacency) :
    (builtIndex base graph).vector_count = base.size := by
  simp [builtIndex, PackedIndex.vector_count]

/-- Only ids of the base have neighbours, those of the graph. -/
theorem mem_builtIndex_neighbors {base : VectorSet} {graph : Adjacency} {id neighbor : NodeId}
    (h : neighbor ∈ ((builtIndex base graph).loadNode id).neighbors) :
    id.toNat < base.size ∧ neighbor ∈ neighborsOf graph id.toNat := by
  by_cases hlt : id.toNat < base.size
  · simpa [builtIndex, PackedIndex.loadNode, hlt] using h
  · simp [builtIndex, PackedIndex.loadNode, hlt] at h

section Results

variable {D : Type} [LinearOrder D] {index : PackedIndex} {config : DiskGraphSearchConfig}
  {distances : QueryDistances D} {state : SearchState D} {id : NodeId}

/-- The ids of the result are ids of the best nodes. -/
theorem mem_finalizeTopk {result : SearchResult D}
    (h : result ∈ (finalizeTopk index config distances state).topk) :
    ∃ found ∈ state.best, found.id = result.id := by
  have hmem := List.mem_of_mem_take h
  split at hmem
  · obtain ⟨found, hfound, rfl⟩ := List.mem_map.mp (TopK.mem_sortBy.mp hmem)
    exact ⟨found, TopK.mem_sortBy.mp hfound, rfl⟩
  · exact ⟨result, TopK.mem_sortBy.mp hmem, rfl⟩

variable (distances) in
/-- The ids of all best nodes, when the result has room for them. -/
theorem finalizeTopk_ids (hroom : state.best.length ≤ effectiveK index config) :
    ((finalizeTopk index config distances state).topk.map SearchResult.id).Perm
      (state.best.map SearchResult.id) := by
  have hsorted := TopK.sortBy_perm SearchResult.rank state.best
  rw [finalizeTopk]
  dsimp only
  split
  · have hrerank : ((TopK.sortBy SearchResult.rank state.best).map
        (rerank index distances)).map SearchResult.id =
        (TopK.sortBy SearchResult.rank state.best).map SearchResult.id := by
      rw [List.map_map]
      rfl
    have hexact := TopK.sortBy_perm SearchResult.rank
      ((TopK.sortBy SearchResult.rank state.best).map (rerank index distances))
    rw [List.take_of_length_le]
    · exact (hexact.map _).trans (hrerank ▸ hsorted.map _)
    · rw [hexact.length_eq, List.length_map, hsorted.length_eq]
      exact hroom
  · rw [List.take_of_length_le]
    · exact hsorted.map _
    · rw [hsorted.length_eq]
      exact hroom

/-- The state a search ends in. -/
theorem searchOne_eq_ok {result : DiskGraphSearchResult D}
    (h : searchOne index config distances = .ok result) :
    result = finalizeTopk index config distances
      (searchLoop index config distances (effectiveBeamWidth config) config.search_width
        (initializeSearchState index config distances)) := by
  rw [searchOne, throwIf_bind_eq_ok, throwIf_bind_eq_ok] at h
  obtain ⟨-, -, h⟩ := h
  cases h
  rfl

theorem searchOne_ok (htop : config.top_k ≠ 0) (hwidth : config.search_width ≠ 0)
    (hentry : config.entry_count ≠ 0) (hadc : config.adc_enable = true) :
    searchOne index config distances = .ok (finalizeTopk index config distances
      (searchLoop index config distances (effectiveBeamWidth config) config.search_width
        (initializeSearchState index config distances))) := by
  rw [searchOne, throwIf_bind_eq_ok, throwIf_bind_eq_ok]
  exact ⟨by simp [htop, hwidth, hentry], by simp [hadc], rfl⟩

end Results

section Deleted

variable {F D : Type} [LinearOrder D] {ops : FloatOps F} {random : Random} {base : VectorSet}
  {config : DiskGraphBuildConfig} {graph : Adjacency}

/-- For every base, every set of deleted ids, every build configuration and every search
configuration that the search accepts: no query and no `top_k` returns a deleted id exactly when none
of the accepted entries is deleted. -/
theorem no_deleted_iff (hbase : base.size ≤ 2 ^ 32) (hnonempty : 0 < base.size)
    (hbuild : buildGraph ops random base config = .ok graph) (search : DiskGraphSearchConfig)
    (hwidth : search.search_width ≠ 0) (hentry : search.entry_count ≠ 0)
    (hadc : search.adc_enable = true) (distances : List FloatBits → QueryDistances D) :
    (∀ query top_k result, searchOne (builtIndex base graph) { search with top_k := top_k }
        (distances query) = .ok result →
      ∀ found ∈ result.topk, found.id ∉ config.deleted_ids) ↔
      ∀ entry ∈ acceptedEntries (builtIndex base graph) search, entry ∉ config.deleted_ids := by
  have hgraph := (graphOk_buildGraph hbase hbuild).invariant
  constructor
  · -- with `top_k` the size of the base, every node visited is returned, the entries among them
    intro hall entry hentryMem
    obtain ⟨state, hstate⟩ : ∃ state, state = searchLoop (builtIndex base graph)
        { search with top_k := base.size } (distances [])
        (effectiveBeamWidth { search with top_k := base.size }) search.search_width
        (initializeSearchState (builtIndex base graph) { search with top_k := base.size }
          (distances [])) := ⟨_, rfl⟩
    have hcapacity : resultCapacity (builtIndex base graph) { search with top_k := base.size } =
        (builtIndex base graph).vector_count := by
      rw [resultCapacity, effectiveK, builtIndex_vector_count]
      dsimp only
      omega
    have hstart : Tracks (builtIndex base graph) { search with top_k := base.size }
        (fun _ => True) (initializeSearchState (builtIndex base graph)
          { search with top_k := base.size } (distances [])) [] :=
      tracks_start fun _ _ => trivial
    obtain ⟨done, hend⟩ := tracks_searchLoop (fun _ _ _ _ => trivial)
      (effectiveBeamWidth { search with top_k := base.size }) search.search_width hstart
    have hvisited : entry ∈ (initializeSearchState (builtIndex base graph)
        { search with top_k := base.size } (distances [])).visited := by
      rw [visited_start]
      exact hentryMem
    have hstill := visited_searchLoop (builtIndex base graph)
      { search with top_k := base.size } (distances [])
      (effectiveBeamWidth { search with top_k := base.size }) search.search_width _ hvisited
    rw [← hstate] at hend hstill
    have hbest := hend.best_all hcapacity
    have hroom : state.best.length ≤
        effectiveK (builtIndex base graph) { search with top_k := base.size } := by
      have hlength := hbest.length_eq
      have hrange := length_le_of_range hend.nodup hend.range
      rw [List.length_map] at hlength
      rw [effectiveK, builtIndex_vector_count] at *
      dsimp only
      omega
    have hids := finalizeTopk_ids (distances []) hroom
    obtain ⟨found, hfound, hid⟩ := List.mem_map.mp
      (hids.mem_iff.mpr (hbest.mem_iff.mpr hstill))
    rw [← hid]
    refine hall [] base.size _ (searchOne_ok hnonempty.ne' hwidth hentry hadc) found ?_
    rwa [hstate] at hfound
  · intro hentries query top_k result hresult found hfound
    rw [searchOne_eq_ok hresult] at hfound
    obtain ⟨best, hbest, heq⟩ := mem_finalizeTopk hfound
    have hneighbors : ∀ id, ∀ neighbor ∈ ((builtIndex base graph).loadNode id).neighbors,
        neighbor.toNat < (builtIndex base graph).vector_count →
          neighbor ∉ config.deleted_ids := by
      intro id neighbor hneighbor _
      obtain ⟨hlt, hmem⟩ := mem_builtIndex_neighbors hneighbor
      exact hgraph.not_deleted id.toNat hlt neighbor hmem
    have hstart : Tracks (builtIndex base graph) { search with top_k := top_k }
        (fun id => id ∉ config.deleted_ids) (initializeSearchState (builtIndex base graph)
          { search with top_k := top_k } (distances query)) [] :=
      tracks_start hentries
    obtain ⟨done, hend⟩ := tracks_searchLoop hneighbors _ _ hstart
    rw [← heq]
    exact hend.holds _ (hend.best_sub best hbest)

/-- The middle one of three points deleted: the search starts at the first, and no query returns the
deleted one. -/
theorem no_deleted_iff_middle :
    let base : VectorSet := { dim := 1, values := [0, 1, 3] }
    let search : DiskGraphSearchConfig := { entry_count := 1, adc_enable := true }
    let distances : List FloatBits → QueryDistances ℕ := fun query =>
      { adc := UInt32.toNat, exact := lineOps.squared_l2 query, improves := fun _ _ => true }
    ∀ query top_k result,
      searchOne (builtIndex base [[2], [], [0]]) { search with top_k := top_k } (distances query) =
        .ok result →
      ∀ found ∈ result.topk, found.id ∉ [1] := by
  intro base search distances
  have hbuild : buildGraph lineOps idleRandom base { degree := 1, deleted_ids := [1] } =
      .ok [[2], [], [0]] := by
    decide +kernel
  have hentries : (acceptedEntries (builtIndex base [[2], [], [0]]) search).all
      (fun entry => decide (entry ∉ [1])) = true := by
    decide
  exact (no_deleted_iff (by decide) (by decide) hbuild search (by decide) (by decide) (by decide)
    distances).mpr fun entry hentry => of_decide_eq_true (List.all_eq_true.mp hentries entry hentry)

/-- The first of three points deleted: it is still the entry of the search, which returns it. -/
theorem deleted_entry_returned :
    let base : VectorSet := { dim := 1, values := [0, 1, 3] }
    let search : DiskGraphSearchConfig :=
      { top_k := 1, entry_count := 1, adc_enable := true, rerank_topk := 1 }
    let distances : QueryDistances ℕ :=
      { adc := UInt32.toNat, exact := lineOps.squared_l2 [0], improves := fun _ _ => true }
    buildGraph lineOps idleRandom base { degree := 1, deleted_ids := [0] } = .ok [[], [], [1]] ∧
      searchOne (builtIndex base [[], [], [1]]) search distances =
        .ok { topk := [⟨0, 0⟩], expanded := 1, visited := 1 } := by
  decide +kernel

end Deleted

end Graph
