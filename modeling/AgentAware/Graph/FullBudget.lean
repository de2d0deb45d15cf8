import AgentAware.Dynamic.HybridSearch
import AgentAware.Graph.DeletedResults

/-!
# A search with the budget for every node

When the width and the rerank pool have room for every node, no rule stops the search early and every
node can be reached from an entry, the search visits everything, keeps everything, and ranks it by
exact distance: it is brute force, whatever the approximate distances are.

## Main results

- `fullBudget_eq` — the search returns what brute force returns
-/

namespace Graph

section FullBudget

variable {D : Type} [LinearOrder D] {index : PackedIndex} {config : DiskGraphSearchConfig}
  {distances : QueryDistances D} {squared_l2 : List FloatBits → List FloatBits → D}
  {base : VectorSet} {query : List FloatBits}

/-- The search ends with every node among the best. -/
theorem fullBudget_best (hcount : index.vector_count = base.size) (hids : base.size ≤ 2 ^ 32)
    (hreach : ∀ id : NodeId, id.toNat < base.size →
      ∃ entry ∈ acceptedEntries index config, Relation.ReflTransGen (Follows index) entry id)
    (hstop : config.early_stop = false) (hadaptive : config.adaptive_early_stop = false)
    (hwidth : base.size ≤ config.search_width) (hrerank : base.size ≤ config.rerank_topk) :
    ((searchLoop index config distances (effectiveBeamWidth config) config.search_width
      (initializeSearchState index config distances)).best.map SearchResult.id).Perm
      ((List.range base.size).map nodeId) := by
  have hstart : Tracks index config (fun _ => True)
      (initializeSearchState index config distances) [] := tracks_start fun _ _ => trivial
  obtain ⟨done, hend⟩ := tracks_searchLoop (fun _ _ _ _ => trivial)
    (effectiveBeamWidth config) config.search_width hstart
  have hstill : ∀ entry ∈ acceptedEntries index config, entry ∈ (searchLoop index config distances
      (effectiveBeamWidth config) config.search_width
      (initializeSearchState index config distances)).visited := fun entry hentry =>
    visited_searchLoop _ _ _ _ _ _ (by rw [visited_start]; exact hentry)
  have hbeam : 0 < effectiveBeamWidth config :=
    lt_of_lt_of_le Nat.zero_lt_one (le_max_left _ _)
  have hexhausts : (searchLoop index config distances (effectiveBeamWidth config)
      config.search_width (initializeSearchState index config distances)).candidates = [] ∨
      config.search_width ≤ (searchLoop index config distances (effectiveBeamWidth config)
        config.search_width (initializeSearchState index config distances)).expanded :=
    searchLoop_exhausts hstop hadaptive hbeam _ _ (Nat.le_add_left _ _)
  generalize searchLoop index config distances (effectiveBeamWidth config) config.search_width
    (initializeSearchState index config distances) = final at *
  have hvisited := length_le_of_range hend.nodup hend.range
  have hcandidates : final.candidates = [] := by
    rcases hexhausts with hnone | hwide
    · exact hnone
    · -- as many nodes are expanded as there are
      have hlength := hend.split.length_eq
      rw [List.length_append, List.length_map, hend.expanded] at hlength
      rw [← List.length_eq_zero_iff]
      omega
  have hcapacity : resultCapacity index config = index.vector_count := by
    rw [resultCapacity, hcount]
    omega
  refine (hend.best_all hcapacity).trans ?_
  have hwidth' : ∀ i ∈ List.range base.size, (nodeId i).toNat = i := fun i hi =>
    toNat_nodeId (lt_of_lt_of_le (List.mem_range.mp hi) hids)
  have hnodup : ((List.range base.size).map nodeId).Nodup := by
    refine List.Nodup.map_on (fun a ha b hb hab => ?_) List.nodup_range
    rw [← hwidth' a ha, ← hwidth' b hb, hab]
  refine (List.perm_ext_iff_of_nodup hend.nodup hnodup).mpr fun id => ?_
  rw [List.mem_map]
  constructor
  · intro hid
    have hlt := hend.range id hid
    rw [hcount] at hlt
    exact ⟨id.toNat, List.mem_range.mpr hlt, nodeId_toNat id⟩
  · rintro ⟨i, hi, rfl⟩
    have hlt : (nodeId i).toNat < base.size := by
      rw [hwidth' i hi]
      exact List.mem_range.mp hi
    obtain ⟨entry, hentry, hpath⟩ := hreach (nodeId i) hlt
    exact visited_of_reachable hend hcandidates (hstill entry hentry) hpath

/-- For every base, every well-formed index of it whose nodes can all be reached from the entries,
every query, every `top_k`, every beam width and every approximate distance: a search that nothing
stops early, with width and rerank pool for every node, returns what brute force returns. -/
theorem fullBudget_eq (hbase : base.size ≠ 0) (hids : base.size ≤ 2 ^ 32)
    (hcount : index.vector_count = base.size)
    (hvectors : ∀ i < base.size, (index.loadNode (nodeId i)).vector = base.row i)
    (hexact : distances.exact = squared_l2 query)
    (hreach : ∀ id : NodeId, id.toNat < base.size →
      ∃ entry ∈ acceptedEntries index config, Relation.ReflTransGen (Follows index) entry id)
    (hstop : config.early_stop = false) (hadaptive : config.adaptive_early_stop = false)
    (hwidth : base.size ≤ config.search_width) (hrerank : base.size ≤ config.rerank_topk)
    (htop : config.top_k ≠ 0) (hentry : config.entry_count ≠ 0)
    (hadc : config.adc_enable = true) :
    ∃ result, searchOne index config distances = .ok result ∧
      Dynamic.searchMemoryFast squared_l2 base query config.top_k = .ok result.topk := by
  refine ⟨_, searchOne_ok htop (by omega) hentry hadc, ?_⟩
  have hbest : ((searchLoop index config distances (effectiveBeamWidth config) config.search_width
      (initializeSearchState index config distances)).best.map SearchResult.id).Perm
      ((List.range base.size).map nodeId) :=
    fullBudget_best hcount hids hreach hstop hadaptive hwidth hrerank
  generalize searchLoop index config distances (effectiveBeamWidth config) config.search_width
    (initializeSearchState index config distances) = final at *
  rw [Dynamic.searchMemoryFast_eq hbase hids]
  have hnodup : ((Dynamic.baseResults squared_l2 base query).map SearchResult.rank).Nodup :=
    SearchResult.rank_nodup (Dynamic.baseResults_ids_nodup hids)
  have hlength : (Dynamic.baseResults squared_l2 base query).length = base.size := by
    rw [Dynamic.baseResults, List.length_map, List.length_range]
  -- the exact results of the best nodes are those of the base
  have hexactIds : ∀ results : List (SearchResult D), results.map (rerank index distances) =
      (results.map SearchResult.id).map fun id =>
        (⟨id, squared_l2 query (index.loadNode id).vector⟩ : SearchResult D) := by
    intro results
    rw [List.map_map]
    refine List.map_congr_left fun result _ => ?_
    rw [rerank, hexact]
    rfl
  have hperm : ((TopK.sortBy SearchResult.rank final.best).map (rerank index distances)).Perm
      (Dynamic.baseResults squared_l2 base query) := by
    rw [hexactIds]
    have hsorted : ((TopK.sortBy SearchResult.rank final.best).map SearchResult.id).Perm
        ((List.range base.size).map nodeId) := ((TopK.sortBy_perm _ _).map _).trans hbest
    refine (hsorted.map _).trans (List.Perm.of_eq ?_)
    rw [List.map_map, Dynamic.baseResults]
    refine List.map_congr_left fun i hi => ?_
    rw [Function.comp_apply, hvectors i (List.mem_range.mp hi)]
    rfl
  have hpositive : 0 < config.rerank_topk := by omega
  rw [finalizeTopk, if_pos hpositive]
  dsimp only
  rw [effectiveK, hcount, ← hlength,
    TopK.sortBy_eq_of_perm (TopK.separates_of_nodup ((hperm.map _).nodup_iff.mpr hnodup)) hperm, ← TopK.topk,
    TopK.topk_min_length]

/-- Three nodes in a ring, searched from the first, with approximate distances that say nothing. -/
theorem fullBudget_eq_ring :
    let base : VectorSet := { dim := 1, values := [5, 1, 3] }
    let index : PackedIndex := { nodes := [⟨[5], [1]⟩, ⟨[1], [2]⟩, ⟨[3], [0]⟩] }
    let config : DiskGraphSearchConfig :=
      { top_k := 2, search_width := 3, beam_width := 1, entry_count := 1, adc_enable := true
        rerank_topk := 3 }
    let distances : QueryDistances ℕ :=
      { adc := fun _ => 0, exact := lineOps.squared_l2 [0], improves := fun _ _ => true }
    ∃ result, searchOne index config distances = .ok result ∧
      Dynamic.searchMemoryFast lineOps.squared_l2 base [0] 2 = .ok result.topk := by
  intro base index config distances
  have hfirst : Follows index 0 1 := ⟨by decide, by decide⟩
  have hsecond : Follows index 1 2 := ⟨by decide, by decide⟩
  have hsteps : ∀ i, i < 3 → Relation.ReflTransGen (Follows index) 0 (nodeId i)
    | 0, _ => Relation.ReflTransGen.refl
    | 1, _ => Relation.ReflTransGen.single hfirst
    | 2, _ => (Relation.ReflTransGen.single hfirst).tail hsecond
  refine fullBudget_eq (by decide) (by decide) (by decide) (by decide) rfl (fun id hid => ?_) rfl
    rfl (by decide) (by decide) (by decide) (by decide) rfl
  have hsize : base.size = 3 := by decide
  refine ⟨0, by decide, ?_⟩
  rw [← nodeId_toNat id]
  exact hsteps id.toNat (hsize ▸ hid)

end FullBudget

end Graph
